import PackageConf.Reader
/-!
# Stacks of readers

While an included file is read, the reader of the including file waits. A `ReaderStack` holds the
reader that is active and those that wait, the one to be resumed first in front. Reading concerns
the active reader only, and `pop` brings a waiting one back just as it was left.
-/
namespace PackageConf

/-- The active reader and those that wait for it. -/
structure ReaderStack where
  active : Reader
  suspended : List Reader := []
deriving DecidableEq, Repr

namespace ReaderStack

def depth (s : ReaderStack) : Nat := s.suspended.length

/-- Let the active reader wait for another one. -/
def push (s : ReaderStack) (r : Reader) : ReaderStack := ⟨r, s.active :: s.suspended⟩

/-- Leave the active reader and resume the one that waits for it, if one does. -/
def pop (s : ReaderStack) : Bool × ReaderStack :=
  match s.suspended with
  | [] => (false, s)
  | r :: rs => (true, ⟨r, rs⟩)

/-- Read the next line of the active reader. -/
def next (s : ReaderStack) : Except ConfigError (Option Token) × ReaderStack :=
  (s.active.next.1, { s with active := s.active.next.2 })

/-- Go on with the file of a path (`include`). The error names the line of the active reader. -/
def includePath (s : ReaderStack) (fs : FileSystem) (path : String) :
    Except ConfigError Unit × ReaderStack :=
  match Reader.ofPath fs path with
  | .ok r => (.ok (), s.push r)
  | .error e => (.error (.includeFailed s.active.line path e), s)

/-- The stack as shown to someone who looks into it: the reader that has waited longest first. -/
def debug (s : ReaderStack) : String :=
  "ReaderStack \x7b active: " ++ s.active.debug ++ ", suspended: [" ++
    ", ".intercalate (s.suspended.reverse.map Reader.debug) ++ "] \x7d"

@[simp] theorem pop_push (s : ReaderStack) (r : Reader) : (s.push r).pop = (true, s) := rfl

@[simp] theorem depth_push (s : ReaderStack) (r : Reader) : (s.push r).depth = s.depth + 1 := rfl

@[simp] theorem depth_next (s : ReaderStack) : s.next.2.depth = s.depth := rfl

/-- Only what was pushed is resumed. -/
theorem pop_eq_true_iff {s s' : ReaderStack} : s.pop = (true, s') ↔ s = s'.push s.active := by
  obtain ⟨active, suspended⟩ := s
  obtain ⟨active', suspended'⟩ := s'
  cases suspended <;> simp [pop, push]

theorem depth_of_pop {s s' : ReaderStack} (h : s.pop = (true, s')) : s.depth = s'.depth + 1 := by
  rw [pop_eq_true_iff.1 h, depth_push]

/-- Where no reader waits nothing is left, and nothing changes. -/
theorem pop_eq_false_iff {s s' : ReaderStack} : s.pop = (false, s') ↔ s.depth = 0 ∧ s' = s := by
  unfold pop depth
  split <;> simp_all [eq_comm]

section
variable {fs : FileSystem} {s : ReaderStack} {path : String}

theorem includePath_of_ok {source : Source} (h : fs.access path = .ok source) :
    s.includePath fs path = (.ok (), s.push { label := path, rest := source }) := by
  simp [includePath, Reader.ofPath, h, Except.map]

theorem includePath_of_error {cause : FileError} (h : fs.access path = .error cause) :
    s.includePath fs path = (.error (.includeFailed s.active.line path cause), s) := by
  simp [includePath, Reader.ofPath, h, Except.map]

end

end ReaderStack
end PackageConf
