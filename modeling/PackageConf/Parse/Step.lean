import PackageConf.Draft
import PackageConf.Reader.Stack
/-!
# One step of reading a configuration

A `ParseState` is a stack of readers and the draft made of the lines read so far. `step` reads one
line and lets it act: an `Include` key goes on with another file, any other line concerns the
draft, and at the end of a file the one that included it is resumed. The first error ends the
reading, and an include below `limit` open includes is an error.
-/
namespace PackageConf

structure ParseState where
  stack : ReaderStack
  draft : Draft := {}
deriving DecidableEq, Repr

/-- What one step comes to. -/
inductive Progress where
  | running (s : ParseState)
  | done (c : Config)
  | failed (e : ConfigError)
deriving DecidableEq, Repr

namespace ParseState

/-- The key that goes on with another file, whatever section is open. -/
def includeName : String := "Include"

/-- The file named on line `line` is read next. The path must be given, the limit not be reached
and the file be there, and are looked at in that order. -/
def includeFile (fs : FileSystem) (limit : Nat) (s : ParseState) (line : Nat)
    (values : List String) : Except ConfigError ParseState :=
  match values with
  | [] => .error (.missingInclude line)
  | path :: _ =>
    if limit ≤ s.stack.depth then .error (.includeDepth line limit)
    else match s.stack.includePath fs path with
      | (.ok (), stack) => .ok { s with stack }
      | (.error e, _) => .error e

/-- A token that was read on line `line` acts on the state. -/
def act (fs : FileSystem) (limit : Nat) (s : ParseState) (line : Nat) :
    Token → Except ConfigError ParseState
  | .comment => .ok s
  | .header name => .ok { s with draft := s.draft.header name }
  | .key name values =>
    if name = includeName then includeFile fs limit s line values
    else (s.draft.key line name values).map fun draft => { s with draft }

/-- Read one line, or leave a file that is at its end: one turn of the loop in `parse_from`. -/
def step (fs : FileSystem) (limit : Nat) (s : ParseState) : Progress :=
  match s.stack.next with
  | (.error e, _) => .failed e
  | (.ok none, stack) =>
    match stack.pop with
    | (true, stack) => .running { s with stack }
    | (false, _) => .done s.draft.finish
  | (.ok (some t), stack) =>
    match act fs limit { s with stack } stack.active.line t with
    | .ok s => .running s
    | .error e => .failed e

section
variable {fs : FileSystem} {limit line : Nat} {s : ParseState} {path : String}
  {values : List String}

theorem includeFile_of_ok {source : Source} (hd : s.stack.depth < limit)
    (h : fs.access path = .ok source) :
    includeFile fs limit s line (path :: values) =
      .ok { s with stack := s.stack.push { label := path, rest := source } } := by
  rw [includeFile, if_neg (Nat.not_le.2 hd), ReaderStack.includePath_of_ok h]

theorem includeFile_of_error {cause : FileError} (hd : s.stack.depth < limit)
    (h : fs.access path = .error cause) :
    includeFile fs limit s line (path :: values) =
      .error (.includeFailed s.stack.active.line path cause) := by
  rw [includeFile, if_neg (Nat.not_le.2 hd), ReaderStack.includePath_of_error h]

theorem includeFile_of_le (hd : limit ≤ s.stack.depth) :
    includeFile fs limit s line (path :: values) = .error (.includeDepth line limit) :=
  if_pos hd

/-- What has to be so for an include to be followed, and what it does. -/
theorem includeFile_eq_ok_iff {s' : ParseState} :
    includeFile fs limit s line values = .ok s' ↔
      ∃ path rest source, values = path :: rest ∧ s.stack.depth < limit ∧
        fs.access path = .ok source ∧
        s' = { s with stack := s.stack.push { label := path, rest := source } } := by
  constructor
  · intro h
    cases values with
    | nil => cases h
    | cons path rest =>
      rcases Nat.lt_or_ge s.stack.depth limit with hd | hd
      · cases hacc : fs.access path with
        | error cause => rw [includeFile_of_error hd hacc] at h; cases h
        | ok source =>
          rw [includeFile_of_ok hd hacc] at h
          exact ⟨path, rest, source, rfl, hd, hacc, (Except.ok.inj h).symm⟩
      · rw [includeFile_of_le hd] at h; cases h
  · rintro ⟨path, rest, source, rfl, hd, hacc, rfl⟩
    exact includeFile_of_ok hd hacc

end

end ParseState
end PackageConf
