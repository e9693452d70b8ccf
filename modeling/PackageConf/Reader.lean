import PackageConf.Line
/-!
# Readers

A `Reader` is a source that is being read: its label, what is left of it, and the number of the
last line read. `next` reads one line. It goes on after a line that is in error, stays where it
is at the end of the source, and fails each time on a source that cannot be read.
-/
namespace PackageConf

/-- A source with the place reached in it. -/
structure Reader where
  label : String
  line : Nat := 0
  rest : Source
deriving DecidableEq, Repr

namespace Reader

def ofBytes (label : String) (bytes : Bytes) : Reader := { label, rest := .bytes bytes }

/-- A reader at the beginning of what a path leads to, labelled with the path. -/
def ofPath (fs : FileSystem) (path : String) : Except FileError Reader :=
  (fs.access path).map fun source => { label := path, rest := source }

/-- Read the next line; `none` at the end (`next_token`). -/
def next (r : Reader) : Except ConfigError (Option Token) × Reader :=
  match r.rest with
  | .unreadable cause => (.error (.io cause), r)
  | .bytes bytes =>
    match Line.take Line.window bytes with
    | ([], _) => (.ok none, r)
    | (run, bytes) =>
      ((Line.token run (r.line + 1)).map some,
        { r with line := r.line + 1, rest := .bytes bytes })

/-- The reader as shown to someone who looks into it. -/
def debug (r : Reader) : String :=
  "ConfReader \x7b label: " ++ Text.quoted r.label ++ ", line: " ++ r.line.repr ++ " \x7d"

@[simp] theorem next_label (r : Reader) : r.next.2.label = r.label := by
  unfold next
  split
  · rfl
  · split <;> rfl

/-- At the end of a source nothing moves. -/
theorem next_eq_self_of_none {r : Reader} (h : r.next.1 = .ok none) : r.next.2 = r := by
  unfold next at h ⊢
  split at h
  · rfl
  · split at h
    · rfl
    · next run _ _ _ =>
      cases ht : Line.token run (r.line + 1) <;> simp [ht, Except.map] at h

/-- A line that was read is gone from the source. -/
theorem size_next_lt {r : Reader} {t : Token} (h : r.next.1 = .ok (some t)) :
    r.next.2.rest.size < r.rest.size := by
  unfold next at h ⊢
  split at h
  · cases h
  · next bytes hr =>
    rw [hr]
    split at h
    · cases h
    · next run bytes' hrun ht =>
      have happ := Line.take_append Line.window bytes
      rw [ht] at happ
      simp only [Source.size, ← happ, List.length_append]
      have : run ≠ [] := hrun
      have := List.length_pos_iff.2 this
      omega

end Reader
end PackageConf
