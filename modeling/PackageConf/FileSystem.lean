import PackageConf.Error
/-!
# File systems

All that reading a configuration needs of a file system: whether something is found at a path, and
what opening the path leads to. These are two questions: what is found need not be open to everyone.
A source that is open may still fail to be read, as a directory does. The files of one file system
are of bounded size, which holds of every finite collection of files.
-/
namespace PackageConf

abbrev Bytes := List UInt8

/-- What is open: bytes, or something of which nothing can be read, each time for the same cause. -/
inductive Source where
  | bytes (content : Bytes)
  | unreadable (cause : FileError)
deriving DecidableEq, Repr

namespace Source

/-- A directory opens like a file. -/
@[match_pattern]
def directory : Source := .unreadable .isADirectory

/-- The number of bytes that can be read. -/
def size : Source → Nat
  | .bytes content => content.length
  | .unreadable _ => 0

end Source

/-- What is found at each path, and what the path opens. What opens is found. -/
structure FileSystem where
  /-- Is something found at the path? -/
  has : String → Bool
  /-- What the path opens, or why it does not open. -/
  access : String → Except FileError Source
  /-- No file is larger than this. -/
  largest : Nat
  has_of_access : ∀ path source, access path = .ok source → has path = true
  size_le : ∀ path source, access path = .ok source → source.size ≤ largest

namespace FileSystem

private def sizeMax (entry : String × Except FileError Source) (n : Nat) : Nat :=
  match entry.2 with
  | .ok source => max source.size n
  | .error _ => n

private theorem le_foldr_sizeMax {entries : List (String × Except FileError Source)}
    {path : String} {source : Source} (h : (path, .ok source) ∈ entries) :
    source.size ≤ entries.foldr sizeMax 0 := by
  induction entries with
  | nil => cases h
  | cons e es ih =>
    rcases List.mem_cons.1 h with rfl | h
    · exact Nat.le_max_left _ _
    · refine Nat.le_trans (ih h) ?_
      rw [List.foldr_cons, sizeMax]
      split
      · exact Nat.le_max_right _ _
      · exact Nat.le_refl _

/-- The file system that has been looked at under the given paths only; no other path opens. Found
is what opens, and besides what is known to be there. -/
def ofList (entries : List (String × Except FileError Source)) (closed : List String := []) :
    FileSystem where
  has path := closed.contains path || ((entries.lookup path).getD (.error .notFound)).toBool
  access path := (entries.lookup path).getD (.error .notFound)
  largest := entries.foldr sizeMax 0
  has_of_access path source h := by simp [h, Except.toBool]
  size_le path source h := by
    cases hl : entries.lookup path with
    | none => simp [hl] at h
    | some r =>
      simp only [hl, Option.getD_some] at h
      subst h
      obtain ⟨before, after, rfl, -⟩ := List.lookup_eq_some_iff.1 hl
      exact le_foldr_sizeMax (List.mem_append_right before List.mem_cons_self)

end FileSystem
end PackageConf
