import PackageConf.FileSystem
import PackageConf.Text.Split
/-!
# Trees of files

A `FileTree` lists the files and empty directories below a working directory, by the names on the
way to them. `FileTree.access` resolves a path name by name: every name but the last must be that
of a directory, `.` stays, `..` goes up, and a slash at the end asks for a directory. Above and
outside the working directory there are directories, but nothing in them is known.
-/
namespace PackageConf

/-- Files with their content, and empty directories. -/
structure FileTree where
  entries : List (List String × Option Bytes)
deriving Repr

/-- Where the resolution of a path has got to. -/
inductive Place where
  /-- At the names below the working directory. -/
  | inside (names : List String)
  /-- In a directory that does not lie below the working directory. -/
  | outside
deriving DecidableEq, Repr

def Place.parent : Place → Place
  | .inside (n :: ns) => .inside (n :: ns).dropLast
  | _ => .outside

namespace FileTree

/-- The longest name of a file or directory, in bytes. -/
def maxNameLength : Nat := 255

/-- The longest path, in bytes. -/
def maxPathLength : Nat := 4095

/-- What is at the end of the names. A directory is there when something below it is. -/
def node? (t : FileTree) (names : List String) : Option Source :=
  match t.entries.lookup names with
  | some (some content) => some (.bytes content)
  | some none => some .directory
  | none =>
    if names = [] || t.entries.any (fun e => names.isPrefixOf e.1) then some .directory else none

def at? (t : FileTree) : Place → Option Source
  | .inside names => t.node? names
  | .outside => some .directory

/-- The place that a name leads to from a directory. -/
def enter (t : FileTree) (p : Place) (name : String) : Except FileError Place :=
  if name = "" || name = "." then .ok p
  else if name = ".." then .ok p.parent
  else if maxNameLength < name.utf8ByteSize then .error .nameTooLong
  else match p with
    | .inside names =>
      if (t.node? (names ++ [name])).isSome then .ok (.inside (names ++ [name]))
      else .error .notFound
    | .outside => .error .notFound

/-- Follow names one after the other. -/
def walk (t : FileTree) : Place → List String → Except FileError Source
  | p, [] =>
    match t.at? p with
    | some source => .ok source
    | none => .error .notFound
  | p, name :: names =>
    match t.at? p with
    | some .directory =>
      match t.enter p name with
      | .ok q => t.walk q names
      | .error e => .error e
    | some _ => .error .notADirectory
    | none => .error .notFound

/-- What a path leads to. An absolute path starts outside the working directory. -/
def access (t : FileTree) (path : String) : Except FileError Source :=
  if '\x00' ∈ path.toList then .error .nulInName
  else if maxPathLength < path.utf8ByteSize then .error .nameTooLong
  else match path.toList with
    | [] => .error .notFound
    | first :: rest =>
      t.walk (if first = '/' then .outside else .inside [])
        ((Text.pieces '/' (first :: rest)).map String.ofList)

def largest (t : FileTree) : Nat :=
  t.entries.foldr (fun e n => max (e.2.getD []).length n) 0

theorem size_le_of_node? {t : FileTree} {names : List String} {source : Source}
    (h : t.node? names = some source) : source.size ≤ t.largest := by
  unfold node? at h
  split at h
  · next content hl =>
    obtain rfl := Option.some.inj h
    obtain ⟨before, after, he, -⟩ := List.lookup_eq_some_iff.1 hl
    rw [largest, he, List.foldr_append, List.foldr_cons]
    generalize List.foldr _ 0 after = m
    clear he
    induction before with
    | nil => exact Nat.le_max_left _ _
    | cons e es ih => exact Nat.le_trans ih (Nat.le_max_right _ _)
  · obtain rfl := Option.some.inj h
    exact Nat.zero_le _
  · split at h
    · obtain rfl := Option.some.inj h
      exact Nat.zero_le _
    · cases h

theorem size_le_of_walk {t : FileTree} {names : List String} {p : Place} {source : Source}
    (h : t.walk p names = .ok source) : source.size ≤ t.largest := by
  induction names generalizing p with
  | nil =>
    unfold walk at h
    split at h
    · next hs =>
      obtain rfl := Except.ok.inj h
      cases p with
      | inside names => exact size_le_of_node? hs
      | outside => obtain rfl := Option.some.inj hs; exact Nat.zero_le _
    · cases h
  | cons n ns ih =>
    unfold walk at h
    split at h
    · split at h
      · exact ih h
      · cases h
    · cases h
    · cases h

/-- The file system of a tree, where everything that is found opens. -/
def fileSystem (t : FileTree) : FileSystem where
  has path := (t.access path).toBool
  access := t.access
  largest := t.largest
  has_of_access path source h := by rw [h]; rfl
  size_le path source h := by
    unfold access at h
    split at h
    · cases h
    split at h
    · cases h
    split at h
    · cases h
    · exact size_le_of_walk h

end FileTree
end PackageConf
