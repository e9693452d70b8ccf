import Mathlib
import PackageConf.Load
import PackageConf.FileSystem.Tree
import PackageConf.Proofs.Parse.FirstError
import PackageConf.Proofs.CommandLine.Dump
/-!
# Missing files

Two places decide that the file to be loaded is missing: the loader, by looking whether anything is
found at its path, and `parseFile`, by the reason for which the path does not open. What opens is
found, and there the two agree, also on all that goes wrong in included files. What is found but
does not open is read by both, with the same error. Where nothing is found they agree if the reason
is that nothing of this name exists (`load_eq_read_iff`); for any other reason the loader calls the
file missing as well.
-/
namespace PackageConf

/-! ## What is called missing -/

/-- Following visits never ends in a missing file: an include that is missing has its own error. -/
theorem Draft.follow_ne_notFound (fs : FileSystem) (limit : Nat) (d : Draft) (vs : List Visit)
    (path : String) : d.follow fs limit vs ≠ .error (.notFound path) := by
  intro h
  obtain ⟨before, v, after, d', -, -, hv⟩ := follow_eq_error_iff.1 h
  cases Visit.act_eq_error_iff.1 hv

/-- Once a source is open, the rest of reading it says of no file that it is missing. -/
theorem parseFile_of_ok {fs : FileSystem} {path : String} {source : Source}
    (h : fs.access path = .ok source) (limit : Nat) (missing : String) :
    parseFile fs path limit ≠ .error (.notFound missing) := by
  rw [parseFile, Reader.ofPath, h]
  intro hmissing
  have hrun := (ParseState.run_start fs limit path source).symm.trans hmissing
  exact Draft.follow_ne_notFound fs limit _ _ _ (Except.map_eq_error_iff.1 hrun)

theorem parseFile_of_error {fs : FileSystem} {path : String} {cause : FileError}
    (h : fs.access path = .error cause) (limit : Nat) :
    parseFile fs path limit =
      .error (if cause = .notFound then .notFound path else .io cause) := by
  rw [parseFile, Reader.ofPath, h]
  cases cause <;> rfl

/-- **The file is missing** for `parseFile` if nothing of its name exists. -/
theorem parseFile_eq_notFound_iff {fs : FileSystem} {path missing : String} {limit : Nat} :
    parseFile fs path limit = .error (.notFound missing) ↔
      missing = path ∧ fs.access path = .error .notFound := by
  cases hacc : fs.access path with
  | ok source => simp [parseFile_of_ok hacc]
  | error cause =>
    rw [parseFile_of_error hacc]
    by_cases hcause : cause = .notFound
    · simp [hcause, eq_comm]
    · simp [hcause]

/-! ## The loader -/

namespace Loader

/-- The file of the loader as `parseFile` reads it, and the defaults, if they are wanted, in the
place of the error that the file is missing. -/
def read (l : Loader) (fs : FileSystem) : Except ConfigError Config :=
  match parseFile fs l.path l.includeLimit with
  | .error (.notFound path) => if l.useDefaults then .ok .default else .error (.notFound path)
  | result => result

/-- What the loader makes of a missing file. -/
def missing (l : Loader) : Except ConfigError Config :=
  if l.useDefaults then .ok .default else .error (.notFound l.path)

theorem missing_ne_io (l : Loader) (cause : FileError) : l.missing ≠ .error (.io cause) := by
  unfold missing
  split <;> simp

theorem load_of_has {l : Loader} {fs : FileSystem} (h : fs.has l.path = true) :
    l.load fs = parseFile fs l.path l.includeLimit :=
  if_pos h

theorem load_of_not_has {l : Loader} {fs : FileSystem} (h : fs.has l.path = false) :
    l.load fs = l.missing := by
  rw [load, h]
  rfl

theorem read_of_ok {l : Loader} {fs : FileSystem} {source : Source}
    (h : fs.access l.path = .ok source) : l.read fs = parseFile fs l.path l.includeLimit := by
  unfold read
  split
  · next missing hmissing => exact absurd hmissing (parseFile_of_ok h _ missing)
  · rfl

theorem read_of_error {l : Loader} {fs : FileSystem} {cause : FileError}
    (h : fs.access l.path = .error cause) :
    l.read fs = if cause = .notFound then l.missing else .error (.io cause) := by
  rw [read, parseFile_of_error h]
  by_cases hcause : cause = .notFound
  · rw [if_pos hcause, if_pos hcause]
    rfl
  · rw [if_neg hcause, if_neg hcause]

/-- What is found and does not open for a reason is loaded as it is read, unless the reason is that
nothing is there and the defaults are wanted. -/
theorem load_eq_read_iff_of_has {l : Loader} {fs : FileSystem} {cause : FileError}
    (hhas : fs.has l.path = true) (h : fs.access l.path = .error cause) :
    l.load fs = l.read fs ↔ cause = .notFound → l.useDefaults = false := by
  rw [load_of_has hhas, parseFile_of_error h, read_of_error h]
  by_cases hcause : cause = .notFound
  · by_cases hdefaults : l.useDefaults <;> simp [hcause, hdefaults, missing]
  · simp [hcause]

theorem load_eq_read_iff_of_not_has {l : Loader} {fs : FileSystem} {cause : FileError}
    (hhas : fs.has l.path = false) (h : fs.access l.path = .error cause) :
    l.load fs = l.read fs ↔ cause = .notFound := by
  rw [load_of_not_has hhas, read_of_error h]
  by_cases hcause : cause = .notFound
  · simp [hcause]
  · simp [hcause, l.missing_ne_io cause]

/-- **Where loading and reading agree.** What is found is loaded as it is read, with all errors, and
so no error of an include and no failure to open or to read what is there turns into the defaults.
What is not found is missing for the loader, whatever keeps it from opening, and for reading only if
nothing of its name exists. So the two agree if for that reason alone nothing is found; and where
something is found that does not open for that reason, they agree unless the defaults are wanted. -/
theorem load_eq_read_iff (l : Loader) (fs : FileSystem) :
    (l.load fs = l.read fs ↔ ∀ cause, fs.access l.path = .error cause →
      if fs.has l.path then cause = .notFound → l.useDefaults = false else cause = .notFound) ∧
    (fs.has l.path = true → l.load fs = parseFile fs l.path l.includeLimit) ∧
    (fs.has l.path = false →
      l.load fs = if l.useDefaults then .ok .default else .error (.notFound l.path)) ∧
    (∀ cause, fs.access l.path = .error cause →
      parseFile fs l.path l.includeLimit =
        .error (if cause = .notFound then .notFound l.path else .io cause)) ∧
    ∀ path, parseFile fs l.path l.includeLimit = .error (.notFound path) ↔
      path = l.path ∧ fs.access l.path = .error .notFound := by
  refine ⟨?_, load_of_has, load_of_not_has, fun _ h => parseFile_of_error h _,
    fun _ => parseFile_eq_notFound_iff⟩
  cases hacc : fs.access l.path with
  | ok source => simp [load_of_has (fs.has_of_access _ _ hacc), read_of_ok hacc]
  | error cause =>
    cases hhas : fs.has l.path with
    | true => simp [load_eq_read_iff_of_has hhas hacc]
    | false => simp [load_eq_read_iff_of_not_has hhas hacc]

/-- A file that is found and stays closed does not turn into the defaults. -/
example :
    ({ path := "p", useDefaults := true } : Loader).load
      (.ofList [("p", .error (.other "Permission denied"))] ["p"]) =
        .error (.io (.other "Permission denied")) := by cbv

def oneFile : FileTree := ⟨[(["f"], some (Text.encode "Color\n".toList))]⟩

/-- A path below a file is no file that could be read, and is loaded as a missing one. -/
theorem load_belowFile :
    parseFile oneFile.fileSystem "f/x" = .error (.io .notADirectory) ∧
    ({ path := "f/x" } : Loader).load oneFile.fileSystem = .error (.notFound "f/x") ∧
    ({ path := "f/x", useDefaults := true } : Loader).load oneFile.fileSystem = .ok .default ∧
    ({ path := "f/x" } : Loader).load oneFile.fileSystem ≠
      ({ path := "f/x" } : Loader).read oneFile.fileSystem ∧
    ({ path := "f/x", useDefaults := true } : Loader).load oneFile.fileSystem ≠
      ({ path := "f/x", useDefaults := true } : Loader).read oneFile.fileSystem := by
  have hacc : oneFile.fileSystem.access "f/x" = .error .notADirectory := by cbv
  have hhas : oneFile.fileSystem.has "f/x" = false := by cbv
  have hread (l : Loader) (hl : l.path = "f/x") :
      l.read oneFile.fileSystem = .error (.io .notADirectory) :=
    read_of_error (by rw [hl]; exact hacc)
  refine ⟨parseFile_of_error hacc _, load_of_not_has hhas, load_of_not_has hhas, ?_, ?_⟩
  · rw [hread _ rfl, load_of_not_has hhas]
    exact missing_ne_io _ _
  · rw [hread _ rfl, load_of_not_has hhas]
    exact missing_ne_io _ _

end Loader
end PackageConf
