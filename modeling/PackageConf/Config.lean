import PackageConf.Setting
import PackageConf.SigLevel
/-!
# Configurations

A `Config` is what the files of a package manager say: a value for every setting, and the
repositories in the order of their sections. The settings are reached by name of field, and each
`set` is undone by nothing but another one of the same field (`scalar_setScalar`, …).

Where a definition is of a function that the program calls by another name, such as
`to_conf_string`, the docstring gives that name.
-/
namespace PackageConf

/-- The flags that are on, as a mask; bits without a flag are kept. -/
structure OptionFlags where
  bits : Mask
deriving DecidableEq, Repr

namespace OptionFlags

def names : List (String × Mask) := Flag.all.map fun f => (f.bitName, f.bit)

/-- The text of the bits that are set. -/
def describe (write : Mask.Writer) (o : OptionFlags) : String := write names o.bits

/-- The same inside the name of the type. -/
def debug (write : Mask.Writer) (o : OptionFlags) : String :=
  o.bits.debug write "ConfigOptions" names

def has (o : OptionFlags) (m : Mask) : Bool := o.bits.has m

/-- Turn a flag on or off. -/
def set (o : OptionFlags) (f : Flag) (on : Bool) : OptionFlags :=
  ⟨if on then o.bits ||| f.bit else o.bits.without f.bit⟩

end OptionFlags

/-- The section of one repository. -/
structure Repository where
  name : String
  sigLevel : SigLevel := .useDefault
  servers : List String := []
deriving DecidableEq, Repr

/-- A whole configuration. The default values are those of an empty file. -/
structure Config where
  cacheDir : List String := []
  holdPkg : List String := []
  syncFirst : List String := []
  ignoreGroup : List String := []
  ignorePkg : List String := []
  noExtract : List String := []
  noUpgrade : List String := []
  rootDir : String := "/"
  dbPath : String := "/var/lib/pacman"
  gpgDir : String := ""
  logFile : String := ""
  architecture : String := ""
  xferCommand : String := ""
  cleanMethod : String := ""
  sigLevel : SigLevel := .empty
  localFileSigLevel : SigLevel := .useDefault
  remoteFileSigLevel : SigLevel := .useDefault
  options : OptionFlags := ⟨0⟩
  repos : List Repository := []
deriving DecidableEq, Repr

namespace Config

/-- The configuration of an empty file. -/
def default : Config := {}

instance : Inhabited Config := ⟨default⟩

def repo? (c : Config) (name : String) : Option Repository := c.repos.find? (·.name == name)

/-! ## Reading and writing a setting by its field -/

def flag (c : Config) (f : Flag) : Bool := c.options.has f.bit

def setFlag (c : Config) (f : Flag) (on : Bool) : Config :=
  { c with options := c.options.set f on }

def scalar (c : Config) : ScalarField → String
  | .rootDir => c.rootDir
  | .dbPath => c.dbPath
  | .gpgDir => c.gpgDir
  | .logFile => c.logFile
  | .architecture => c.architecture
  | .xferCommand => c.xferCommand
  | .cleanMethod => c.cleanMethod

def setScalar (c : Config) (f : ScalarField) (v : String) : Config :=
  match f with
  | .rootDir => { c with rootDir := v }
  | .dbPath => { c with dbPath := v }
  | .gpgDir => { c with gpgDir := v }
  | .logFile => { c with logFile := v }
  | .architecture => { c with architecture := v }
  | .xferCommand => { c with xferCommand := v }
  | .cleanMethod => { c with cleanMethod := v }

def list (c : Config) : ListField → List String
  | .cacheDir => c.cacheDir
  | .holdPkg => c.holdPkg
  | .syncFirst => c.syncFirst
  | .ignoreGroup => c.ignoreGroup
  | .ignorePkg => c.ignorePkg
  | .noExtract => c.noExtract
  | .noUpgrade => c.noUpgrade

def setList (c : Config) (f : ListField) (v : List String) : Config :=
  match f with
  | .cacheDir => { c with cacheDir := v }
  | .holdPkg => { c with holdPkg := v }
  | .syncFirst => { c with syncFirst := v }
  | .ignoreGroup => { c with ignoreGroup := v }
  | .ignorePkg => { c with ignorePkg := v }
  | .noExtract => { c with noExtract := v }
  | .noUpgrade => { c with noUpgrade := v }

def level (c : Config) : LevelField → SigLevel
  | .sigLevel => c.sigLevel
  | .localFileSigLevel => c.localFileSigLevel
  | .remoteFileSigLevel => c.remoteFileSigLevel

def setLevel (c : Config) (f : LevelField) (v : SigLevel) : Config :=
  match f with
  | .sigLevel => { c with sigLevel := v }
  | .localFileSigLevel => { c with localFileSigLevel := v }
  | .remoteFileSigLevel => { c with remoteFileSigLevel := v }

@[simp] theorem scalar_setScalar (c : Config) (f g : ScalarField) (v : String) :
    (c.setScalar f v).scalar g = if g = f then v else c.scalar g := by
  cases f <;> cases g <;> rfl

@[simp] theorem list_setList (c : Config) (f g : ListField) (v : List String) :
    (c.setList f v).list g = if g = f then v else c.list g := by
  cases f <;> cases g <;> rfl

@[simp] theorem level_setLevel (c : Config) (f g : LevelField) (v : SigLevel) :
    (c.setLevel f v).level g = if g = f then v else c.level g := by
  cases f <;> cases g <;> rfl

end Config
end PackageConf
