import PackageConf.Mask
/-!
# The settings of the options section

Every name that may stand in the options section belongs to one of four kinds of setting: a flag,
a scalar whose last value counts, a list that grows, or a signature level. `Setting.ofName?` finds
the setting of a name and is inverse to `Setting.name`.
-/
namespace PackageConf

/-- Settings that are on or off. -/
inductive Flag where
  | useSyslog
  | color
  | showSize
  | useDelta
  | totalDownload
  | checkSpace
  | verbosePkgLists
  | iLoveCandy
deriving DecidableEq, Repr

/-- Settings with one value, of which the last one given counts. -/
inductive ScalarField where
  | rootDir
  | dbPath
  | gpgDir
  | logFile
  | architecture
  | xferCommand
  | cleanMethod
deriving DecidableEq, Repr

/-- Settings that collect all values given. -/
inductive ListField where
  | cacheDir
  | holdPkg
  | syncFirst
  | ignoreGroup
  | ignorePkg
  | noExtract
  | noUpgrade
deriving DecidableEq, Repr

/-- Settings that hold a signature level. -/
inductive LevelField where
  | sigLevel
  | localFileSigLevel
  | remoteFileSigLevel
deriving DecidableEq, Repr

inductive Setting where
  | flag (f : Flag)
  | scalar (f : ScalarField)
  | list (f : ListField)
  | level (f : LevelField)
deriving DecidableEq, Repr

namespace Flag

/-- Every flag, in the order in which they are written. -/
def all : List Flag :=
  [.useSyslog, .color, .showSize, .useDelta, .totalDownload, .checkSpace, .verbosePkgLists,
   .iLoveCandy]

def name : Flag → String
  | .useSyslog => "UseSyslog"
  | .color => "Color"
  | .showSize => "ShowSize"
  | .useDelta => "UseDelta"
  | .totalDownload => "TotalDownload"
  | .checkSpace => "CheckSpace"
  | .verbosePkgLists => "VerbosePkgLists"
  | .iLoveCandy => "ILoveCandy"

/-- The name of a flag in a mask. -/
def bitName : Flag → String
  | .useSyslog => "USE_SYSLOG"
  | .color => "COLOR"
  | .showSize => "SHOW_SIZE"
  | .useDelta => "USE_DELTA"
  | .totalDownload => "TOTAL_DOWNLOAD"
  | .checkSpace => "CHECK_SPACE"
  | .verbosePkgLists => "VERBOSE_PKG_LISTS"
  | .iLoveCandy => "I_LOVE_CANDY"

def index : Flag → Nat
  | .useSyslog => 0
  | .color => 1
  | .showSize => 2
  | .useDelta => 3
  | .totalDownload => 4
  | .checkSpace => 5
  | .verbosePkgLists => 6
  | .iLoveCandy => 7

def bit (f : Flag) : Mask := 1#32 <<< f.index

end Flag

namespace ScalarField

/-- Every scalar, in the order in which they are written. -/
def all : List ScalarField :=
  [.rootDir, .dbPath, .gpgDir, .logFile, .architecture, .xferCommand, .cleanMethod]

def name : ScalarField → String
  | .rootDir => "RootDir"
  | .dbPath => "DBPath"
  | .gpgDir => "GPGDir"
  | .logFile => "LogFile"
  | .architecture => "Architecture"
  | .xferCommand => "XferCommand"
  | .cleanMethod => "CleanMethod"

end ScalarField

namespace ListField

/-- Every list, in the order in which they are written. -/
def all : List ListField :=
  [.cacheDir, .holdPkg, .syncFirst, .ignoreGroup, .ignorePkg, .noExtract, .noUpgrade]

def name : ListField → String
  | .cacheDir => "CacheDir"
  | .holdPkg => "HoldPkg"
  | .syncFirst => "SyncFirst"
  | .ignoreGroup => "IgnoreGroup"
  | .ignorePkg => "IgnorePkg"
  | .noExtract => "NoExtract"
  | .noUpgrade => "NoUpgrade"

end ListField

namespace LevelField

/-- Every signature level, in the order in which they are written. -/
def all : List LevelField := [.sigLevel, .localFileSigLevel, .remoteFileSigLevel]

def name : LevelField → String
  | .sigLevel => "SigLevel"
  | .localFileSigLevel => "LocalFileSigLevel"
  | .remoteFileSigLevel => "RemoteFileSigLevel"

end LevelField

namespace Setting

/-- Every setting. -/
def all : List Setting :=
  Flag.all.map .flag ++ ScalarField.all.map .scalar ++ ListField.all.map .list ++
    LevelField.all.map .level

def name : Setting → String
  | .flag f => f.name
  | .scalar f => f.name
  | .list f => f.name
  | .level f => f.name

/-- The setting of a name (`lookup`). Case counts. -/
def ofName? (s : String) : Option Setting := all.find? fun x => x.name == s

@[simp] theorem ofName?_name (x : Setting) : ofName? x.name = some x := by
  rcases x with f | f | f | f <;> cases f <;> rfl

theorem ofName?_eq_some_iff {s : String} {x : Setting} : ofName? s = some x ↔ s = x.name := by
  constructor
  · intro h
    have := List.find?_some (p := fun x : Setting => x.name == s) h
    exact (beq_iff_eq.1 this).symm
  · rintro rfl
    exact ofName?_name x

end Setting
end PackageConf
