import PackageConf.Parse
/-!
# Loading the configuration of a system

Loading looks first whether anything is found at the path. If not, for whatever reason, the file
counts as missing, and if the caller wants it, a missing file stands for the defaults. What is found
is read, and reading has errors of its own.
-/
namespace PackageConf

/-- How a configuration is loaded. -/
structure Loader where
  path : String
  useDefaults : Bool := false
  includeLimit : Nat := defaultIncludeLimit
deriving DecidableEq, Repr

namespace Loader

/-- The path of the configuration of the whole system. -/
def systemPath : String := "/etc/pacman.conf"

def system : Loader := { path := systemPath }

/-- The configuration at the path of the loader. Whether the file is missing is asked first, as
`load` asks `exists`. -/
def load (l : Loader) (fs : FileSystem) : Except ConfigError Config :=
  if fs.has l.path then parseFile fs l.path l.includeLimit
  else if l.useDefaults then .ok .default
  else .error (.notFound l.path)

end Loader
end PackageConf
