import PackageConf.Config
import PackageConf.SigLevel.Tokens
/-!
# Configurations as files

A configuration is written in the form in which it is read: a line for every scalar and every
signature level, a line for every list that is not empty and every flag that is on, and then the
sections of the repositories, each after an empty line. The values of a list share one line, but
every server has its own.
-/
namespace PackageConf

def assignment (name value : String) : String := name ++ " = " ++ value

namespace Repository

/-- The lines of a section. A default signature level is not mentioned. -/
def lines (r : Repository) : List String :=
  ("[" ++ r.name ++ "]") ::
    (if r.sigLevel = .useDefault then [] else [assignment "SigLevel" r.sigLevel.text]) ++
    r.servers.map (assignment "Server")

def render (r : Repository) : String := Text.unlines r.lines

end Repository

namespace Config

/-- The lines of a file that holds the configuration (`to_conf_string`). -/
def lines (c : Config) : List String :=
  "[options]" ::
    ScalarField.all.map (fun f => assignment f.name (c.scalar f)) ++
    (ListField.all.filter (fun f => c.list f ≠ [])).map
      (fun f => assignment f.name (" ".intercalate (c.list f))) ++
    (Flag.all.filter c.flag).map Flag.name ++
    LevelField.all.map (fun f => assignment f.name (c.level f).text) ++
    c.repos.flatMap fun r => "" :: r.lines

def render (c : Config) : String := Text.unlines c.lines

end Config
end PackageConf
