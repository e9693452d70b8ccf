import PackageConf.Config
import PackageConf.Token
/-!
# A configuration in the making

A `Draft` is what the lines so far amount to: the settings, the repositories whose sections are
complete, and the repository whose section is open, if the lines are not about the options.
Headers open sections; the keys of a section are given to the options or to the open repository.
-/
namespace PackageConf

/-- A key among the options (`apply_option`): a flag is turned on, a scalar replaced, a list
continued and a signature level resolved anew. -/
def Config.assign (c : Config) (line : Nat) (name : String) (values : List String) :
    Except ConfigError Config :=
  match Setting.ofName? name with
  | none => .error (.unknownOption line name)
  | some (.flag f) => .ok (c.setFlag f true)
  | some (.scalar f) => .ok (c.setScalar f (" ".intercalate values))
  | some (.list f) => .ok (c.setList f (c.list f ++ values))
  | some (.level f) =>
    match SigLevel.resolve .useDefault values with
    | .ok l => .ok (c.setLevel f l)
    | .error e => .error (.invalidValue line e)

/-- A key of a repository (`apply_repo`). How the repository is used is not recorded. -/
def Repository.assign (r : Repository) (line : Nat) (name : String) (values : List String) :
    Except ConfigError Repository :=
  if name = "SigLevel" then
    match SigLevel.resolve .useDefault values with
    | .ok l => .ok { r with sigLevel := l }
    | .error e => .error (.repoSigLevel r.name e)
  else if name = "Server" then .ok { r with servers := r.servers ++ values }
  else if name = "Usage" then .ok r
  else .error (.outsideOptions line name)

/-- What has been read, and the repository whose section is open. -/
structure Draft where
  config : Config := .default
  current : Option Repository := none
deriving DecidableEq, Repr

namespace Draft

def optionsName : String := "options"

/-- The configuration if no line follows. -/
def finish (d : Draft) : Config :=
  match d.current with
  | none => d.config
  | some r => { d.config with repos := d.config.repos ++ [r] }

/-- A header ends the open section and begins its own. -/
def header (d : Draft) (name : String) : Draft :=
  if name = optionsName then { config := d.finish }
  else { config := d.finish, current := some { name } }

/-- A key in the section that is open. -/
def key (d : Draft) (line : Nat) (name : String) (values : List String) :
    Except ConfigError Draft :=
  match d.current with
  | none => (d.config.assign line name values).map fun c => { d with config := c }
  | some r => (r.assign line name values).map fun r => { d with current := some r }

@[simp] theorem finish_empty : ({} : Draft).finish = .default := rfl

end Draft
end PackageConf
