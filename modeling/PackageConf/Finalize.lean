import PackageConf.Engine
import PackageConf.Server
/-!
# Putting a configuration to use

A configuration is put to use by starting an engine with it. The architecture `auto` is replaced
by that of the host, and then the repositories are registered in order. A repository that the
engine takes has its servers expanded, in the engine and in the configuration alike; one that it
refuses is passed over and stays as it is.
-/
namespace PackageConf

/-- Register repositories one after the other, as the loop of `create_handle` does. The result has
the repositories as they then are: expanded, if the engine took them. -/
def Engine.enroll (arch : String) : Engine → List Repository → Engine × List Repository
  | e, [] => (e, [])
  | e, r :: rs =>
    match e.register r.name r.sigLevel with
    | (.ok (), e) =>
      let servers := r.expandedServers arch
      let rest := enroll arch (e.setServers servers) rs
      (rest.1, { r with servers } :: rest.2)
    | (.error _, e) =>
      let rest := enroll arch e rs
      (rest.1, r :: rest.2)

namespace Config

def autoArchitecture : String := "auto"

/-- Replace the architecture `auto` by that of the host, which is asked for in this case only
(`resolve_architecture`). -/
def resolveArchitecture (c : Config) (host : Except FileError String) :
    Except ConfigError Unit × Config :=
  if c.architecture = autoArchitecture then
    match host with
    | .ok arch => (.ok (), { c with architecture := arch })
    | .error e => (.error (.architecture e), c)
  else (.ok (), c)

/-- Put a configuration to use (`create_handle`): the engine that it makes, or why it makes none, and
in either case the configuration as it then stands. An engine that does not start is reported before
an unknown architecture. -/
def activate (c : Config) (host : Except FileError String) : Except ConfigError Engine × Config :=
  match Engine.start c.rootDir c.dbPath with
  | .error e => (.error (.engine e), c)
  | .ok e =>
    match c.resolveArchitecture host with
    | (.error e, c) => (.error e, c)
    | (.ok (), c) =>
      let enrolled := e.enroll c.architecture c.repos
      (.ok enrolled.1, { c with repos := enrolled.2 })

/-- An architecture that is not known changes nothing. -/
theorem eq_of_resolveArchitecture_error {c c' : Config} {host : Except FileError String}
    {e : ConfigError} (h : c.resolveArchitecture host = (.error e, c')) : c' = c := by
  unfold resolveArchitecture at h
  split at h
  · split at h
    · cases h
    · exact (Prod.mk.inj h).2.symm
  · cases h

/-- A configuration of which no engine is made is as it was. -/
theorem eq_of_activate_error {c c' : Config} {host : Except FileError String} {e : ConfigError}
    (h : c.activate host = (.error e, c')) : c' = c := by
  unfold activate at h
  split at h
  · exact (Prod.mk.inj h).2.symm
  · split at h
    · next harch =>
      rw [← (Prod.mk.inj h).2]
      exact eq_of_resolveArchitecture_error harch
    · cases h

/-- The engine that a configuration makes, if it makes one, and the configuration as it then
stands. -/
def finalize (c : Config) (host : Except FileError String) :
    Except ConfigError (Engine × Config) :=
  match c.activate host with
  | (.ok e, c) => .ok (e, c)
  | (.error e, _) => .error e

end Config
end PackageConf
