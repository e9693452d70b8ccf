import PackageConf.Document
import PackageConf.Error
import PackageConf.SigLevel.Tokens
/-!
# Package engines

An `Engine` keeps a record of the repositories that were registered with it. It needs a root
directory to start, and it refuses repositories without a name and names it has already. What it
holds can be told in a summary to be read, or as a document.
-/
namespace PackageConf

/-- An engine and the repositories registered with it. -/
structure Engine where
  root : String
  dbPath : String
  sources : List Repository := []
deriving DecidableEq, Repr

namespace Engine

def start (root dbPath : String) : Except EngineError Engine :=
  if root = "" then .error .emptyRoot else .ok { root, dbPath }

def has (e : Engine) (name : String) : Bool := e.sources.any (·.name == name)

/-- Register a repository, without servers, after those there are (`register_sync_source`). -/
def register (e : Engine) (name : String) (level : SigLevel) : Except EngineError Unit × Engine :=
  if name = "" then (.error .emptyName, e)
  else if e.has name then (.error (.duplicate name), e)
  else (.ok (), { e with sources := e.sources ++ [{ name, sigLevel := level }] })

/-- Give servers to the repository that was registered last. -/
def setServers (e : Engine) (servers : List String) : Engine :=
  { e with
    sources := e.sources.dropLast ++ (e.sources.getLast?.map ({ · with servers })).toList }

def sourceLines (r : Repository) : List String :=
  let level := if r.sigLevel.toTokens = [] then "(default)" else r.sigLevel.text
  "" :: ("[" ++ r.name ++ "]") :: ("  SigLevel: " ++ level) :: r.servers.map ("  Server: " ++ ·)

def summaryLines (e : Engine) : List String :=
  ("Root: " ++ e.root) :: ("Database: " ++ e.dbPath) :: e.sources.flatMap sourceLines

/-- The engine described to a reader. -/
def summary (e : Engine) : String := Text.unlines e.summaryLines

/-- A registered repository as a table, names in alphabetical order. -/
def sourceTable (r : Repository) : Table :=
  [("name", .text r.name), ("servers", .texts r.servers), ("sig_level", .texts r.sigLevel.toTokens)]

/-- The engine as a document, names in alphabetical order (`to_json`). -/
def document (e : Engine) : Document :=
  [("db_path", .leaf (.text e.dbPath)), ("repos", .tables (e.sources.map sourceTable)),
   ("root", .leaf (.text e.root))]

theorem register_of_new {e : Engine} {name : String} (hne : name ≠ "") (hnew : e.has name = false)
    (level : SigLevel) :
    e.register name level =
      (.ok (), { e with sources := e.sources ++ [{ name, sigLevel := level }] }) := by
  simp [register, hne, hnew]

/-- A repository that is refused leaves the engine as it was. -/
theorem eq_of_register_error {e e' : Engine} {name : String} {level : SigLevel}
    {refusal : EngineError} (h : e.register name level = (.error refusal, e')) : e' = e := by
  unfold register at h
  split at h
  · exact (Prod.mk.inj h).2.symm
  · split at h
    · exact (Prod.mk.inj h).2.symm
    · cases h

@[simp] theorem setServers_concat (root dbPath : String) (rs : List Repository) (r : Repository)
    (servers : List String) :
    setServers { root, dbPath, sources := rs ++ [r] } servers =
      { root, dbPath, sources := rs ++ [{ r with servers }] } := by
  simp [setServers]

end Engine
end PackageConf
