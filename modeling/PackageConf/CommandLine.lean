import PackageConf.CommandLine.Request
import PackageConf.Config.Lines
import PackageConf.Finalize
import PackageConf.Text.Hex
/-!
# The command line

A run of the program is a function of its arguments, the environment, the file system and the
architecture of the host. It comes to an `Outcome`: what is printed, and whether all went well. What
is logged on the way is not part of it.

The arguments are read, masks, documents and reports are written by `Libraries`. Nothing is known of
them here; what a statement relies on is among its hypotheses.
-/
namespace PackageConf

/-- What is left to libraries. -/
structure Libraries where
  /-- Read the arguments and the variable of the environment. -/
  arguments : Option String → List String → CommandLine.Request
  /-- Write a mask. -/
  mask : Mask.Writer
  /-- Write a document as JSON. -/
  json : Document → String
  /-- Write a document as TOML. -/
  toml : Document → String
  /-- Report what failed, and the causes from the immediate one on. -/
  report : String → List String → String

def Config.format (L : Libraries) (c : Config) : CommandLine.Format → String
  | .json => L.json (c.document L.mask)
  | .toml => L.toml (c.document L.mask)
  | .conf => c.render

namespace CommandLine

/-- The outcome of a command that failed while doing what `context` says. -/
def Outcome.failure (L : Libraries) (context : String) (causes : List String) : Outcome :=
  { status := 1, errors := L.report context causes }

def Outcome.ofError (L : Libraries) (context : String) (e : ConfigError) : Outcome :=
  .failure L context (e.message :: e.causes)

/-- The variable of the environment that names the configuration. -/
def configVariable : String := "PACCONF_CONFIG"

/-- A configuration as it is printed (`render`): in a format, with one line feed at the end. -/
def dump (L : Libraries) (c : Config) (format : Format) : String :=
  String.ofList (Text.trimEnd (c.format L format).toList) ++ "\n"

def describeLevel (L : Libraries) (l : SigLevel) : String :=
  l.debug L.mask ++ "\nbits: 0x" ++ String.ofList (Text.hexPadded 8 l.bits.toNat) ++ "\n"

/-- Load the configuration of an invocation (`load`) and do something with it. -/
def withConfig (L : Libraries) (i : Invocation) (fs : FileSystem) (act : Config → Outcome) :
    Outcome :=
  match Loader.load { path := i.configPath, includeLimit := i.includeLimit } fs with
  | .ok c => act c
  | .error e => .ofError L ("Failed to load " ++ i.configPath) e

/-- Do what an invocation says. -/
def execute (L : Libraries) (fs : FileSystem) (host : Except FileError String) (i : Invocation) :
    Outcome :=
  match i.command with
  | .dump format => withConfig L i fs fun c => { output := dump L c format }
  | .repos json =>
    withConfig L i fs fun c =>
      match c.finalize host with
      | .error e => .ofError L "Failed to apply configuration" e
      | .ok (e, _) => { output := if json then L.json e.document ++ "\n" else e.summary }
  | .siglevel tokens =>
    match SigLevel.resolve .useDefault tokens with
    | .ok l => { output := describeLevel L l }
    | .error e => .failure L "Failed to resolve signature level" [e.message]

def answer (L : Libraries) (fs : FileSystem) (host : Except FileError String) : Request → Outcome
  | .run i => execute L fs host i
  | .reply o => o

def run (L : Libraries) (fs : FileSystem) (host : Except FileError String)
    (environment : Option String) (args : List String) : Outcome :=
  answer L fs host (L.arguments environment args)

end CommandLine
end PackageConf
