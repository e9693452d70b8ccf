import PackageConf.Parse.Bound
/-!
# Reading a configuration

`parse` reads the bytes of a configuration and of all files they include, step by step until
nothing is left or something is wrong. It ends for every limit and every file system, also where
files include each other.
-/
namespace PackageConf

/-- How many includes may be open at once unless another limit is asked for. -/
def defaultIncludeLimit : Nat := 32

namespace ParseState

/-- All remaining steps: the loop of `parse_from`. -/
def run (fs : FileSystem) (limit : Nat) (s : ParseState) : Except ConfigError Config :=
  match _h : s.step fs limit with
  | .running s' => run fs limit s'
  | .done c => .ok c
  | .failed e => .error e
termination_by s.stack.weight fs limit
decreasing_by exact weight_step_lt _h

def start (r : Reader) : ParseState := { stack := { active := r } }

end ParseState

/-- The configuration that some bytes hold. -/
def parse (fs : FileSystem) (bytes : Bytes) (limit : Nat := defaultIncludeLimit) :
    Except ConfigError Config :=
  (ParseState.start (.ofBytes "main" bytes)).run fs limit

/-- The configuration in the file of a path (`parse_file`). Only a file that is missing is reported
as such; any other failure to open it is reported as a failure to read. -/
def parseFile (fs : FileSystem) (path : String) (limit : Nat := defaultIncludeLimit) :
    Except ConfigError Config :=
  match Reader.ofPath fs path with
  | .ok r => (ParseState.start r).run fs limit
  | .error .notFound => .error (.notFound path)
  | .error e => .error (.io e)

end PackageConf
