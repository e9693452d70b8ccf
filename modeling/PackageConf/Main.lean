import PackageConf.CommandLine.Standard
import PackageConf.Include
/-!
# The program

Before a command that reads a configuration runs, the file and every file that it can include are
looked at. The command itself then runs on what was found. Nothing is logged.
-/
namespace PackageConf.Main

/-- The number that the host gives to a failure. It may come negated. -/
def hostCode : IO.Error → UInt32
  | .noFileOrDirectory _ code _ | .inappropriateType _ code _ | .invalidArgument _ code _
  | .resourceExhausted _ code _ | .otherError code _ => min code (0 - code)
  | _ => 0

/-- What a failure to read says about the path. -/
def failure (e : IO.Error) : Except FileError Source :=
  match hostCode e with
  | 2 => .error .notFound
  | 20 => .error .notADirectory
  | 21 => .ok .directory
  | 36 => .error .nameTooLong
  | _ => .error (.other (toString e))

/-- Is something found at a path, whether or not it can be read? -/
def isFound (path : String) : IO Bool := do
  if '\x00' ∈ path.toList then return false
  try
    let _ ← IO.FS.realPath path
    return true
  catch _ => return false

def look (path : String) : IO (Except FileError Source) := do
  if '\x00' ∈ path.toList then return .error .nulInName
  try return .ok (.bytes (← IO.FS.readBinFile path).toList)
  catch e => return failure e

/-- Look at paths and at all that can be included from there. -/
partial def survey (known : List (String × Except FileError Source)) :
    List String → IO (List (String × Except FileError Source))
  | [] => return known
  | path :: paths =>
    if known.any (·.1 == path) then survey known paths
    else do
      let found ← look path
      let further := match found with
        | .ok (.bytes content) => includePaths content
        | _ => []
      survey ((path, found) :: known) (further ++ paths)

def hostArchitecture : IO (Except FileError String) := do
  try
    let text ← IO.FS.readFile "/proc/sys/kernel/arch"
    return .ok (String.ofList (Text.trim text.toList))
  catch e => return .error (.other (toString e))

/-- The paths that a request starts from. -/
def startPaths : CommandLine.Request → List String
  | .run { command := .siglevel _, .. } => []
  | .run i => [i.configPath]
  | _ => []

end PackageConf.Main

open PackageConf in
def main (args : List String) : IO UInt32 := do
  let L := Libraries.standard
  let request := L.arguments (← IO.getEnv CommandLine.configVariable) args
  let paths := Main.startPaths request
  let fs := FileSystem.ofList (← Main.survey [] paths) (← paths.filterM Main.isFound)
  let outcome := CommandLine.answer L fs (← Main.hostArchitecture) request
  (← IO.getStdout).putStr outcome.output
  (← IO.getStderr).putStr outcome.errors
  return outcome.status.toUInt32
