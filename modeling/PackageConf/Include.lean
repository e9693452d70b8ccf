import PackageConf.Line
import PackageConf.Parse.Step
/-!
# The files a file includes

`includePaths` lists the paths that the `Include` lines of some bytes name, in order and whether
or not reading would get as far. Whoever has looked at these paths, at those that their files
name, and so on, has looked at every file that reading can ask for.
-/
namespace PackageConf

/-- The path that a run of bytes asks to be read next, if it does. -/
def includePath? (run : Bytes) : Option String :=
  match Line.token run 0 with
  | .ok (.key name (path :: _)) => if name = ParseState.includeName then some path else none
  | _ => none

/-- The paths named by the `Include` lines of some bytes. -/
def includePaths (bytes : Bytes) : List String := (Line.runs bytes).filterMap includePath?

end PackageConf
