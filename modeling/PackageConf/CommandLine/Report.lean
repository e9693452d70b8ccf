import PackageConf.Text.Split
/-!
# Error reports

What a command prints when it fails: what it was about to do, and below it the causes, the
immediate one first. Several causes are numbered. Further lines of a cause are indented as far as
its first one.
-/
namespace PackageConf.Report

/-- The lines of a text, each after the first behind `margin`. -/
def indented (margin s : String) : String :=
  ("\n" ++ margin).intercalate ((Text.pieces '\n' s.toList).map String.ofList)

/-- A number, five characters wide. -/
def index (n : Nat) : String :=
  String.ofList (List.replicate (5 - n.repr.length) ' ') ++ n.repr

def causeLines : List String → List String
  | [cause] => ["    " ++ indented "    " cause]
  | causes => causes.zipIdx.map fun c => index c.2 ++ ": " ++ indented "       " c.1

def render (context : String) (causes : List String) : String :=
  "Error: " ++ context ++ "\n\nCaused by:\n" ++ Text.unlines (causeLines causes)

end PackageConf.Report
