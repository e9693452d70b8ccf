import PackageConf.CommandLine
import PackageConf.CommandLine.Arguments
import PackageConf.CommandLine.Report
import PackageConf.Document.Json
import PackageConf.Document.Toml
/-!
# The libraries that the program runs with

One choice for everything that the program leaves to libraries.
-/
namespace PackageConf

/-- The reader of arguments and the writers of this project. -/
def Libraries.standard : Libraries where
  arguments := CommandLine.Request.ofArguments
  mask := Mask.describe fun m => Text.hex m.toNat
  json := Json.document Json.string
  toml := Toml.document .standard
  report := Report.render

end PackageConf
