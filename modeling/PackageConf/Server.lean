import PackageConf.Config
import PackageConf.Text.Replace
/-!
# Server addresses

The address of a server is a template: `$repo` stands for the name of the repository and `$arch`
for the architecture. The name is put in first, so a name may bring in `$arch`, but an
architecture brings in nothing.
-/
namespace PackageConf

/-- A server address with the name of the repository and the architecture put in
(`template_server`). -/
def expandServer (url repo arch : String) : String :=
  String.ofList
    (Text.replace '$' ['a', 'r', 'c', 'h'] arch.toList
      (Text.replace '$' ['r', 'e', 'p', 'o'] repo.toList url.toList))

def Repository.expandedServers (r : Repository) (arch : String) : List String :=
  r.servers.map fun url => expandServer url r.name arch

/-- An address without a dollar sign is not a template. -/
theorem expandServer_eq_self {url : String} (h : '$' ∉ url.toList) (repo arch : String) :
    expandServer url repo arch = url := by
  rw [expandServer, Text.replace_eq_self h, Text.replace_eq_self h, String.ofList_toList]

end PackageConf
