import PackageConf.SigLevel
/-!
# The tokens of a signature level

`toTokens` writes a level as tokens. Of each scope it says first whether signatures are checked
and may be missing, and then whether untrusted keys will do. Scopes that agree are written once,
without the name of a scope. The default level is written as no token at all.
-/
namespace PackageConf.SigLevel

/-- The directives for one scope (`scope_tokens`). A signature that may be missing but is not checked
takes two: the second undoes the checking that comes with the first. -/
def directives (l : SigLevel) (t : Target) : List Directive :=
  (match l.has t.required, l.has t.optional with
    | true, true => [.optional]
    | true, false => [.required]
    | false, true => [.optional, .never]
    | false, false => [.never]) ++
  [if l.has t.trust then .trustAll else .trustedOnly]

/-- The clauses that make the level, starting from the default one. -/
def clauses (l : SigLevel) : List Clause :=
  if l.has useDefault then []
  else if l.directives .package = l.directives .database then
    (l.directives .package).map (⟨.both, ·⟩)
  else
    (l.directives .package).map (⟨.package, ·⟩) ++ (l.directives .database).map (⟨.database, ·⟩)

def toTokens (l : SigLevel) : List String := l.clauses.map Clause.token

def text (l : SigLevel) : String := " ".intercalate l.toTokens

@[simp] theorem toTokens_useDefault : useDefault.toTokens = [] := by decide

theorem toTokens_eq_nil_iff {l : SigLevel} : l.toTokens = [] ↔ l.has useDefault = true := by
  unfold toTokens clauses
  split
  · simpa
  · next h =>
    have hne (t : Target) : l.directives t ≠ [] := by simp [directives]
    split <;> simp [h, hne]

end PackageConf.SigLevel
