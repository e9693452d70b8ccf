import PackageConf.Proofs.SigLevel.Scope
/-!
# The canonical part of a level

A level is any word of 32 bits, but tokens can only make the canonical ones. `canon` is the part of
a level that tokens can tell: the default level if that is in it, and else what it says of the two
scopes, where a scope trusts all keys only if it has both bits for that. A level is written with
the same tokens as its canonical part (`toTokens_canon`), and it is its own canonical part exactly
if tokens can make it (`canon_eq_self_iff`).
-/
namespace PackageConf

/-- A word has the bits of a mask if it has a bit in each place where the mask has one. -/
theorem Mask.has_eq_all (m f : Mask) (places : List Nat)
    (h : (∀ i ∈ places, i < 32) ∧ ∀ i < 32, (f.getLsbD i = true ↔ i ∈ places)) :
    m.has f = places.all (m.getLsbD ·) := by
  have hplaces (i : Nat) : f.getLsbD i = true ↔ i ∈ places := by
    by_cases hi : i < 32
    · exact h.2 i hi
    · rw [BitVec.getLsbD_of_ge _ _ (Nat.le_of_not_lt hi)]
      exact iff_of_false nofun (mt (h.1 i) hi)
  rw [Bool.eq_iff_iff, has_iff, List.all_eq_true]
  exact forall_congr' fun i => imp_congr_left (hplaces i)

namespace SigLevel

/-- What a level says of a scope. -/
def scope (l : SigLevel) (t : Target) : Scope where
  required := l.has t.required
  optional := l.has t.optional
  trust := l.has t.trust

/-- The part of a level that tokens can tell. -/
def canon (l : SigLevel) : SigLevel :=
  if l.has useDefault then useDefault else ofScopes (l.scope .package) (l.scope .database)

theorem getLsbD_useDefault (i : Nat) : useDefault.bits.getLsbD i = decide (i = 30) := by
  rw [useDefault, ← BitVec.twoPow_eq, BitVec.getLsbD_twoPow]
  simp [eq_comm]

section
variable (l : SigLevel)

theorem has_useDefault : l.has useDefault = l.bits.getLsbD 30 := by
  rw [has, Mask.has_eq_all l.bits _ [30] (by decide)]
  exact Bool.and_true _

theorem scope_package : l.scope .package =
    ⟨l.bits.getLsbD 0, l.bits.getLsbD 1, l.bits.getLsbD 2 && l.bits.getLsbD 3⟩ := by
  have hrequired := Mask.has_eq_all l.bits (Target.required .package).bits [0] (by decide)
  have hoptional := Mask.has_eq_all l.bits (Target.optional .package).bits [1] (by decide)
  have htrust := Mask.has_eq_all l.bits (Target.trust .package).bits [2, 3] (by decide)
  simp [scope, has, hrequired, hoptional, htrust]

theorem scope_database : l.scope .database =
    ⟨l.bits.getLsbD 10, l.bits.getLsbD 11, l.bits.getLsbD 12 && l.bits.getLsbD 13⟩ := by
  have hrequired := Mask.has_eq_all l.bits (Target.required .database).bits [10] (by decide)
  have hoptional := Mask.has_eq_all l.bits (Target.optional .database).bits [11] (by decide)
  have htrust := Mask.has_eq_all l.bits (Target.trust .database).bits [12, 13] (by decide)
  simp [scope, has, hrequired, hoptional, htrust]

theorem canonical_canon : l.canon.Canonical := by
  rw [canonical_iff, canon]
  split
  · exact .inl rfl
  · exact .inr ⟨_, _, rfl⟩

/-- The bits of the canonical part: a bit that says something of a scope is kept, of the two bits
for trust each is kept if the other is there, and there is no other one. -/
theorem getLsbD_canon (i : Nat) : l.canon.bits.getLsbD i =
    if l.bits.getLsbD 30 then decide (i = 30) else match i with
      | 0 | 1 | 10 | 11 => l.bits.getLsbD i
      | 2 | 3 => l.bits.getLsbD 2 && l.bits.getLsbD 3
      | 12 | 13 => l.bits.getLsbD 12 && l.bits.getLsbD 13
      | _ => false := by
  rw [canon, has_useDefault, scope_package, scope_database]
  split
  · exact getLsbD_useDefault i
  · rw [getLsbD_ofScopes]
    split <;> simp_all

theorem has_canon : l.has l.canon = true := by
  refine Mask.has_iff.2 fun i hi => ?_
  rw [getLsbD_canon] at hi
  split at hi
  · next hdefault => rwa [of_decide_eq_true hi]
  · split at hi <;> simp_all

end

/-! ## Levels that are their own canonical part -/

section
variable (p d : Scope)

theorem scope_package_ofScopes : (ofScopes p d).scope .package = p := by
  simp only [scope_package, getLsbD_ofScopes, Bool.and_self]

theorem scope_database_ofScopes : (ofScopes p d).scope .database = d := by
  simp only [scope_database, getLsbD_ofScopes, Bool.and_self]

theorem has_useDefault_ofScopes : (ofScopes p d).has useDefault = false := by
  rw [has_useDefault, getLsbD_ofScopes]
  rfl

theorem canon_ofScopes : (ofScopes p d).canon = ofScopes p d := by
  rw [canon, has_useDefault_ofScopes, scope_package_ofScopes, scope_database_ofScopes]
  rfl

end

theorem canon_eq_self_iff {l : SigLevel} : l.canon = l ↔ l.Canonical := by
  constructor
  · intro h
    rw [← h]
    exact canonical_canon l
  · intro h
    rcases canonical_iff.1 h with rfl | ⟨p, d, rfl⟩
    · decide
    · exact canon_ofScopes p d

/-- The canonical levels are those that tokens make of the default one. -/
theorem exists_resolve_iff {l : SigLevel} :
    (∃ tokens, resolve .useDefault tokens = .ok l) ↔ l.Canonical := by
  constructor
  · rintro ⟨tokens, h⟩
    exact canonical_of_resolve h
  · intro h
    exact ⟨l.toTokens, resolve_toTokens h⟩

/-! ## The tokens of the canonical part -/

theorem directives_congr {l l' : SigLevel} {t : Target} (h : l.scope t = l'.scope t) :
    l.directives t = l'.directives t := by
  obtain ⟨hrequired, hoptional, htrust⟩ := Scope.mk.inj h
  rw [directives, directives, hrequired, hoptional, htrust]

theorem toTokens_canon (l : SigLevel) : l.canon.toTokens = l.toTokens := by
  by_cases hdefault : l.has useDefault = true
  · rw [canon, if_pos hdefault, toTokens_useDefault, toTokens_eq_nil_iff.2 hdefault]
  · have hcanon : l.canon = ofScopes (l.scope .package) (l.scope .database) := if_neg hdefault
    have hpackage := directives_congr
      (scope_package_ofScopes (l.scope .package) (l.scope .database))
    have hdatabase := directives_congr
      (scope_database_ofScopes (l.scope .package) (l.scope .database))
    rw [hcanon, toTokens, toTokens, clauses, clauses, hpackage, hdatabase, if_neg hdefault,
      has_useDefault_ofScopes]
    rfl

/-- **A level resolved again** from its tokens is the canonical part of it: of the scopes it has the
bits that the level has, but those for trust only if both are there, and no other bit; the default
level stays by itself. The canonical part is the level if and only if the level can be resolved
from tokens at all, and it never has a bit more. -/
theorem resolve_toTokens_eq_canon (l : SigLevel) :
    resolve .useDefault l.toTokens = .ok l.canon ∧
    (∀ i, l.canon.bits.getLsbD i =
      if l.bits.getLsbD 30 then decide (i = 30) else match i with
        | 0 | 1 | 10 | 11 => l.bits.getLsbD i
        | 2 | 3 => l.bits.getLsbD 2 && l.bits.getLsbD 3
        | 12 | 13 => l.bits.getLsbD 12 && l.bits.getLsbD 13
        | _ => false) ∧
    (l.canon = l ↔ ∃ tokens, resolve .useDefault tokens = .ok l) ∧
    l.has l.canon = true := by
  refine ⟨?_, getLsbD_canon l, ?_, has_canon l⟩
  · rw [← toTokens_canon]
    exact resolve_toTokens (canonical_canon l)
  · rw [canon_eq_self_iff, exists_resolve_iff]

/-- One bit of trust for packages is not enough, and a bit without a name is dropped. -/
example : (⟨0x8000_0405⟩ : SigLevel).canon = ⟨0x401⟩ := by decide

end SigLevel
end PackageConf
