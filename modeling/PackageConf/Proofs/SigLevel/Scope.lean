import PackageConf.Proofs.SigLevel.Resolve
import PackageConf.SigLevel.Tokens
/-!
# Levels as two scopes

Of each scope a token can say three things: whether signatures are checked, whether they may be
missing, and whether untrusted keys will do. A `Scope` holds the three, `ofScopes` is the level
that two scopes make, and a clause acts on such a level scope by scope (`amend_ofScopes`). So what
tokens make of the default level is the default level or one made of two scopes, and these are
the `Canonical` levels (`canonical_iff`). They are exactly the levels that their own tokens give
back (`resolve_toTokens`).
-/
namespace PackageConf

/-- What tokens can say of one scope. -/
structure Scope where
  required : Bool := false
  optional : Bool := false
  trust : Bool := false
deriving DecidableEq, Repr

namespace Scope

/-- The effect of a directive on a scope that it is about. -/
def apply (s : Scope) : Directive → Scope
  | .never => { s with required := false }
  | .optional => { s with required := true, optional := true }
  | .required => { s with required := true, optional := false }
  | .trustedOnly => { s with trust := false }
  | .trustAll => { s with trust := true }

/-- The bits of a scope at the place of a target. -/
def level (s : Scope) (t : Target) : SigLevel :=
  ((if s.required then t.required else .empty).union
    (if s.optional then t.optional else .empty)).union (if s.trust then t.trust else .empty)

end Scope

namespace SigLevel

/-- The level made of the package scope and the database scope. -/
def ofScopes (p d : Scope) : SigLevel := (p.level .package).union (d.level .database)

/-- The default level alone, or a level of the eight bits of the two scopes in which keys of
marginal and of unknown trust are treated alike. -/
def Canonical (l : SigLevel) : Prop :=
  l = useDefault ∨
    ((∀ i, l.bits.getLsbD i = true → i ∈ [0, 1, 2, 3, 10, 11, 12, 13]) ∧
      l.bits.getLsbD 2 = l.bits.getLsbD 3 ∧ l.bits.getLsbD 12 = l.bits.getLsbD 13)

theorem getLsbD_ofScopes (p d : Scope) (i : Nat) :
    (ofScopes p d).bits.getLsbD i = match i with
      | 0 => p.required
      | 1 => p.optional
      | 2 | 3 => p.trust
      | 10 => d.required
      | 11 => d.optional
      | 12 | 13 => d.trust
      | _ => false := by
  have h : ∀ a b c a' b' c' : Bool, ∀ i < 32, (ofScopes ⟨a, b, c⟩ ⟨a', b', c'⟩).bits.getLsbD i =
      match i with
      | 0 => a
      | 1 => b
      | 2 | 3 => c
      | 10 => a'
      | 11 => b'
      | 12 | 13 => c'
      | _ => false := by decide +kernel
  by_cases hi : i < 32
  · exact h _ _ _ _ _ _ i hi
  · rw [BitVec.getLsbD_of_ge _ _ (Nat.le_of_not_lt hi)]
    split <;> first | omega | rfl

theorem amend_ofScopes (p d : Scope) (c : Clause) :
    (ofScopes p d).amend c = match c.target with
      | .package => ofScopes (p.apply c.directive) d
      | .database => ofScopes p (d.apply c.directive)
      | .both => ofScopes (p.apply c.directive) (d.apply c.directive) := by
  obtain ⟨t, dir⟩ := c
  obtain ⟨a, b, c⟩ := p
  obtain ⟨a', b', c'⟩ := d
  cases t <;> cases dir <;> revert a b c a' b' c' <;> decide +kernel

/-- The canonical levels are the default one and those made of scopes. -/
theorem canonical_iff {l : SigLevel} :
    l.Canonical ↔ l = useDefault ∨ ∃ p d, l = ofScopes p d := by
  refine or_congr_right ?_
  constructor
  · rintro ⟨hbits, hpackage, hdatabase⟩
    refine ⟨⟨l.bits.getLsbD 0, l.bits.getLsbD 1, l.bits.getLsbD 2⟩,
      ⟨l.bits.getLsbD 10, l.bits.getLsbD 11, l.bits.getLsbD 12⟩, ?_⟩
    have hext : l.bits = (ofScopes ⟨l.bits.getLsbD 0, l.bits.getLsbD 1, l.bits.getLsbD 2⟩
        ⟨l.bits.getLsbD 10, l.bits.getLsbD 11, l.bits.getLsbD 12⟩).bits := by
      refine BitVec.eq_of_getLsbD_eq fun i _ => ?_
      rw [getLsbD_ofScopes]
      split
      · rfl
      · rfl
      · rfl
      · exact hpackage.symm
      · rfl
      · rfl
      · rfl
      · exact hdatabase.symm
      · next h0 h1 h2 h3 h10 h11 h12 h13 =>
        have hnot : i ∉ [0, 1, 2, 3, 10, 11, 12, 13] := by
          simpa using ⟨h0, h1, h2, h3, h10, h11, h12, h13⟩
        exact Bool.eq_false_iff.2 (mt (hbits i) hnot)
    cases l
    exact congrArg SigLevel.mk hext
  · rintro ⟨p, d, rfl⟩
    refine ⟨fun i hi => ?_, ?_, ?_⟩
    · rw [getLsbD_ofScopes] at hi
      split at hi <;> simp_all
    · rw [getLsbD_ofScopes, getLsbD_ofScopes]
      rfl
    · rw [getLsbD_ofScopes, getLsbD_ofScopes]
      rfl

/-! ## What tokens make of the default level -/

theorem amend_useDefault (c : Clause) : useDefault.amend c = (ofScopes {} {}).amend c := by
  have h : useDefault.without useDefault = (ofScopes {} {}).without useDefault := by decide
  rw [amend, amend, h]

theorem exists_scopes_foldl (clauses : List Clause) (p d : Scope) :
    ∃ p' d', clauses.foldl amend (ofScopes p d) = ofScopes p' d' := by
  induction clauses generalizing p d with
  | nil => exact ⟨p, d, rfl⟩
  | cons c clauses ih =>
    rw [List.foldl_cons, amend_ofScopes]
    split
    · exact ih _ _
    · exact ih _ _
    · exact ih _ _

theorem canonical_of_resolve {tokens : List String} {l : SigLevel}
    (h : resolve .useDefault tokens = .ok l) : l.Canonical := by
  obtain ⟨clauses, -, rfl⟩ := resolve_eq_ok_iff.1 h
  rw [canonical_iff]
  cases clauses with
  | nil => exact .inl rfl
  | cons c clauses =>
    right
    rw [List.foldl_cons, amend_useDefault]
    exact exists_scopes_foldl (c :: clauses) {} {}

/-! ## Writing a level and resolving it again -/

/-- The clauses that are written for a level of two scopes make that level. -/
theorem foldl_clauses (p d : Scope) :
    (ofScopes p d).clauses.foldl amend useDefault = ofScopes p d := by
  obtain ⟨a, b, c⟩ := p
  obtain ⟨a', b', c'⟩ := d
  revert a b c a' b' c'
  decide +kernel

/-- **A canonical level is what its tokens resolve to.** -/
theorem resolve_toTokens {l : SigLevel} (h : l.Canonical) :
    resolve .useDefault l.toTokens = .ok l := by
  rcases canonical_iff.1 h with rfl | ⟨p, d, rfl⟩
  · rw [toTokens_useDefault]
    rfl
  · exact resolve_eq_ok_iff.2 ⟨_, rfl, foldl_clauses p d⟩

end SigLevel
end PackageConf
