import PackageConf.SigLevel
/-!
# Resolving a list of tokens

The tokens of clauses are all that `resolve` accepts, and a token is that of one clause only. So a
list of tokens resolves to a level exactly if it is a list of clauses, and otherwise the error is
the first token that is none.
-/
namespace PackageConf

namespace Text

theorem remainder?_eq_some_iff {start s rest : List Char} :
    remainder? start s = some rest ↔ s = start ++ rest := by
  unfold remainder?
  constructor
  · intro h
    split at h
    · next hp =>
      obtain ⟨t, rfl⟩ := List.isPrefixOf_iff_prefix.1 hp
      rw [List.drop_left, Option.some.injEq] at h
      rw [h]
    · cases h
  · rintro rfl
    rw [if_pos (List.isPrefixOf_iff_prefix.2 (List.prefix_append start rest)), List.drop_left]

end Text

/-- What is left of a token that was split is put back behind the label. -/
theorem Target.label_append_split (token : String) :
    (Target.split token).1.label ++ (Target.split token).2 = token := by
  unfold Target.split
  split
  · next rest h =>
    rw [← String.toList_inj, String.toList_append, String.toList_ofList]
    exact (Text.remainder?_eq_some_iff.1 h).symm
  · split
    · next rest h =>
      rw [← String.toList_inj, String.toList_append, String.toList_ofList]
      exact (Text.remainder?_eq_some_iff.1 h).symm
    · exact String.empty_append

namespace Clause

theorem ofToken_token (c : Clause) : ofToken c.token = .ok c := by
  rcases c with ⟨t, d⟩
  cases t <;> cases d <;> rfl

/-- A token is read as a clause if it is the token of that clause. -/
theorem ofToken_eq_ok_iff {token : String} {c : Clause} :
    ofToken token = .ok c ↔ token = c.token := by
  constructor
  · intro h
    unfold ofToken at h
    split at h
    · next d hd =>
      obtain rfl := Except.ok.inj h
      rw [Clause.token, ← Directive.ofName?_eq_some_iff.1 hd, Target.label_append_split]
    · cases h
  · rintro rfl
    exact ofToken_token c

theorem token_injective : Function.Injective token := by
  intro c c' h
  have hc := ofToken_token c
  rw [h, ofToken_token] at hc
  exact (Except.ok.inj hc).symm

theorem ofToken_eq_error_iff {token : String} {e : InvalidSigLevel} :
    ofToken token = .error e ↔ (∀ c : Clause, token ≠ c.token) ∧ e = ⟨token⟩ := by
  constructor
  · intro h
    refine ⟨fun c hc => ?_, ?_⟩
    · rw [ofToken_eq_ok_iff.2 hc] at h
      cases h
    · unfold ofToken at h
      split at h
      · cases h
      · exact (Except.error.inj h).symm
  · rintro ⟨hnone, rfl⟩
    cases h : ofToken token with
    | ok c => exact absurd (ofToken_eq_ok_iff.1 h) (hnone c)
    | error e =>
      unfold ofToken at h
      split at h
      · cases h
      · exact h.symm

end Clause

namespace SigLevel

theorem resolve_cons (base : SigLevel) (token : String) (tokens : List String) :
    resolve base (token :: tokens) =
      match Clause.ofToken token with
      | .ok c => resolve (base.amend c) tokens
      | .error e => .error e := by
  unfold resolve
  rw [List.mapM_cons]
  cases Clause.ofToken token with
  | error e => rfl
  | ok c => cases tokens.mapM Clause.ofToken <;> rfl

/-- **What resolves** is a list of clauses, and they act one after the other. -/
theorem resolve_eq_ok_iff {base l : SigLevel} {tokens : List String} :
    resolve base tokens = .ok l ↔
      ∃ clauses : List Clause,
        tokens = clauses.map Clause.token ∧ clauses.foldl amend base = l := by
  induction tokens generalizing base with
  | nil =>
    rw [resolve_nil, Except.ok.injEq]
    constructor
    · intro h
      exact ⟨[], rfl, h⟩
    · rintro ⟨clauses, hc, h⟩
      rw [List.map_eq_nil_iff.1 hc.symm] at h
      exact h
  | cons token tokens ih =>
    rw [resolve_cons]
    cases hc : Clause.ofToken token with
    | ok c =>
      obtain rfl := Clause.ofToken_eq_ok_iff.1 hc
      simp only [ih]
      constructor
      · rintro ⟨clauses, rfl, h⟩
        exact ⟨c :: clauses, rfl, h⟩
      · rintro ⟨clauses, hmap, h⟩
        obtain ⟨c', clauses, rfl, hc', rfl⟩ := List.map_eq_cons_iff.1 hmap.symm
        rw [Clause.token_injective hc'] at h
        exact ⟨clauses, rfl, h⟩
    | error e =>
      obtain ⟨hnone, -⟩ := Clause.ofToken_eq_error_iff.1 hc
      constructor
      · intro h
        cases h
      · rintro ⟨clauses, hmap, -⟩
        obtain ⟨c, clauses, rfl, hc, -⟩ := List.map_eq_cons_iff.1 hmap.symm
        exact absurd hc.symm (hnone c)

/-- `bad` is the first of the tokens that is not the token of a clause. -/
def FirstInvalid (tokens : List String) (bad : String) : Prop :=
  ∃ good rest, tokens = good ++ bad :: rest ∧ (∀ t ∈ good, ∃ c : Clause, t = c.token) ∧
    ∀ c : Clause, bad ≠ c.token

/-- **What does not resolve** has a token that is no clause; the error names the first one. -/
theorem resolve_eq_error_iff {base : SigLevel} {tokens : List String} {e : InvalidSigLevel} :
    resolve base tokens = .error e ↔ FirstInvalid tokens e.token := by
  induction tokens generalizing base with
  | nil => simp [FirstInvalid]
  | cons token tokens ih =>
    rw [resolve_cons]
    cases hc : Clause.ofToken token with
    | ok c =>
      have htok := Clause.ofToken_eq_ok_iff.1 hc
      simp only [ih]
      constructor
      · rintro ⟨good, rest, rfl, hgood, hbad⟩
        exact ⟨token :: good, rest, rfl, List.forall_mem_cons.2 ⟨⟨c, htok⟩, hgood⟩, hbad⟩
      · rintro ⟨good, rest, hsplit, hgood, hbad⟩
        cases good with
        | nil => exact absurd ((List.cons.inj hsplit).1.symm.trans htok) (hbad c)
        | cons g good =>
          exact ⟨good, rest, (List.cons.inj hsplit).2, (List.forall_mem_cons.1 hgood).2, hbad⟩
    | error e' =>
      obtain ⟨hnone, rfl⟩ := Clause.ofToken_eq_error_iff.1 hc
      simp only [Except.error.injEq]
      constructor
      · rintro rfl
        exact ⟨[], tokens, rfl, by simp, hnone⟩
      · rintro ⟨good, rest, hsplit, hgood, -⟩
        cases good with
        | nil => rw [(List.cons.inj hsplit).1]
        | cons g good =>
          obtain ⟨c, hc⟩ := hgood g List.mem_cons_self
          exact absurd ((List.cons.inj hsplit).1.trans hc) (hnone c)

/-- Tokens resolve, or there is one first token that is no clause. -/
theorem resolve_cases (base : SigLevel) (tokens : List String) :
    (∃ l, resolve base tokens = .ok l ∧ ∀ b, ¬ FirstInvalid tokens b) ∨
      ∃ bad, resolve base tokens = .error ⟨bad⟩ ∧ ∀ b, FirstInvalid tokens b ↔ b = bad := by
  have hiff (b : String) : resolve base tokens = .error ⟨b⟩ ↔ FirstInvalid tokens b :=
    resolve_eq_error_iff
  cases hr : resolve base tokens with
  | ok l =>
    refine .inl ⟨l, rfl, fun b hb => ?_⟩
    rw [← hiff, hr] at hb
    cases hb
  | error e =>
    refine .inr ⟨e.token, rfl, fun b => ?_⟩
    rw [← hiff, hr]
    constructor
    · intro h
      rw [Except.error.inj h]
    · rintro rfl
      rfl

end SigLevel
end PackageConf
