import PackageConf.Proofs.SigLevel.Resolve
/-!
# The last word on each bit

The clauses of a list act one after the other, and many of them write the same bits. But what a
clause does to one bit does not depend on any other: it turns the bit on or off, or leaves it alone
(`Clause.writes`). So after a list of clauses each bit is as the last one says that writes it, and
as it was if none does (`getLsbD_foldl_amend`). Read for a scope this says that each of the three
things that can be said of it is as it was said last (`Settled`), whatever was said of the other
scope.
-/
namespace PackageConf

namespace Directive

/-- What is said of the checking of signatures. -/
def required? : Directive → Option Bool
  | .never => some false
  | .optional | .required => some true
  | .trustedOnly | .trustAll => none

/-- What is said of signatures that are missing. Not to check any says nothing of that. -/
def optional? : Directive → Option Bool
  | .optional => some true
  | .required => some false
  | .never | .trustedOnly | .trustAll => none

/-- What is said of keys of marginal and of unknown trust. -/
def trust? : Directive → Option Bool
  | .trustAll => some true
  | .trustedOnly => some false
  | .never | .optional | .required => none

end Directive

namespace Clause

def covers (c : Clause) (scope : Target) : Bool := c.target = scope || c.target = .both

def word (c : Clause) (scope : Target) (aspect : Directive → Option Bool) : Option Bool :=
  if c.covers scope then aspect c.directive else none

/-- What the clause makes of a bit, if it does not leave it alone. -/
def writes (c : Clause) : Nat → Option Bool
  | 0 => c.word .package Directive.required?
  | 1 => c.word .package Directive.optional?
  | 2 | 3 => c.word .package Directive.trust?
  | 10 => c.word .database Directive.required?
  | 11 => c.word .database Directive.optional?
  | 12 | 13 => c.word .database Directive.trust?
  | 30 => some false
  | _ => none

def lastWord (scope : Target) (aspect : Directive → Option Bool) (cs : List Clause) :
    Option Bool :=
  (cs.filterMap (·.word scope aspect)).getLast?

end Clause

namespace SigLevel
open Clause

/-- The scope, whose bits begin at place `n`, is in `l` as the clauses say last, and where they say
nothing as in `base`. -/
structure Settled (base l : SigLevel) (cs : List Clause) (scope : Target) (n : Nat) : Prop where
  required : l.bits.getLsbD n =
    (lastWord scope Directive.required? cs).getD (base.bits.getLsbD n)
  optional : l.bits.getLsbD (n + 1) =
    (lastWord scope Directive.optional? cs).getD (base.bits.getLsbD (n + 1))
  marginal : l.bits.getLsbD (n + 2) =
    (lastWord scope Directive.trust? cs).getD (base.bits.getLsbD (n + 2))
  unknown : l.bits.getLsbD (n + 3) =
    (lastWord scope Directive.trust? cs).getD (base.bits.getLsbD (n + 3))

/-! ## One clause -/

theorem getLsbD_union (l f : SigLevel) (i : Nat) :
    (l.union f).bits.getLsbD i = (l.bits.getLsbD i || f.bits.getLsbD i) := BitVec.getLsbD_or

theorem getLsbD_without (l f : SigLevel) (i : Nat) :
    (l.without f).bits.getLsbD i = (l.bits.getLsbD i && !f.bits.getLsbD i) :=
  Mask.getLsbD_without l.bits f.bits i

/-- A clause writes each bit as it says, whatever there was. -/
theorem getLsbD_amend (l : SigLevel) (c : Clause) (i : Nat) :
    (l.amend c).bits.getLsbD i = (c.writes i).getD (l.bits.getLsbD i) := by
  by_cases hi : i < 32
  · -- the bit of the result depends on the clause, on the place and on the bit that was there
    obtain ⟨t, d⟩ := c
    cases d <;> simp only [amend, apply, getLsbD_union, getLsbD_without] <;>
      generalize l.bits.getLsbD i = b <;> revert b i <;> cases t <;> decide +kernel
  · have hle := Nat.le_of_not_lt hi
    have hnone : c.writes i = none := by
      unfold writes
      split <;> first | omega | rfl
    rw [BitVec.getLsbD_of_ge _ _ hle, BitVec.getLsbD_of_ge _ _ hle, hnone]
    rfl

/-! ## Any number of clauses -/

theorem getLsbD_foldl_amend (base : SigLevel) (cs : List Clause) (i : Nat) :
    (cs.foldl amend base).bits.getLsbD i =
      (cs.filterMap (·.writes i)).getLast?.getD (base.bits.getLsbD i) := by
  induction cs generalizing base with
  | nil => rfl
  | cons c cs ih =>
    rw [List.foldl_cons, ih, getLsbD_amend]
    cases hw : c.writes i with
    | none => rw [List.filterMap_cons_none (f := (Clause.writes · i)) hw, Option.getD_none]
    | some b =>
      rw [List.filterMap_cons_some (f := (Clause.writes · i)) hw, List.getLast?_cons,
        Option.getD_some, Option.getD_some]

section
variable (base : SigLevel) (cs : List Clause)

theorem settled_package : Settled base (cs.foldl amend base) cs .package 0 where
  required := getLsbD_foldl_amend base cs 0
  optional := getLsbD_foldl_amend base cs 1
  marginal := getLsbD_foldl_amend base cs 2
  unknown := getLsbD_foldl_amend base cs 3

theorem settled_database : Settled base (cs.foldl amend base) cs .database 10 where
  required := getLsbD_foldl_amend base cs 10
  optional := getLsbD_foldl_amend base cs 11
  marginal := getLsbD_foldl_amend base cs 12
  unknown := getLsbD_foldl_amend base cs 13

theorem getLsbD_foldl_amend_default :
    (cs.foldl amend base).bits.getLsbD 30 = (base.bits.getLsbD 30 && cs.isEmpty) := by
  have hoff : cs.filterMap (·.writes 30) = cs.map fun _ => false :=
    congrFun List.filterMap_eq_map' cs
  rw [getLsbD_foldl_amend, hoff, List.getLast?_map]
  cases cs with
  | nil => exact (Bool.and_true _).symm
  | cons c cs => simp [List.getLast?_cons]

theorem getLsbD_foldl_amend_other {i : Nat} (hi : i ∉ [0, 1, 2, 3, 10, 11, 12, 13, 30]) :
    (cs.foldl amend base).bits.getLsbD i = base.bits.getLsbD i := by
  have hnone : ∀ c ∈ cs, c.writes i = none := by
    intro c _
    unfold writes
    split <;> simp_all
  rw [getLsbD_foldl_amend, List.filterMap_eq_nil_iff.2 hnone]
  rfl

end

/-! ## The scopes by themselves -/

/-- What is said last of a scope is said by a clause about it. -/
theorem lastWord_filter_covers (scope : Target) (aspect : Directive → Option Bool)
    (cs : List Clause) :
    lastWord scope aspect (cs.filter (·.covers scope)) = lastWord scope aspect cs := by
  rw [lastWord, lastWord, List.filterMap_filter]
  congr 2
  funext c
  cases hc : c.covers scope <;> simp [word, hc]

/-- Leaving out what is not about a scope makes no difference to it. -/
theorem Settled.agree {base l l' : SigLevel} {cs : List Clause} {scope : Target} {n : Nat}
    (h : Settled base l cs scope n) (h' : Settled base l' (cs.filter (·.covers scope)) scope n) :
    ∀ i < 4, l'.bits.getLsbD (n + i) = l.bits.getLsbD (n + i) := by
  have hwords (aspect : Directive → Option Bool) := lastWord_filter_covers scope aspect cs
  intro i hi
  match i, hi with
  | 0, _ => exact (h'.required.trans (by rw [hwords])).trans h.required.symm
  | 1, _ => exact (h'.optional.trans (by rw [hwords])).trans h.optional.symm
  | 2, _ => exact (h'.marginal.trans (by rw [hwords])).trans h.marginal.symm
  | 3, _ => exact (h'.unknown.trans (by rw [hwords])).trans h.unknown.symm

/-! ## Lists of tokens -/

theorem resolve_append (base : SigLevel) (xs ys : List String) :
    resolve base (xs ++ ys) = (resolve base xs).bind fun l => resolve l ys := by
  induction xs generalizing base with
  | nil => rfl
  | cons x xs ih =>
    rw [List.cons_append, resolve_cons, resolve_cons]
    cases Clause.ofToken x with
    | ok c => exact ih (base.amend c)
    | error e => rfl

theorem exists_resolve_eq_error_iff {base : SigLevel} {tokens : List String} :
    (∃ e, resolve base tokens = .error e) ↔ ∃ t ∈ tokens, ∀ c : Clause, t ≠ c.token := by
  constructor
  · rintro ⟨e, he⟩
    obtain ⟨good, rest, rfl, -, hbad⟩ := resolve_eq_error_iff.1 he
    exact ⟨e.token, by simp, hbad⟩
  · rintro ⟨t, ht, hbad⟩
    cases hr : resolve base tokens with
    | ok l =>
      obtain ⟨cs, rfl, -⟩ := resolve_eq_ok_iff.1 hr
      obtain ⟨c, -, hc⟩ := List.mem_map.1 ht
      exact absurd hc.symm (hbad c)
    | error e => exact ⟨e, rfl⟩

theorem resolve_tokens (base : SigLevel) (cs : List Clause) :
    resolve base (cs.map Clause.token) = .ok (cs.foldl amend base) :=
  resolve_eq_ok_iff.2 ⟨cs, rfl, rfl⟩

/-- **What a list of tokens makes of a level.** It fails if there is a token that is not the token
of a clause, and the error names the first one. Else each of the two scopes is as the tokens about
it said last, and where they say nothing as it was; it is as if the tokens about the other scope
were not there. Any token takes the default away, and all other bits stay. Two lists one after the
other act as the second one does on what the first one makes. -/
theorem resolve_last_word (base : SigLevel) (tokens : List String) :
    ((∃ e, resolve base tokens = .error e) ↔ ∃ t ∈ tokens, ∀ c : Clause, t ≠ c.token) ∧
    (∀ e, resolve base tokens = .error e ↔ FirstInvalid tokens e.token) ∧
    (∀ cs : List Clause, tokens = cs.map Clause.token →
      ∃ l, resolve base tokens = .ok l ∧
        Settled base l cs .package 0 ∧ Settled base l cs .database 10 ∧
        l.bits.getLsbD 30 = (base.bits.getLsbD 30 && cs.isEmpty) ∧
        (∀ i, i ∉ [0, 1, 2, 3, 10, 11, 12, 13, 30] → l.bits.getLsbD i = base.bits.getLsbD i) ∧
        (∃ p, resolve base ((cs.filter (·.covers .package)).map Clause.token) = .ok p ∧
          ∀ i < 4, p.bits.getLsbD i = l.bits.getLsbD i) ∧
        ∃ d, resolve base ((cs.filter (·.covers .database)).map Clause.token) = .ok d ∧
          ∀ i < 4, d.bits.getLsbD (10 + i) = l.bits.getLsbD (10 + i)) ∧
    ∀ more, resolve base (tokens ++ more) = (resolve base tokens).bind fun l => resolve l more := by
  refine ⟨exists_resolve_eq_error_iff, fun _ => resolve_eq_error_iff, ?_, resolve_append base tokens⟩
  rintro cs rfl
  have hpackage := settled_package base cs
  have hdatabase := settled_database base cs
  refine ⟨cs.foldl amend base, resolve_tokens base cs, hpackage, hdatabase,
    getLsbD_foldl_amend_default base cs, fun i => getLsbD_foldl_amend_other base cs,
    ⟨_, resolve_tokens base _, ?_⟩, ⟨_, resolve_tokens base _, ?_⟩⟩
  · simpa using hpackage.agree (settled_package base _)
  · exact hdatabase.agree (settled_database base _)

/-- Both scopes are spoken of, together and apart. -/
def mixedClauses : List Clause :=
  [⟨.package, .optional⟩, ⟨.both, .never⟩, ⟨.database, .trustAll⟩]

/-- Packages are not checked, though a signature may still be missing; they keep the one bit of
trust that was there, and the bit without a name. -/
theorem resolve_last_word_mixedClauses :
    let tokens := ["PackageOptional", "Never", "DatabaseTrustAll"]
    tokens = mixedClauses.map Clause.token ∧
    ∃ l, resolve ⟨0xC000_0408#32⟩ tokens = .ok l ∧
      l.bits.getLsbD 0 = false ∧ l.bits.getLsbD 1 = true ∧
      l.bits.getLsbD 2 = false ∧ l.bits.getLsbD 3 = true ∧
      l.bits.getLsbD 10 = false ∧ l.bits.getLsbD 11 = false ∧
      l.bits.getLsbD 12 = true ∧ l.bits.getLsbD 13 = true ∧
      l.bits.getLsbD 30 = false ∧ l.bits.getLsbD 31 = true := by
  intro tokens
  have htokens : tokens = mixedClauses.map Clause.token := by decide
  obtain ⟨-, -, hclauses, -⟩ := resolve_last_word ⟨0xC000_0408#32⟩ tokens
  obtain ⟨l, hl, hpackage, hdatabase, hdefault, hother, -, -⟩ := hclauses mixedClauses htokens
  refine ⟨htokens, l, hl, hpackage.required.trans ?_, hpackage.optional.trans ?_,
    hpackage.marginal.trans ?_, hpackage.unknown.trans ?_, hdatabase.required.trans ?_,
    hdatabase.optional.trans ?_, hdatabase.marginal.trans ?_, hdatabase.unknown.trans ?_,
    hdefault.trans ?_, (hother 31 (by decide)).trans ?_⟩ <;> decide

end SigLevel
end PackageConf
