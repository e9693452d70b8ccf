import Mathlib
import PackageConf.Text.Blank
import PackageConf.Text.Hex
/-!
# Characters with escapes

Between double quotes a character stands for itself, or it is written behind a backslash: as a
letter, or as a letter with the hexadecimal digits of its number. An `EscapeTable` has the meaning
of the letters. One character may have several spellings, and which of them is used where is not
asked. Every spelling shows its end (`Spells.inj`), so a text can be told from any of its spellings
that a quote closes (`SpellsText.inj`).
-/
namespace PackageConf

/-! ## Numbers -/

namespace Text

/-- The hexadecimal digits, in both cases, with their values. -/
def hexDigits : List (Char × Nat) :=
  ['0', '1', '2', '3', '4', '5', '6', '7', '8', '9', 'a', 'b', 'c', 'd', 'e', 'f'].zipIdx ++
    ['A', 'B', 'C', 'D', 'E', 'F'].zipIdx 10

def hexStep (n : Nat) (d : Char) : Option Nat := (hexDigits.lookup d).map (16 * n + ·)

/-- The number that hexadecimal digits stand for. -/
def hexValue? (ds : List Char) : Option Nat := ds.foldlM hexStep 0

theorem hex_of_lt {n : Nat} (h : n < 16) : hex n = [Nat.digitChar n] := Nat.toDigits_of_lt_base h

theorem hex_of_le {n : Nat} (h : 16 ≤ n) : hex n = hex (n / 16) ++ [Nat.digitChar (n % 16)] :=
  Nat.toDigits_of_base_le (by decide) h

theorem hexStep_digitChar {d : Nat} (h : d < 16) (n : Nat) :
    hexStep n (Nat.digitChar d) = some (16 * n + d) := by
  have hall : ∀ d < 16, hexDigits.lookup (Nat.digitChar d) = some d := by decide
  rw [hexStep, hall d h, Option.map_some]

/-- Digit by digit, from the last one. -/
theorem hexValue?_hex (n : Nat) : hexValue? (hex n) = some n := by
  induction n using Nat.strongRecOn with
  | ind n ih =>
    rcases Nat.lt_or_ge n 16 with hn | hn
    · rw [hex_of_lt hn, hexValue?, List.foldlM_cons, hexStep_digitChar hn]
      simp
    · have hinit : (hex (n / 16)).foldlM hexStep 0 = some (n / 16) := ih (n / 16) (by omega)
      rw [hex_of_le hn, hexValue?, List.foldlM_append, hinit, Option.bind_eq_bind, Option.bind_some,
        List.foldlM_cons, hexStep_digitChar (Nat.mod_lt n (by decide))]
      simp [Nat.div_add_mod]

theorem isBlank_of_hexValue? {ds : List Char} {n : Nat} (h : hexValue? ds = some n) :
    ∀ c ∈ ds, isBlank c = false := by
  have hdigits : ∀ p ∈ hexDigits, isBlank p.1 = false := by decide
  have hfrom : ∀ m, ds.foldlM hexStep m = some n → ∀ c ∈ ds, isBlank c = false := by
    clear h
    induction ds with
    | nil => simp
    | cons d ds ih =>
      intro m hm
      rw [List.foldlM_cons] at hm
      obtain ⟨k, hstep, hrest⟩ := Option.bind_eq_some_iff.1 hm
      obtain ⟨v, hv, -⟩ := Option.map_eq_some_iff.1 hstep
      obtain ⟨before, after, hsplit, -⟩ := List.lookup_eq_some_iff.1 hv
      exact List.forall_mem_cons.2 ⟨hdigits (d, v) (by rw [hsplit]; simp), ih k hrest⟩
  exact hfrom 0 h

end Text

/-! ## Spellings -/

/-- What a letter behind a backslash stands for: a character, or one whose number follows in so many
digits. -/
inductive Escape where
  | char (c : Char)
  | number (digits : Nat)
deriving DecidableEq

abbrev EscapeTable := Char → Option Escape

namespace EscapeTable

/-- The ways to write a character between double quotes. More is allowed here than formats allow: a
control may stand as it is. -/
inductive Spells (table : EscapeTable) : Char → List Char → Prop
  | plain {c : Char} : c ≠ '"' → c ≠ '\\' → Spells table c [c]
  | letter {c l : Char} : table l = some (.char c) → Spells table c ['\\', l]
  | number {c l : Char} {n : Nat} {ds : List Char} : table l = some (.number n) → ds.length = n →
      Text.hexValue? ds = some c.toNat → Spells table c ('\\' :: l :: ds)

/-- The ways to write a text, character by character. -/
inductive SpellsText (table : EscapeTable) : List Char → List Char → Prop
  | nil : SpellsText table [] []
  | cons {c : Char} {s x y : List Char} : table.Spells c x → SpellsText table s y →
      SpellsText table (c :: s) (x ++ y)

variable {table : EscapeTable}

/-- A character is never begun with a quote that is not escaped. -/
theorem Spells.append_ne {c : Char} {x : List Char} (h : table.Spells c x) (r t : List Char) :
    x ++ r ≠ '"' :: t := by
  cases h with
  | plain hquote _ => simp [hquote]
  | letter _ => simp
  | number _ _ _ => simp

/-- **The end of every character shows**, and the character can be told. -/
theorem Spells.inj {c d : Char} {x y r s : List Char} (hc : table.Spells c x)
    (hd : table.Spells d y) (h : x ++ r = y ++ s) : c = d ∧ r = s := by
  cases hc with
  | plain _ hmark =>
    cases hd with
    | plain _ _ => simpa using h
    | letter _ => simp [hmark] at h
    | number _ _ _ => simp [hmark] at h
  | letter hl =>
    cases hd with
    | plain _ hmark => simp [Ne.symm hmark] at h
    | letter hl' =>
      simp only [List.cons_append, List.nil_append, List.cons_eq_cons, true_and] at h
      obtain ⟨rfl, rfl⟩ := h
      exact ⟨by simpa [hl] using hl', rfl⟩
    | number hl' _ _ =>
      simp only [List.cons_append, List.nil_append, List.cons_eq_cons, true_and] at h
      simp [← h.1, hl] at hl'
  | number hl hlen hvalue =>
    cases hd with
    | plain _ hmark => simp [Ne.symm hmark] at h
    | letter hl' =>
      simp only [List.cons_append, List.nil_append, List.cons_eq_cons, true_and] at h
      simp [← h.1, hl] at hl'
    | number hl' hlen' hvalue' =>
      simp only [List.cons_append, List.cons_eq_cons, true_and] at h
      obtain ⟨rfl, hrest⟩ := h
      have hdigits : Escape.number _ = .number _ := Option.some.inj (hl.symm.trans hl')
      obtain ⟨rfl, rfl⟩ :=
        List.append_inj hrest (hlen.trans ((Escape.number.inj hdigits).trans hlen'.symm))
      have hnumber := Option.some.inj (hvalue.symm.trans hvalue')
      exact ⟨Char.toNat_inj.1 hnumber, rfl⟩

/-- **A quote ends a text**, whatever the spelling, and the text can be told. -/
theorem SpellsText.inj {s s' x x' r r' : List Char} (h : table.SpellsText s x)
    (h' : table.SpellsText s' x') (hx : x ++ '"' :: r = x' ++ '"' :: r') : s = s' ∧ r = r' := by
  induction h generalizing s' x' with
  | nil =>
    cases h' with
    | nil => exact ⟨rfl, by simpa using hx⟩
    | cons hc _ =>
      rw [List.append_assoc] at hx
      exact absurd hx.symm (hc.append_ne _ _)
  | cons hc _ ih =>
    cases h' with
    | nil =>
      rw [List.append_assoc] at hx
      exact absurd hx (hc.append_ne _ _)
    | cons hd hs' =>
      rw [List.append_assoc, List.append_assoc] at hx
      obtain ⟨rfl, hrest⟩ := hc.inj hd hx
      obtain ⟨rfl, rfl⟩ := ih hs' hrest
      exact ⟨rfl, rfl⟩

theorem SpellsText.flatMap {f : Char → List Char} (h : ∀ c, table.Spells c (f c))
    (s : List Char) : table.SpellsText s (s.flatMap f) := by
  induction s with
  | nil => exact .nil
  | cons c s ih => exact .cons (h c) ih

end EscapeTable
end PackageConf
