import Mathlib
import PackageConf.Config
import PackageConf.Proofs.Line.Written
import PackageConf.Proofs.Text.Escaped
/-!
# Masks told by their texts

The text of a mask is a row of words, so the parts of the mask can be told from it. A name is among
them exactly if its bit is set, because no other name and no number looks like it, and the number
holds the bits that have no name, in hexadecimal digits of whatever case and count. Thus no two
masks have the same text (`describe_injective`).
-/
namespace PackageConf

/-! ## Words with bars between them -/

namespace Text

theorem isWord_of_forall {w : List Char} (hne : w ≠ []) (h : ∀ c ∈ w, isBlank c = false) :
    IsWord w where
  ne_nil := hne
  no_space hmem := absurd (h ' ' hmem) (by decide)
  first c hc := h c (List.mem_of_head? hc)
  last c hc := h c (List.mem_of_getLast? hc)

theorem isBlank_of_capital {c : Char} (h : (c.isUpper || c == '_') = true) :
    isBlank c = false ∧ c ≠ '|' := by
  rcases Bool.or_eq_true_iff.1 h with hupper | hunder
  · refine ⟨isBlank_of_isAlpha (by simp [Char.isAlpha, hupper]), ?_⟩
    rintro rfl
    revert hupper
    decide
  · rw [beq_iff_eq.1 hunder]
    decide

/-- Of words with bars between them the words are left when the bars go. -/
theorem words_intercalate_bar {ws : List (List Char)} (h : ∀ w ∈ ws, IsWord w) :
    (words ([' ', '|', ' '].intercalate ws)).filter (· ≠ ['|']) = ws.filter (· ≠ ['|']) := by
  induction ws with
  | nil => rfl
  | cons w ws ih =>
    obtain ⟨hw, hws⟩ := List.forall_mem_cons.1 h
    by_cases hnil : ws = []
    · subst hnil
      simp [hw.words_eq]
    · have hbar : words (['|'] ++ ' ' :: [' ', '|', ' '].intercalate ws) =
          ['|'] :: words ([' ', '|', ' '].intercalate ws) := words_append (by decide) _
      have hjoin : [' ', '|', ' '].intercalate (w :: ws) =
          w ++ ' ' :: (['|'] ++ ' ' :: [' ', '|', ' '].intercalate ws) := by
        simp [intercalate_cons hnil]
      rw [hjoin, hw.words_append, hbar, List.filter_cons, List.filter_cons, List.filter_cons,
        ih hws]
      simp

/-- Words with bars between them can be told apart, if none of them is a bar. -/
theorem eq_of_intercalate_bar {vs ws : List (List Char)} (hvs : ∀ v ∈ vs, IsWord v ∧ v ≠ ['|'])
    (hws : ∀ w ∈ ws, IsWord w ∧ w ≠ ['|'])
    (h : [' ', '|', ' '].intercalate vs = [' ', '|', ' '].intercalate ws) : vs = ws := by
  have hwords {us : List (List Char)} (hus : ∀ u ∈ us, IsWord u ∧ u ≠ ['|']) :
      (words ([' ', '|', ' '].intercalate us)).filter (· ≠ ['|']) = us := by
    rw [words_intercalate_bar fun u hu => (hus u hu).1, List.filter_eq_self]
    exact fun u hu => decide_eq_true (hus u hu).2
  rw [← hwords hvs, h, hwords hws]

end Text

/-! ## Masks -/

namespace Mask

/-- A table that gives different names to different bits: names in capitals, which no number looks
like, and one bit for each. -/
structure Names (table : List (String × Mask)) : Prop where
  ne_nil : ∀ e ∈ table, e.1.toList ≠ []
  capitals : ∀ e ∈ table, (e.1.toList.all fun c => c.isUpper || c == '_') = true
  different : ∀ e ∈ table, ∀ e' ∈ table, e.1 = e'.1 → e = e'
  single : ∀ e ∈ table, ∃ i < 32, e.2 = 1#32 <<< i

theorem getLsbD_bit {i : Nat} (hi : i < 32) (j : Nat) :
    (1#32 <<< i).getLsbD j = decide (i = j) := by
  rw [BitVec.getLsbD_shiftLeft, BitVec.getLsbD_one, Bool.eq_iff_iff]
  simp
  omega

theorem getLsbD_named (table : List (String × Mask)) (i : Nat) :
    (named table).getLsbD i = table.any (·.2.getLsbD i) := by
  induction table with
  | nil => simp [named]
  | cons e table ih =>
    rw [List.any_cons, ← ih]
    exact BitVec.getLsbD_or

section
variable {table : List (String × Mask)} {digits : Mask → List Char} {m m' : Mask}

/-- The bit of a name is the whole of its mask. -/
theorem Names.has_eq (h : Names table) {e : String × Mask} (he : e ∈ table) {i : Nat}
    (hi : e.2.getLsbD i = true) (m : Mask) : m.has e.2 = m.getLsbD i := by
  obtain ⟨j, hj, hbit⟩ := h.single e he
  rw [hbit, getLsbD_bit hj] at hi
  obtain rfl : j = i := of_decide_eq_true hi
  rw [Bool.eq_iff_iff, has_iff, hbit]
  simp [getLsbD_bit hj]

theorem Names.number_notMem (h : Names table) (ds : List Char) :
    ∀ e ∈ table, e.1 ≠ String.ofList ('0' :: ds) := by
  intro e he heq
  have hzero : '0' ∈ e.1.toList := by simp [heq]
  have hcapital := List.all_eq_true.1 (h.capitals e he) '0' hzero
  revert hcapital
  decide

/-- A name is among the parts if its bits are set. -/
theorem Names.mem_parts_iff (h : Names table) {e : String × Mask} (he : e ∈ table) :
    e.1 ∈ parts digits table m ↔ m.has e.2 = true := by
  unfold parts
  rw [List.mem_append, List.mem_map]
  constructor
  · rintro (⟨e', he', hname⟩ | hnumber)
    · obtain ⟨hmem, hhas⟩ := List.mem_filter.1 he'
      rw [← h.different e' hmem e he hname]
      exact hhas
    · split at hnumber
      · cases hnumber
      · exact absurd (List.mem_singleton.1 hnumber) (h.number_notMem _ e he)
  · intro hhas
    exact .inl ⟨e, List.mem_filter.2 ⟨he, hhas⟩, rfl⟩

variable (hdigits : ∀ m, Text.hexValue? (digits m) = some m.toNat)
include hdigits

/-- The number of the bits that are left over tells them; there is none for no bit. -/
theorem eq_of_number
    (h : (if m = 0 then [] else [String.ofList ('0' :: 'x' :: digits m)]) =
      if m' = 0 then [] else [String.ofList ('0' :: 'x' :: digits m')]) : m = m' := by
  split at h <;> split at h
  · next hm hm' => rw [hm, hm']
  · cases h
  · cases h
  · have hsame : digits m = digits m' := by
      simpa using congrArg String.toList (List.singleton_inj.1 h)
    have hvalue := hdigits m
    rw [hsame, hdigits m'] at hvalue
    exact BitVec.eq_of_toNat_eq (Option.some.inj hvalue).symm

/-- The parts of a mask tell the mask. -/
theorem Names.eq_of_parts (h : Names table)
    (hparts : parts digits table m = parts digits table m') : m = m' := by
  have hhas : ∀ e ∈ table, m.has e.2 = m'.has e.2 := by
    intro e he
    rw [Bool.eq_iff_iff, ← @Names.mem_parts_iff _ digits _ h _ he,
      ← @Names.mem_parts_iff _ digits _ h _ he, hparts]
  have hrest : m.without (named table) = m'.without (named table) := by
    have hnames : (table.filter fun e => m.has e.2) = table.filter fun e => m'.has e.2 :=
      List.filter_congr hhas
    unfold parts at hparts
    rw [hnames] at hparts
    exact eq_of_number hdigits (List.append_cancel_left hparts)
  ext i hi
  rw [← BitVec.getLsbD_eq_getElem hi, ← BitVec.getLsbD_eq_getElem hi]
  by_cases hnamed : ∃ e ∈ table, e.2.getLsbD i = true
  · obtain ⟨e, he, hbit⟩ := hnamed
    rw [← h.has_eq he hbit m, ← h.has_eq he hbit m', hhas e he]
  · have hnone : (named table).getLsbD i = false := by
      rw [getLsbD_named, List.any_eq_false]
      exact fun e he hbit => hnamed ⟨e, he, hbit⟩
    have hbits := congrArg (·.getLsbD i) hrest
    simpa [getLsbD_without, hnone] using hbits

/-- The parts are words, and none of them is a bar. -/
theorem Names.isWord_of_mem_parts (h : Names table) :
    ∀ p ∈ parts digits table m, Text.IsWord p.toList ∧ p.toList ≠ ['|'] := by
  unfold parts
  refine List.forall_mem_append.2 ⟨List.forall_mem_map.2 fun e he => ?_, fun p hp => ?_⟩
  · have hmem := List.mem_of_mem_filter he
    have hplain : ∀ c ∈ e.1.toList, Text.isBlank c = false ∧ c ≠ '|' :=
      fun c hc => Text.isBlank_of_capital (List.all_eq_true.1 (h.capitals e hmem) c hc)
    refine ⟨Text.isWord_of_forall (h.ne_nil e hmem) fun c hc => (hplain c hc).1, fun hbar => ?_⟩
    exact (hplain '|' (by simp [hbar])).2 rfl
  · split at hp
    · cases hp
    · rw [List.mem_singleton.1 hp, String.toList_ofList]
      refine ⟨Text.isWord_of_forall (by simp) ?_, by simp⟩
      simp only [List.forall_mem_cons]
      exact ⟨by decide, by decide, Text.isBlank_of_hexValue? (hdigits _)⟩

/-- **The text of a mask tells the mask**, if the table gives different names to different bits. -/
theorem Names.describe_injective (h : Names table) :
    Function.Injective (describe digits table) := by
  intro m m' hdescribe
  have htext := congrArg String.toList hdescribe
  rw [describe, describe, String.toList_intercalate, String.toList_intercalate] at htext
  have hwords (m : Mask) :
      ∀ w ∈ (parts digits table m).map String.toList, Text.IsWord w ∧ w ≠ ['|'] :=
    List.forall_mem_map.2 (h.isWord_of_mem_parts hdigits)
  have hparts := Text.eq_of_intercalate_bar (hwords m) (hwords m') htext
  exact h.eq_of_parts hdigits
    (List.map_injective_iff.2 (fun _ _ => String.toList_injective) hparts)

end

/-- What is known of a way to write masks: the names of the bits that are set, in the order of the
table, and last the number of the bits that have none, in hexadecimal digits. -/
def Described (write : Writer) : Prop :=
  ∃ digits, (∀ m, Text.hexValue? (digits m) = some m.toNat) ∧
    ∀ table, write table = describe digits table

theorem Described.injective {write : Writer} (hwrite : Described write)
    {table : List (String × Mask)} (h : Names table) : Function.Injective (write table) := by
  obtain ⟨digits, hdigits, hdescribe⟩ := hwrite
  rw [hdescribe]
  exact h.describe_injective hdigits

/-- The writer of this project uses digits in lower case, and no more than it needs. -/
theorem described_hex : Described (describe fun m => Text.hex m.toNat) :=
  ⟨_, fun m => Text.hexValue?_hex m.toNat, fun _ => rfl⟩

end Mask

theorem SigLevel.names_ok : Mask.Names names where
  ne_nil := by decide
  capitals := by decide
  different := by decide
  single := by decide

theorem OptionFlags.names_ok : Mask.Names names where
  ne_nil := by decide
  capitals := by decide
  different := by decide
  single := by decide

section
variable {write : Mask.Writer} (hwrite : Mask.Described write)
include hwrite

theorem SigLevel.describe_injective : Function.Injective (describe write) := by
  rintro ⟨bits⟩ ⟨bits'⟩ h
  rw [mk.injEq]
  exact hwrite.injective names_ok h

theorem OptionFlags.describe_injective : Function.Injective (describe write) := by
  rintro ⟨bits⟩ ⟨bits'⟩ h
  rw [mk.injEq]
  exact hwrite.injective names_ok h

end

end PackageConf
