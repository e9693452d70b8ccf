import Mathlib.Data.List.TakeWhile
import PackageConf.Text.Split
/-!
# Trimmed texts and words

What trimming leaves neither starts nor ends with a blank, and blanks around a text do not change
what trimming leaves. A *word* is what splitting a value can give: it is not empty, has no space in
it and no blank around it. Words joined by single spaces are split into the same words again
(`words_join`), and splitting gives nothing but words (`isWord_of_mem_words`).
-/
namespace PackageConf.Text

/-! ## Trimming -/

theorem trimStart_eq_nil_iff {s : List Char} : trimStart s = [] ↔ ∀ c ∈ s, isBlank c = true := by
  simp [trimStart, List.dropWhile_eq_nil_iff]

theorem trimEnd_append_blank (s : List Char) {w : List Char} (h : ∀ c ∈ w, isBlank c = true) :
    trimEnd (s ++ w) = trimEnd s := by
  have hw : w.reverse.dropWhile isBlank = [] := by simpa [List.dropWhile_eq_nil_iff] using h
  rw [trimEnd, trimEnd, List.reverse_append, List.dropWhile_append, hw]
  rfl

theorem trim_append_blank (s : List Char) {w : List Char} (h : ∀ c ∈ w, isBlank c = true) :
    trim (s ++ w) = trim s := by
  unfold trim
  by_cases hs : trimStart s = []
  · have : trimStart (s ++ w) = [] := trimStart_eq_nil_iff.2 fun c hc =>
      (List.mem_append.1 hc).elim (trimStart_eq_nil_iff.1 hs c) (h c)
    rw [this, hs]
  · have : trimStart (s ++ w) = trimStart s ++ w := by
      rw [trimStart, List.dropWhile_append]
      cases hd : s.dropWhile isBlank with
      | nil => exact absurd hd hs
      | cons c r => simp [trimStart, hd]
    rw [this, trimEnd_append_blank _ h]

theorem trimStart_blank_append {w : List Char} (h : ∀ c ∈ w, isBlank c = true) (s : List Char) :
    trimStart (w ++ s) = trimStart s :=
  List.dropWhile_append_of_pos h

theorem trim_blank_append {w : List Char} (h : ∀ c ∈ w, isBlank c = true) (s : List Char) :
    trim (w ++ s) = trim s := by
  rw [trim, trim, trimStart_blank_append h]

theorem isBlank_head?_trimStart (s : List Char) : ∀ c ∈ (trimStart s).head?, isBlank c = false := by
  intro c hc
  have := List.head?_dropWhile_not isBlank s
  rw [show s.dropWhile isBlank = trimStart s from rfl, Option.mem_def.1 hc] at this
  simpa using this

theorem isBlank_getLast?_trimEnd (s : List Char) :
    ∀ c ∈ (trimEnd s).getLast?, isBlank c = false := by
  intro c hc
  rw [trimEnd, List.getLast?_reverse] at hc
  exact isBlank_head?_trimStart s.reverse c hc

theorem trimEnd_isPrefix (s : List Char) : trimEnd s <+: s := by
  have := List.dropWhile_suffix (l := s.reverse) isBlank
  rw [trimEnd, ← List.reverse_suffix, List.reverse_reverse]
  exact this

theorem trimEnd_eq_nil_iff {s : List Char} : trimEnd s = [] ↔ ∀ c ∈ s, isBlank c = true := by
  simp [trimEnd, List.dropWhile_eq_nil_iff]

/-- What is stripped at the end are blanks. -/
theorem exists_trimEnd_append (s : List Char) :
    ∃ w, (∀ c ∈ w, isBlank c = true) ∧ s = trimEnd s ++ w := by
  refine ⟨(s.reverse.takeWhile isBlank).reverse, fun c hc => ?_, ?_⟩
  · exact List.mem_takeWhile_imp (List.mem_reverse.1 hc)
  · rw [trimEnd, ← List.reverse_append, List.takeWhile_append_dropWhile, List.reverse_reverse]

theorem trim_trimEnd (s : List Char) : trim (trimEnd s) = trim s := by
  obtain ⟨w, hw, hs⟩ := exists_trimEnd_append s
  conv => rhs; rw [hs]
  exact (trim_append_blank _ hw).symm

theorem trimEnd_eq_self {s : List Char} (h : ∀ c ∈ s.getLast?, isBlank c = false) :
    trimEnd s = s := by
  obtain ⟨w, hw, hs⟩ := exists_trimEnd_append s
  rcases List.eq_nil_or_concat w with rfl | ⟨w', c, rfl⟩
  · rwa [List.append_nil, eq_comm] at hs
  · have hblank := hw c (by simp)
    rw [h c (by rw [hs]; simp)] at hblank
    cases hblank

/-- Only the last part of a text loses blanks at the end, if it is not blank itself. -/
theorem trimEnd_append (s : List Char) {t : List Char} (h : trimEnd t ≠ []) :
    trimEnd (s ++ t) = s ++ trimEnd t := by
  have hdrop : t.reverse.dropWhile isBlank ≠ [] := fun hnil => h (by rw [trimEnd, hnil]; rfl)
  rw [trimEnd, List.reverse_append, List.dropWhile_append, if_neg (by simpa using hdrop)]
  simp [trimEnd]

theorem trimEnd_prefix_head? {s : List Char} {c : Char} (h : (trimEnd s).head? = some c) :
    s.head? = some c := by
  obtain ⟨t, ht⟩ := trimEnd_isPrefix s
  rw [← ht, List.head?_append, h]
  rfl

theorem isBlank_ends_trim (s : List Char) :
    (∀ c ∈ (trim s).head?, isBlank c = false) ∧ ∀ c ∈ (trim s).getLast?, isBlank c = false :=
  ⟨fun c hc => isBlank_head?_trimStart s c (trimEnd_prefix_head? hc),
    isBlank_getLast?_trimEnd (trimStart s)⟩

theorem trim_eq_nil_iff {s : List Char} : trim s = [] ↔ ∀ c ∈ s, isBlank c = true := by
  rw [trim, trimEnd_eq_nil_iff]
  refine Iff.trans ⟨fun h => ?_, fun h => by simp [h]⟩ trimStart_eq_nil_iff
  cases hs : trimStart s with
  | nil => rfl
  | cons c r =>
    have hfirst := isBlank_head?_trimStart s c (by rw [hs]; rfl)
    rw [h c (by simp [hs])] at hfirst
    cases hfirst

theorem trim_trimStart (s : List Char) : trim (trimStart s) = trim s := by
  rw [trim, trimStart_eq_self (isBlank_head?_trimStart s), ← trim]

theorem trimStart_append_cons (s : List Char) {c : Char} (hc : isBlank c = false)
    (t : List Char) : trimStart (s ++ c :: t) = trimStart s ++ c :: t := by
  rw [trimStart, trimStart, List.dropWhile_append]
  cases s.dropWhile isBlank <;> simp [hc]

theorem trimEnd_append_cons (s : List Char) {c : Char} (hc : isBlank c = false)
    (t : List Char) : trimEnd (s ++ c :: t) = s ++ c :: trimEnd t := by
  have hcons : trimEnd (c :: t) = c :: trimEnd t := by
    by_cases ht : trimEnd t = []
    · rw [← List.singleton_append, trimEnd_append_blank [c] (trimEnd_eq_nil_iff.1 ht), ht]
      simp [trimEnd, hc]
    · exact trimEnd_append [c] ht
  rw [trimEnd_append s (by simp [hcons]), hcons]

/-- On each side of a character that is not blank only the other end is trimmed. -/
theorem trim_append_cons (s : List Char) {c : Char} (hc : isBlank c = false) (t : List Char) :
    trim (s ++ c :: t) = trimStart s ++ c :: trimEnd t := by
  rw [trim, trimStart_append_cons s hc, trimEnd_append_cons _ hc]

theorem mem_of_mem_trim {s : List Char} {c : Char} (h : c ∈ trim s) : c ∈ s :=
  (List.dropWhile_suffix isBlank).subset ((trimEnd_isPrefix _).subset h)

/-! ## Words -/

/-- What splitting a value can give. -/
structure IsWord (w : List Char) : Prop where
  ne_nil : w ≠ []
  no_space : ' ' ∉ w
  first : ∀ c ∈ w.head?, isBlank c = false
  last : ∀ c ∈ w.getLast?, isBlank c = false

theorem IsWord.trim_eq {w : List Char} (h : IsWord w) : trim w = w := trim_eq_self h.first h.last

theorem pieces_of_not_mem {d : Char} {s : List Char} (h : d ∉ s) : pieces d s = [s] := by
  induction s with
  | nil => rfl
  | cons c s ih =>
    simp only [List.mem_cons, not_or] at h
    simp [pieces, Ne.symm h.1, ih h.2]

theorem pieces_append {d : Char} {s : List Char} (h : d ∉ s) (t : List Char) :
    pieces d (s ++ d :: t) = s :: pieces d t := by
  induction s with
  | nil => simp [pieces]
  | cons c s ih =>
    simp only [List.mem_cons, not_or] at h
    simp [pieces, Ne.symm h.1, ih h.2]

theorem not_mem_of_mem_pieces {d : Char} {s p : List Char} (h : p ∈ pieces d s) : d ∉ p := by
  induction s generalizing p with
  | nil => simp_all [pieces]
  | cons c s ih =>
    by_cases hc : c = d
    · simp only [pieces, hc, if_true, List.mem_cons] at h
      rcases h with rfl | h
      · simp
      · exact ih h
    · cases hp : pieces d s with
      | nil => exact absurd hp (pieces_ne_nil d s)
      | cons q qs =>
        simp only [pieces, hc, if_false, hp, List.mem_cons] at h
        rw [hp] at ih
        rcases h with rfl | h
        · simpa [Ne.symm hc] using ih List.mem_cons_self
        · exact ih (List.mem_cons_of_mem _ h)

theorem mem_of_mem_pieces {d : Char} {s p : List Char} (h : p ∈ pieces d s) {c : Char}
    (hc : c ∈ p) : c ∈ s := by
  induction s generalizing p with
  | nil => simp_all [pieces]
  | cons a s ih =>
    by_cases ha : a = d
    · simp only [pieces, ha, if_true, List.mem_cons] at h
      rcases h with rfl | h
      · cases hc
      · exact List.mem_cons_of_mem _ (ih h hc)
    · cases hp : pieces d s with
      | nil => exact absurd hp (pieces_ne_nil d s)
      | cons q qs =>
        simp only [pieces, ha, if_false, hp, List.mem_cons] at h
        rw [hp] at ih
        rcases h with rfl | h
        · rcases List.mem_cons.1 hc with rfl | hc
          · exact List.mem_cons_self
          · exact List.mem_cons_of_mem _ (ih List.mem_cons_self hc)
        · exact List.mem_cons_of_mem _ (ih (List.mem_cons_of_mem _ h) hc)

theorem words_append {w : List Char} (h : ' ' ∉ w) (t : List Char) :
    words (w ++ ' ' :: t) = (if trim w = [] then [] else [trim w]) ++ words t := by
  rw [words, pieces_append h]
  by_cases hw : trim w = [] <;> simp [words, hw]

theorem words_of_not_mem {w : List Char} (h : ' ' ∉ w) :
    words w = if trim w = [] then [] else [trim w] := by
  rw [words, pieces_of_not_mem h]
  by_cases hw : trim w = [] <;> simp [hw]

theorem IsWord.words_eq {w : List Char} (h : IsWord w) : words w = [w] := by
  rw [words_of_not_mem h.no_space, h.trim_eq, if_neg h.ne_nil]

theorem IsWord.words_append {w : List Char} (h : IsWord w) (t : List Char) :
    words (w ++ ' ' :: t) = w :: words t := by
  rw [Text.words_append h.no_space, h.trim_eq, if_neg h.ne_nil]
  rfl

theorem isWord_of_mem_words {s w : List Char} (h : w ∈ words s) : IsWord w := by
  simp only [words, List.mem_filter, List.mem_map, decide_eq_true_eq] at h
  obtain ⟨⟨p, hp, rfl⟩, hne⟩ := h
  exact ⟨hne, fun hmem => not_mem_of_mem_pieces hp (mem_of_mem_trim hmem),
    (isBlank_ends_trim p).1, (isBlank_ends_trim p).2⟩

theorem mem_of_mem_words {s w : List Char} (h : w ∈ words s) {c : Char} (hc : c ∈ w) : c ∈ s := by
  simp only [words, List.mem_filter, List.mem_map] at h
  obtain ⟨⟨p, hp, rfl⟩, -⟩ := h
  exact mem_of_mem_pieces hp (mem_of_mem_trim hc)

/-! ## Joined words -/

theorem isBlank_space : ∀ c ∈ [' '], isBlank c = true := List.forall_mem_singleton.2 (by decide)

theorem intercalate_cons {α : Type} {sep x : List α} {xs : List (List α)} (h : xs ≠ []) :
    sep.intercalate (x :: xs) = x ++ (sep ++ sep.intercalate xs) := by
  cases xs with
  | nil => exact absurd rfl h
  | cons y ys => simp [List.intercalate]

theorem intercalate_eq_append_flatMap {α : Type} (sep x : List α) (xs : List (List α)) :
    sep.intercalate (x :: xs) = x ++ xs.flatMap (sep ++ ·) := by
  induction xs generalizing x with
  | nil => simp
  | cons y ys ih =>
    rw [intercalate_cons (List.cons_ne_nil y ys), ih, List.flatMap_cons, List.append_assoc]

theorem join_cons {w : List Char} {ws : List (List Char)} (h : ws ≠ []) :
    [' '].intercalate (w :: ws) = w ++ ' ' :: [' '].intercalate ws :=
  intercalate_cons h

/-- Words joined by single spaces are the words again. -/
theorem words_join {ws : List (List Char)} (h : ∀ w ∈ ws, IsWord w) :
    words ([' '].intercalate ws) = ws := by
  induction ws with
  | nil => rfl
  | cons w ws ih =>
    obtain ⟨hw, hws⟩ := List.forall_mem_cons.1 h
    by_cases hnil : ws = []
    · subst hnil
      simpa using hw.words_eq
    · rw [join_cons hnil, hw.words_append, ih hws]

theorem join_ne_nil {ws : List (List Char)} (h : ∀ w ∈ ws, IsWord w) (hne : ws ≠ []) :
    [' '].intercalate ws ≠ [] := by
  intro he
  have hjoin := words_join h
  rw [he] at hjoin
  exact hne hjoin.symm

theorem isBlank_last_join {ws : List (List Char)} (h : ∀ w ∈ ws, IsWord w) :
    ∀ c ∈ ([' '].intercalate ws).getLast?, isBlank c = false := by
  induction ws with
  | nil => simp
  | cons w ws ih =>
    obtain ⟨hw, hws⟩ := List.forall_mem_cons.1 h
    by_cases hnil : ws = []
    · subst hnil
      simpa using hw.last
    · rw [join_cons hnil]
      have hne := join_ne_nil hws hnil
      intro c hc
      refine ih hws c ?_
      simpa [List.getLast?_append, List.getLast?_cons, List.getLast?_eq_some_getLast hne] using hc

theorem not_mem_join {d : Char} (hd : d ≠ ' ') {ws : List (List Char)} (h : ∀ w ∈ ws, d ∉ w) :
    d ∉ [' '].intercalate ws := by
  induction ws with
  | nil => simp
  | cons w ws ih =>
    obtain ⟨hw, hws⟩ := List.forall_mem_cons.1 h
    by_cases hnil : ws = []
    · subst hnil
      simpa using hw
    · rw [join_cons hnil]
      simp [hw, hd, ih hws]

/-- A space in front of joined words is no part of a word, nor is it if there are no words. -/
theorem words_trimEnd_join {ws : List (List Char)} (h : ∀ w ∈ ws, IsWord w) :
    words (trimEnd (' ' :: [' '].intercalate ws)) = ws := by
  by_cases hnil : ws = []
  · subst hnil
    rfl
  · have hself : trimEnd ([' '].intercalate ws) = [' '].intercalate ws :=
      trimEnd_eq_self (isBlank_last_join h)
    have hne : trimEnd ([' '].intercalate ws) ≠ [] := by
      rw [hself]
      exact join_ne_nil h hnil
    have hfront := words_append (w := []) (by simp) ([' '].intercalate ws)
    rw [← List.singleton_append, trimEnd_append [' '] hne, hself]
    rwa [List.nil_append, words_join h] at hfront

end PackageConf.Text
