import Mathlib
import PackageConf.Document.Toml
import PackageConf.Proofs.Text.Escaped
import PackageConf.Proofs.Text.Legible
import PackageConf.Proofs.Text.Words
/-!
# Documents told by their TOML

The format has four styles of strings, and none of them is preferred here: `Spelled` allows them all,
as far as the text can be written in them. A string is told in two steps. The first quotes show its
style, because no style but the ones with three quotes begins with three of them; then the style
says how the string goes on and where it ends. The end shows only if no quote comes behind
(`Quoteless`), and behind a value there never is one.

Between three double quotes up to two quotes may stand in front of the end, so three quotes in a row
need not be the end. What counts there is how many quotes stand unescaped at a place
(`leading_lines`).
-/
namespace PackageConf.Toml

def Quoteless (r : List Char) : Prop := ∀ c ∈ r.head?, c ≠ '"' ∧ c ≠ '\''

theorem Quoteless.ne_cons {r t : List Char} (h : Quoteless r) {q : Char} (hq : q = '"' ∨ q = '\'') :
    r ≠ q :: t := by
  rintro rfl
  rcases hq with rfl | rfl
  · exact (h _ rfl).1 rfl
  · exact (h _ rfl).2 rfl

theorem quoteless_cons {c : Char} (hdouble : c ≠ '"') (hsingle : c ≠ '\'') (r : List Char) :
    Quoteless (c :: r) := by
  intro d hd
  obtain rfl := Option.some.inj hd
  exact ⟨hdouble, hsingle⟩

/-! ## Spellings -/

def escapeTable : EscapeTable
  | '"' => some (.char '"')
  | '\\' => some (.char '\\')
  | 'b' => some (.char '\x08')
  | 'f' => some (.char '\x0c')
  | 'n' => some (.char '\n')
  | 'r' => some (.char '\r')
  | 't' => some (.char '\t')
  | 'u' => some (.number 4)
  | 'U' => some (.number 8)
  | _ => none

/-- The ways to write a text between three double quotes, when `run` of them stand in front: no
three quotes without an escape stand together. -/
inductive SpellsLines : Nat → List Char → List Char → Prop
  | nil {run : Nat} : SpellsLines run [] []
  | quote {run : Nat} {s x : List Char} : run < 2 → SpellsLines (run + 1) s x →
      SpellsLines run ('"' :: s) ('"' :: x)
  | char {run : Nat} {c : Char} {s x y : List Char} : escapeTable.Spells c x →
      SpellsLines 0 s y → SpellsLines run (c :: s) (x ++ y)

/-- A body as it stands behind three quotes, where a first line feed does not count: one is put in
front, or the body begins with none. -/
def Fed (body fed : List Char) : Prop := fed = '\n' :: body ∨ fed = body ∧ body.head? ≠ some '\n'

/-- The ways to write a text in a style. Between single quotes there are no escapes, so a text with
such a quote is not written between one of them, nor a text with three in a row between three. -/
def Style.Spells (s x : List Char) : Style → Prop
  | .basic => ∃ y, escapeTable.SpellsText s y ∧ x = quoted '"' y
  | .literal => '\'' ∉ s ∧ x = quoted '\'' s
  | .multilineBasic => ∃ y z, SpellsLines 0 s y ∧ Fed y z ∧ x = tripled '"' z
  | .multilineLiteral => ∃ z, ¬ ['\'', '\'', '\''] <:+: s ∧ Fed s z ∧ x = tripled '\'' z

def Spelled (s x : List Char) : Prop := ∃ style : Style, style.Spells s x

/-! ## Three quotes -/

section
variable {q : Char}

/-- How many of `q` stand in front. -/
def leading (q : Char) (s : List Char) : Nat := (s.takeWhile (· == q)).length

@[simp] theorem leading_cons_self (s : List Char) : leading q (q :: s) = leading q s + 1 := by
  simp [leading]

theorem leading_of_ne {s : List Char} (h : ∀ t, s ≠ q :: t) : leading q s = 0 := by
  cases s with
  | nil => rfl
  | cons c t =>
    have hc : c ≠ q := fun hc => h t (hc ▸ rfl)
    simp [leading, hc]

/-- A text between quotes three of which are not in it cannot go on where they stand. -/
theorem eq_nil_of_quotes {s m r r' : List Char} (hthree : ¬ [q, q, q] <:+: s ++ m)
    (hr : ∀ t, r ≠ q :: t) (h : q :: q :: q :: r = m ++ q :: q :: q :: r') : m = [] := by
  match m with
  | [] => rfl
  | [a] =>
    have hrest : r = q :: r' := by simpa using (List.cons_eq_cons.1 h).2
    exact absurd hrest (hr _)
  | [a, b] =>
    have hrest : r = q :: q :: r' := by
      simpa using (List.cons_eq_cons.1 (List.cons_eq_cons.1 h).2).2
    exact absurd hrest (hr _)
  | a :: b :: c :: m =>
    simp only [List.cons_append, List.cons_eq_cons] at h
    obtain ⟨rfl, rfl, rfl, -⟩ := h
    exact absurd ⟨s, m, by simp⟩ hthree

theorem eq_of_quotes {s s' r r' : List Char} (hs : ¬ [q, q, q] <:+: s) (hs' : ¬ [q, q, q] <:+: s')
    (hr : ∀ t, r ≠ q :: t) (hr' : ∀ t, r' ≠ q :: t)
    (h : s ++ q :: q :: q :: r = s' ++ q :: q :: q :: r') : s = s' ∧ r = r' := by
  have hsame : s = s' := by
    rcases List.append_eq_append_iff.1 h with ⟨m, rfl, hm⟩ | ⟨m, rfl, hm⟩
    · rw [eq_nil_of_quotes hs' hr hm, List.append_nil]
    · rw [eq_nil_of_quotes hs hr' hm, List.append_nil]
  subst hsame
  exact ⟨rfl, by simpa using List.append_cancel_left h⟩

/-- The line feed in front is told from the body. -/
theorem Fed.cancel (hq : q ≠ '\n') {x x' y y' r r' : List Char} (hy : Fed x y) (hy' : Fed x' y')
    (h : tripled q y ++ r = tripled q y' ++ r') :
    x ++ q :: q :: q :: r = x' ++ q :: q :: q :: r' := by
  have hmixed {x u v : List Char} (hx : x.head? ≠ some '\n') : x ++ q :: u ≠ '\n' :: v := by
    cases x with
    | nil => simp [hq]
    | cons c x => simpa using fun hc => absurd hc (by simpa using hx)
  simp only [tripled, List.cons_append, List.cons_eq_cons, true_and, List.append_assoc,
    List.nil_append] at h
  rcases hy with rfl | ⟨rfl, hx⟩ <;> rcases hy' with rfl | ⟨rfl, hx'⟩
  · exact (List.cons_eq_cons.1 h).2
  · exact absurd h.symm (hmixed hx')
  · exact absurd h (hmixed hx)
  · exact h

end

/-! ## Several lines -/

/-- **The end is not mistaken.** In a text that goes on behind `run` quotes, so many stand in front
that either some character comes before there could be three, or those of the end come on top. -/
theorem leading_lines {run : Nat} {s x : List Char} (h : SpellsLines run s x) (hrun : run ≤ 2)
    (hs : s ≠ []) (r : List Char) :
    leading '"' (x ++ '"' :: '"' :: '"' :: r) ≤ 2 - run ∨
      4 ≤ leading '"' (x ++ '"' :: '"' :: '"' :: r) := by
  induction h with
  | nil => exact absurd rfl hs
  | @quote run s x hlt hx ih =>
    rw [List.cons_append, leading_cons_self]
    by_cases hnil : s = []
    · subst hnil
      cases hx
      simp
    · have hrest := ih (by omega) hnil
      omega
  | char hc _ _ =>
    rw [List.append_assoc, leading_of_ne (hc.append_ne _)]
    exact .inl (Nat.zero_le _)

theorem SpellsLines.ne_end {run : Nat} {s x r r' : List Char} (h : SpellsLines run s x)
    (hrun : run ≤ 2) (hs : s ≠ []) (hr : Quoteless r) :
    x ++ '"' :: '"' :: '"' :: r' ≠ '"' :: '"' :: '"' :: r := by
  intro hend
  have hthree : leading '"' ('"' :: '"' :: '"' :: r) = 3 := by
    simp [leading_of_ne fun t => hr.ne_cons (t := t) (.inl rfl)]
  have hleading := leading_lines h hrun hs r'
  rw [hend, hthree] at hleading
  omega

/-- The text between three double quotes, and what comes behind. -/
theorem SpellsLines.inj {run : Nat} {s s' x x' r r' : List Char} (h : SpellsLines run s x)
    (h' : SpellsLines run s' x') (hrun : run ≤ 2) (hr : Quoteless r) (hr' : Quoteless r')
    (hx : x ++ '"' :: '"' :: '"' :: r = x' ++ '"' :: '"' :: '"' :: r') : s = s' ∧ r = r' := by
  induction h generalizing s' x' with
  | nil =>
    cases h' with
    | nil => simpa using hx
    | quote hlt hrest =>
      exact absurd hx.symm ((SpellsLines.quote hlt hrest).ne_end hrun (List.cons_ne_nil _ _) hr)
    | char hc hrest =>
      exact absurd hx.symm ((SpellsLines.char hc hrest).ne_end hrun (List.cons_ne_nil _ _) hr)
  | quote hlt hrest ih =>
    cases h' with
    | nil => exact absurd hx ((SpellsLines.quote hlt hrest).ne_end hrun (List.cons_ne_nil _ _) hr')
    | quote _ hrest' =>
      obtain ⟨rfl, rfl⟩ := ih hrest' (by omega) (List.cons_eq_cons.1 hx).2
      exact ⟨rfl, rfl⟩
    | char hc _ =>
      rw [List.append_assoc] at hx
      exact absurd hx.symm (hc.append_ne _ _)
  | char hc hrest ih =>
    cases h' with
    | nil => exact absurd hx ((SpellsLines.char hc hrest).ne_end hrun (List.cons_ne_nil _ _) hr')
    | quote _ _ =>
      rw [List.append_assoc] at hx
      exact absurd hx (hc.append_ne _ _)
    | char hc' hrest' =>
      rw [List.append_assoc, List.append_assoc] at hx
      obtain ⟨rfl, hx⟩ := hc.inj hc' hx
      obtain ⟨rfl, rfl⟩ := ih hrest' (Nat.zero_le 2) hx
      exact ⟨rfl, rfl⟩

/-! ## Styles -/

/-- How a text begins that is written in a style. -/
def Opens : Style → List Char → Prop
  | .basic, x => x.head? = some '"' ∧ ∀ t, x ≠ '"' :: '"' :: '"' :: t
  | .literal, x => x.head? = some '\'' ∧ ∀ t, x ≠ '\'' :: '\'' :: '\'' :: t
  | .multilineBasic, x => ∃ t, x = '"' :: '"' :: '"' :: t
  | .multilineLiteral, x => ∃ t, x = '\'' :: '\'' :: '\'' :: t

theorem Opens.eq {x : List Char} {a b : Style} (ha : Opens a x) (hb : Opens b x) : a = b := by
  cases a <;> cases b <;> simp only [Opens] at ha hb <;> first
    | rfl
    | (obtain ⟨t, rfl⟩ := ha; simp at hb)
    | (obtain ⟨t, rfl⟩ := hb; simp at ha)
    | simp [ha.1] at hb

theorem quoted_ne_tripled {q : Char} {y r t : List Char} (hr : ∀ t, r ≠ q :: t)
    (hy : y ≠ [] → ∀ u v, y ++ u ≠ q :: v) : quoted q y ++ r ≠ q :: q :: q :: t := by
  intro h
  have hrest : y ++ q :: r = q :: q :: t := by simpa [quoted] using h
  by_cases hnil : y = []
  · subst hnil
    exact hr t (by simpa using hrest)
  · exact hy hnil _ _ hrest

theorem Style.Spells.opens {style : Style} {s x r : List Char} (h : style.Spells s x)
    (hr : Quoteless r) : Opens style (x ++ r) := by
  cases style with
  | basic =>
    obtain ⟨y, hy, rfl⟩ := h
    refine ⟨rfl, fun t => quoted_ne_tripled (fun t => hr.ne_cons (.inl rfl)) fun hne u v => ?_⟩
    cases hy with
    | nil => exact absurd rfl hne
    | cons hc _ =>
      rw [List.append_assoc]
      exact hc.append_ne _ _
  | literal =>
    obtain ⟨hs, rfl⟩ := h
    refine ⟨rfl, fun t => quoted_ne_tripled (fun t => hr.ne_cons (.inr rfl)) fun hne u v hq => ?_⟩
    cases s with
    | nil => exact hne rfl
    | cons c s => exact hs ((List.cons_eq_cons.1 hq).1 ▸ List.mem_cons_self)
  | multilineBasic =>
    obtain ⟨y, z, -, -, rfl⟩ := h
    exact ⟨_, rfl⟩
  | multilineLiteral =>
    obtain ⟨z, -, -, rfl⟩ := h
    exact ⟨_, rfl⟩

/-- A text without the quote ends at the quote. -/
theorem literal_inj {s s' r r' : List Char} (hs : '\'' ∉ s) (hs' : '\'' ∉ s')
    (h : s ++ '\'' :: r = s' ++ '\'' :: r') : s = s' ∧ r = r' := by
  have hfirst : Text.cutFirst '\'' (s ++ '\'' :: r) = some (s, r) :=
    Text.cutFirst_eq_some_iff.2 ⟨rfl, hs⟩
  have hfirst' : Text.cutFirst '\'' (s' ++ '\'' :: r') = some (s', r') :=
    Text.cutFirst_eq_some_iff.2 ⟨rfl, hs'⟩
  rw [h, hfirst'] at hfirst
  obtain ⟨rfl, rfl⟩ := Prod.mk.inj (Option.some.inj hfirst)
  exact ⟨rfl, rfl⟩

/-- In a style that is known a text can be told. -/
theorem Style.Spells.inj {style : Style} {s s' x x' r r' : List Char} (h : style.Spells s x)
    (h' : style.Spells s' x') (hr : Quoteless r) (hr' : Quoteless r') (hx : x ++ r = x' ++ r') :
    s = s' ∧ r = r' := by
  cases style with
  | basic =>
    obtain ⟨y, hy, rfl⟩ := h
    obtain ⟨y', hy', rfl⟩ := h'
    exact hy.inj hy' (by simpa [quoted] using hx)
  | literal =>
    obtain ⟨hs, rfl⟩ := h
    obtain ⟨hs', rfl⟩ := h'
    exact literal_inj hs hs' (by simpa [quoted] using hx)
  | multilineBasic =>
    obtain ⟨y, z, hy, hz, rfl⟩ := h
    obtain ⟨y', z', hy', hz', rfl⟩ := h'
    exact hy.inj hy' (Nat.zero_le 2) hr hr' (hz.cancel (by decide) hz' hx)
  | multilineLiteral =>
    obtain ⟨z, hs, hz, rfl⟩ := h
    obtain ⟨z', hs', hz', rfl⟩ := h'
    exact eq_of_quotes hs hs' (fun t => hr.ne_cons (.inr rfl)) (fun t => hr'.ne_cons (.inr rfl))
      (hz.cancel (by decide) hz' hx)

/-- **A string tells its text**, in whatever style it is written, if no quote comes behind. -/
theorem Spelled.inj {s s' x x' r r' : List Char} (h : Spelled s x) (h' : Spelled s' x')
    (hr : Quoteless r) (hr' : Quoteless r') (hx : x ++ r = x' ++ r') : s = s' ∧ r = r' := by
  obtain ⟨style, hs⟩ := h
  obtain ⟨style', hs'⟩ := h'
  obtain rfl : style = style' := (hs.opens hr).eq (hx ▸ hs'.opens hr')
  exact hs.inj hs' hr hr' hx

theorem Spelled.append_ne {s x : List Char} (h : Spelled s x) {c : Char} (hc : c ≠ '"' ∧ c ≠ '\'')
    (t u : List Char) : x ++ t ≠ c :: u := by
  intro hx
  obtain ⟨style, hs⟩ := h
  cases style with
  | basic =>
    obtain ⟨y, -, rfl⟩ := hs
    exact hc.1 (List.cons_eq_cons.1 hx).1.symm
  | literal =>
    obtain ⟨-, rfl⟩ := hs
    exact hc.2 (List.cons_eq_cons.1 hx).1.symm
  | multilineBasic =>
    obtain ⟨y, z, -, -, rfl⟩ := hs
    exact hc.1 (List.cons_eq_cons.1 hx).1.symm
  | multilineLiteral =>
    obtain ⟨z, -, -, rfl⟩ := hs
    exact hc.2 (List.cons_eq_cons.1 hx).1.symm

/-! ## The style that suits a text -/

section
variable {q : Char}

theorem le_longestRun (run : Nat) (s : List Char) : run ≤ longestRun q run s := by
  induction s generalizing run with
  | nil => exact Nat.le_refl run
  | cons c s ih =>
    rw [longestRun]
    split
    · exact Nat.le_trans (Nat.le_succ run) (ih (run + 1))
    · exact Nat.le_max_left run _

theorem three_le_longestRun (run : Nat) (s t : List Char) :
    3 ≤ longestRun q run (s ++ q :: q :: q :: t) := by
  induction s generalizing run with
  | nil =>
    simp only [List.nil_append, longestRun, if_true]
    exact Nat.le_trans (by omega) (le_longestRun (run + 1 + 1 + 1) t)
  | cons c s ih =>
    rw [List.cons_append, longestRun]
    split
    · exact ih (run + 1)
    · exact Nat.le_trans (ih 0) (Nat.le_max_right run _)

theorem not_infix_of_longestRun {s : List Char} (h : longestRun q 0 s ≤ 2) :
    ¬ [q, q, q] <:+: s := by
  rintro ⟨front, back, rfl⟩
  have hthree := three_le_longestRun (q := q) 0 front back
  rw [List.append_assoc] at h
  simp only [List.cons_append, List.nil_append] at h
  omega

theorem notMem_of_longestRun {s : List Char} (h : longestRun q 0 s = 0) : q ∉ s := by
  induction s with
  | nil => simp
  | cons c s ih =>
    rw [longestRun] at h
    split at h
    · have hle : 0 + 1 ≤ longestRun q (0 + 1) s := le_longestRun (0 + 1) s
      omega
    · next hc =>
      have hrest : longestRun q 0 s = 0 := by omega
      simp [Ne.symm hc, ih hrest]

end

/-- Between single quotes there are not so many of them that they could end the text. -/
theorem longestRun_of_style (s : List Char) :
    (style s = .literal → longestRun '\'' 0 s = 0) ∧
      (style s = .multilineLiteral → longestRun '\'' 0 s ≤ 2) := by
  unfold style
  dsimp only
  split_ifs <;> simp_all

theorem hexUpper_of_isControl {c : Char} (h : isControl c = true) :
    (Text.hexUpper 4 c.toNat).length = 4 ∧
      Text.hexValue? (Text.hexUpper 4 c.toNat) = some c.toNat := by
  have hall : ∀ n < 0x80, (Text.hexUpper 4 n).length = 4 ∧
      Text.hexValue? (Text.hexUpper 4 n) = some n := by decide
  refine hall _ ?_
  simp only [isControl, Bool.or_eq_true, Bool.and_eq_true, decide_eq_true_eq, beq_iff_eq] at h
  omega

theorem spells_escape {c : Char} (hc : c ≠ '"') : escapeTable.Spells c (escape c) := by
  unfold escape
  split
  case h_6 hmark =>
    split
    · next hcontrol =>
      exact .number rfl (hexUpper_of_isControl hcontrol).1 (hexUpper_of_isControl hcontrol).2
    · exact .plain hc hmark
  all_goals exact .letter rfl

theorem spells_escapeBasic (c : Char) : escapeTable.Spells c (escapeBasic c) := by
  unfold escapeBasic
  split
  · exact .letter rfl
  · exact .letter rfl
  · next hquote => exact spells_escape hquote

theorem spellsLines_escapeLines {run : Nat} (hrun : run ≤ 2) (s : List Char) :
    SpellsLines run s (escapeLines run s) := by
  fun_induction escapeLines run s with
  | case1 run => exact .nil
  | case2 s ih => exact .char (x := ['\\', '"']) (.letter rfl) (ih (Nat.zero_le 2))
  | case3 run s hne ih => exact .quote (by omega) (ih (by omega))
  | case4 run s ih => exact .char (x := ['\n']) (.plain (by decide) (by decide)) (ih (Nat.zero_le 2))
  | case5 run c s hquote hfeed ih => exact .char (spells_escape hquote) (ih (Nat.zero_le 2))

/-- A body does not begin with a line feed if there is none in the text. -/
theorem SpellsLines.head?_ne {run : Nat} {s x : List Char} (h : SpellsLines run s x)
    (hs : '\n' ∉ s) : x.head? ≠ some '\n' := by
  cases h with
  | nil => simp
  | quote _ _ => simp
  | char hc _ =>
    cases hc with
    | plain _ _ =>
      intro hfeed
      exact hs (Option.some.inj hfeed ▸ List.mem_cons_self)
    | letter _ => simp
    | number _ _ _ => simp

theorem fed_fed {s body : List Char} (h : '\n' ∉ s → body.head? ≠ some '\n') :
    Fed body (fed s body) := by
  unfold fed
  split
  · exact .inl rfl
  · next hs => exact .inr ⟨rfl, h (by simpa using hs)⟩

theorem style_spells (s : List Char) : (style s).Spells s (styled s (style s)) := by
  cases hs : style s with
  | basic => exact ⟨_, .flatMap spells_escapeBasic s, rfl⟩
  | literal => exact ⟨notMem_of_longestRun ((longestRun_of_style s).1 hs), rfl⟩
  | multilineBasic =>
    have hlines := spellsLines_escapeLines (Nat.zero_le 2) s
    exact ⟨_, _, hlines, fed_fed hlines.head?_ne, rfl⟩
  | multilineLiteral =>
    refine ⟨_, not_infix_of_longestRun ((longestRun_of_style s).2 hs), fed_fed fun hfeed hhead => ?_,
      rfl⟩
    exact hfeed (List.mem_of_head? hhead)

theorem spelled_string (s : String) : Spelled s.toList (string s) :=
  ⟨_, style_spells s.toList⟩

/-- Five quotes: three of them in a row are no end, because the first of the three is escaped. -/
example : escapeLines 0 ['"', '"', '"', '"', '"'] = ['"', '"', '\\', '"', '"', '"'] := by decide

/-! ## Values -/

/-- A text of a list behind another one, on the same line. -/
def further (m : Manner) (x : String) : List Char := [',', ' '] ++ m.string x

theorem quoteless_further (m : Manner) (xs : List String) (r : List Char) :
    Quoteless (xs.flatMap (further m) ++ (']' :: r)) := by
  cases xs with
  | nil => exact quoteless_cons (by decide) (by decide) _
  | cons x xs => exact quoteless_cons (by decide) (by decide) _

theorem leaf_spread {m : Manner} {xs : List String} (h : m.spread xs = true) :
    leaf m (.texts xs) = '[' :: '\n' :: (xs.flatMap (itemLine m) ++ [']']) :=
  if_pos h

theorem leaf_nil {m : Manner} (h : m.spread [] = false) : leaf m (.texts []) = ['[', ']'] := by
  simp [leaf, h]

theorem leaf_cons {m : Manner} {x : String} {xs : List String} (h : m.spread (x :: xs) = false) :
    leaf m (.texts (x :: xs)) = '[' :: (m.string x ++ (xs.flatMap (further m) ++ [']'])) := by
  have hjoin : [',', ' '].intercalate ((x :: xs).map m.string) =
      m.string x ++ xs.flatMap (further m) := by
    rw [List.map_cons, Text.intercalate_eq_append_flatMap, List.flatMap_map]
    rfl
  rw [leaf, if_neg (by simp [h]), hjoin, List.append_assoc]

theorem exists_leaf_texts (m : Manner) (xs : List String) :
    ∃ body, leaf m (.texts xs) = '[' :: (body ++ [']']) := by
  cases h : m.spread xs with
  | true => exact ⟨'\n' :: xs.flatMap (itemLine m), leaf_spread h⟩
  | false => exact ⟨[',', ' '].intercalate (xs.map m.string), by simp [leaf, h]⟩

section
variable {m : Manner} (hm : ∀ s, Spelled s.toList (m.string s))
include hm

theorem string_legible : Legible Quoteless id m.string := by
  intro a b r r' hr hr' h
  obtain ⟨hs, hrest⟩ := (hm a).inj (hm b) hr hr' h
  exact ⟨String.toList_inj.1 hs, hrest⟩

theorem itemLines_legible :
    Legible (·.head? = some ']') (List.map id) (List.flatMap (itemLine m)) := by
  have hone : Legible Anything id (itemLine m) :=
    ((string_legible hm).append_right fun _ => quoteless_cons (by decide) (by decide) _).append_left
      [' ', ' ', ' ', ' ']
  refine hone.flatMap (fun _ _ => trivial) (fun _ _ => trivial) ?_
  rintro r hr x t rfl
  simp [itemLine] at hr

theorem further_legible :
    Legible (·.head? = some ']') (List.map id) (List.flatMap (further m)) := by
  have hone : Legible Quoteless id (further m) := (string_legible hm).append_left [',', ' ']
  refine hone.flatMap (fun _ _ => quoteless_cons (by decide) (by decide) _) ?_ ?_
  · rintro r hr c hc
    obtain rfl := Option.some.inj (hr.symm.trans hc)
    exact ⟨by decide, by decide⟩
  · rintro r hr x t rfl
    simp [further] at hr

/-- What stands behind the bracket shows whether each text of a list has its line. -/
theorem leaf_spread_ne {xs ys : List String} (hxs : m.spread xs = true) (hys : m.spread ys = false)
    (r s : List Char) : leaf m (.texts xs) ++ r ≠ leaf m (.texts ys) ++ s := by
  rw [leaf_spread hxs]
  cases ys with
  | nil =>
    rw [leaf_nil hys]
    simp
  | cons y ys =>
    rw [leaf_cons hys]
    intro h
    simp only [List.cons_append, List.cons_eq_cons, true_and, List.append_assoc] at h
    exact (hm y).append_ne (by decide) _ _ h.symm

/-- The texts of a list on one line. -/
theorem inline_inj {xs ys : List String} {r s : List Char} (hxs : m.spread xs = false)
    (hys : m.spread ys = false) (h : leaf m (.texts xs) ++ r = leaf m (.texts ys) ++ s) :
    xs = ys ∧ r = s := by
  cases xs with
  | nil =>
    cases ys with
    | nil => exact ⟨rfl, List.append_cancel_left h⟩
    | cons y ys =>
      simp only [leaf_nil hxs, leaf_cons hys, List.cons_append, List.cons_eq_cons, true_and,
        List.append_assoc, List.nil_append] at h
      exact absurd h.symm ((hm y).append_ne (by decide) _ _)
  | cons x xs =>
    cases ys with
    | nil =>
      simp only [leaf_cons hxs, leaf_nil hys, List.cons_append, List.cons_eq_cons, true_and,
        List.append_assoc, List.nil_append] at h
      exact absurd h ((hm x).append_ne (by decide) _ _)
    | cons y ys =>
      simp only [leaf_cons hxs, leaf_cons hys, List.cons_append, List.cons_eq_cons, true_and,
        List.append_assoc] at h
      obtain ⟨hfirst, hrest⟩ :=
        string_legible hm (quoteless_further m _ _) (quoteless_further m _ _) h
      obtain ⟨hothers, hend⟩ := further_legible hm (by simp) (by simp) hrest
      obtain rfl : x = y := hfirst
      exact ⟨by simpa using hothers, by simpa using hend⟩

/-- The texts of a list can be told apart on one line as well as on several. -/
theorem texts_legible : Legible Anything id fun xs => leaf m (.texts xs) := by
  intro xs ys r s _ _ h
  cases hxs : m.spread xs <;> cases hys : m.spread ys
  · exact inline_inj hm hxs hys h
  · exact absurd h.symm (leaf_spread_ne hm hys hxs s r)
  · exact absurd h (leaf_spread_ne hm hxs hys r s)
  · simp only [leaf_spread hxs, leaf_spread hys, List.cons_append, List.cons_eq_cons, true_and,
      List.append_assoc] at h
    obtain ⟨hsame, hrest⟩ := itemLines_legible hm (by simp) (by simp) h
    exact ⟨by simpa using hsame, by simpa using hrest⟩

theorem leaf_legible : Legible Quoteless id (leaf m) := by
  intro l l' r r' hr hr' h
  have hmixed (x : String) (ys : List String) (t u : List Char) :
      m.string x ++ t ≠ leaf m (.texts ys) ++ u := by
    obtain ⟨body, hbody⟩ := exists_leaf_texts m ys
    rw [hbody]
    exact (hm x).append_ne (by decide) t _
  cases l with
  | text x =>
    cases l' with
    | text y =>
      obtain ⟨hxy, hrest⟩ := string_legible hm hr hr' h
      exact ⟨congrArg Leaf.text hxy, hrest⟩
    | texts ys => exact absurd h (hmixed x ys r r')
  | texts xs =>
    cases l' with
    | text y => exact absurd h.symm (hmixed y xs r' r)
    | texts ys =>
      obtain ⟨hxy, hrest⟩ := texts_legible hm trivial trivial h
      exact ⟨congrArg Leaf.texts hxy, hrest⟩

/-! ## Tables -/

theorem line_legible (name : String) : Legible Anything id fun l => line name (leaf m l) := by
  have hvalue := (leaf_legible hm).append_right (Q := Anything) (l := ['\n'])
    fun _ => quoteless_cons (by decide) (by decide) _
  intro l l' r r' _ _ h
  refine hvalue.append_left (name.toList ++ [' ', '=', ' ']) trivial trivial ?_
  simpa [line] using h

/-- **The lines of a table** tell its values, if its names are known. -/
theorem table_inj {t t' : Table} {r r' : List Char} (hnames : t.map Prod.fst = t'.map Prod.fst)
    (h : table m t ++ r = table m t' ++ r') : t = t' ∧ r = r' := by
  induction t generalizing t' with
  | nil =>
    obtain rfl : t' = [] := List.map_eq_nil_iff.1 hnames.symm
    exact ⟨rfl, h⟩
  | cons e t ih =>
    cases t' with
    | nil => cases hnames
    | cons e' t' =>
      obtain ⟨hname, hnames⟩ := List.cons_eq_cons.1 hnames
      simp only [table, List.flatMap_cons, List.append_assoc, hname] at h
      obtain ⟨hvalue, hrest⟩ := line_legible hm e'.1 trivial trivial h
      obtain ⟨rfl, rfl⟩ := ih hnames hrest
      exact ⟨by rw [Prod.ext hname hvalue], rfl⟩

end

/-- A table under a header with an empty line before it. -/
def headed (m : Manner) (name : String) (t : Table) : List Char :=
  ['\n', '[', '['] ++ name.toList ++ [']', ']', '\n'] ++ table m t

theorem entry_tables_cons (m : Manner) (name : String) (t : Table) (ts : List Table) :
    entry m name (.tables (t :: ts)) = (t :: ts).flatMap (headed m name) := rfl

/-- No tables are an empty list behind the name, and some tables begin with an empty line. -/
theorem entry_tables_nil_ne {name : String} (hname : ∀ t, name.toList ≠ '\n' :: t) (m : Manner)
    (t : Table) (ts : List Table) :
    entry m name (.tables []) ≠ entry m name (.tables (t :: ts)) := by
  intro h
  rw [entry_tables_cons] at h
  simp only [entry, line, List.flatMap_cons, headed, List.cons_append, List.nil_append,
    List.append_assoc] at h
  cases hchars : name.toList with
  | nil => simp [hchars] at h
  | cons c r =>
    rw [hchars, List.cons_append] at h
    obtain rfl := (List.cons_eq_cons.1 h).1
    exact hname r hchars

section
variable {m : Manner} (hm : ∀ s, Spelled s.toList (m.string s)) {α : Type} {g : α → Table}
  {name : String}
include hm

theorem headed_legible (hg : ∀ a b, (g a).map Prod.fst = (g b).map Prod.fst) :
    Legible Anything g fun a => headed m name (g a) := by
  intro a b r r' _ _ h
  unfold headed at h
  rw [List.append_assoc, List.append_assoc _ (table m (g b))] at h
  exact table_inj hm (hg a b) (List.append_cancel_left h)

/-- Tables of the same names can be told apart, and none from some. -/
theorem tables_inj (hg : ∀ a b, (g a).map Prod.fst = (g b).map Prod.fst)
    (hname : ∀ t, name.toList ≠ '\n' :: t) {xs ys : List α}
    (h : entry m name (.tables (xs.map g)) = entry m name (.tables (ys.map g))) :
    xs.map g = ys.map g := by
  cases xs with
  | nil =>
    cases ys with
    | nil => rfl
    | cons y ys => exact absurd h (entry_tables_nil_ne hname m _ _)
  | cons x xs =>
    cases ys with
    | nil => exact absurd h.symm (entry_tables_nil_ne hname m _ _)
    | cons y ys =>
      have hall : Legible (· = []) (List.map g) (List.flatMap fun a => headed m name (g a)) := by
        refine (headed_legible hm hg).flatMap (fun _ _ => trivial) (fun _ _ => trivial) ?_
        rintro r rfl a t
        simp [headed]
      refine hall.injective rfl ?_
      rw [List.map_cons, List.map_cons, entry_tables_cons, entry_tables_cons, ← List.map_cons,
        ← List.map_cons, List.flatMap_map, List.flatMap_map] at h
      exact h

end

theorem document_concat (m : Manner) (t : Table) (name : String) (ts : List Table) :
    (document m (t.map (fun m => (m.1, .leaf m.2)) ++ [(name, .tables ts)])).toList =
      table m t ++ entry m name (.tables ts) := by
  rw [document, String.toList_ofList, List.flatMap_append, List.flatMap_map]
  simp [table, entry]

/-! ## The end of a document -/

theorem line_isSuffix (m : Manner) (name : String) (xs : List String) :
    [']', '\n'] <:+ line name (leaf m (.texts xs)) := by
  obtain ⟨body, hbody⟩ := exists_leaf_texts m xs
  exact ⟨name.toList ++ [' ', '=', ' ', '['] ++ body, by simp [line, hbody]⟩

/-- A table ends with a list if that is its last value. -/
theorem table_isSuffix (m : Manner) (t : Table) (name : String) (xs : List String) :
    [']', '\n'] <:+ table m (t ++ [(name, .texts xs)]) := by
  rw [table, List.flatMap_append, List.flatMap_singleton]
  exact List.suffix_append_of_suffix (line_isSuffix m name xs)

/-- Tables end as the last of them does, and no tables are an empty list. -/
theorem entry_tables_isSuffix (m : Manner) (name : String) {ts : List Table}
    (h : ∀ t ∈ ts, [']', '\n'] <:+ table m t) : [']', '\n'] <:+ entry m name (.tables ts) := by
  rcases List.eq_nil_or_concat' ts with rfl | ⟨us, t, rfl⟩
  · exact ⟨name.toList ++ [' ', '=', ' ', '['], by simp [entry, line]⟩
  · have hentry : entry m name (.tables (us ++ [t])) = (us ++ [t]).flatMap (headed m name) := by
      cases us <;> rfl
    rw [hentry, List.flatMap_append, List.flatMap_singleton, headed]
    exact List.suffix_append_of_suffix (List.suffix_append_of_suffix (h t (by simp)))

end PackageConf.Toml
