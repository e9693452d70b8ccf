import PackageConf.Proofs.Text.Words
import PackageConf.Token
/-!
# The grammar of a text

`Says number s r` states what a text `s` without blanks at its ends says as line `number`, by the
shape of the text and apart from the functions that find it out: nothing and a text that starts
with `#` are comments, a text that starts with `[` is a header or refused, and any other text is a
key. Reading a line is this relation (`ofLine_eq_iff`), so what a line says is found by cases on it.
-/
namespace PackageConf

/-- A text has a first `d`, or none. -/
theorem Text.cases_first (d : Char) (s : List Char) :
    d ∉ s ∨ ∃ before after, s = before ++ d :: after ∧ d ∉ before := by
  cases h : Text.cutFirst d s with
  | none => exact .inl (Text.cutFirst_eq_none_iff.1 h)
  | some p => exact .inr ⟨p.1, p.2, Text.cutFirst_eq_some_iff.1 h⟩

namespace Token

/-- There is a text, and it starts neither as a comment nor as a header. -/
structure Bare (s : List Char) : Prop where
  ne_nil : s ≠ []
  not_hash : s.head? ≠ some '#'
  not_bracket : s.head? ≠ some '['

/-- What a text without blanks at its ends says as line `number`. -/
inductive Says (number : Nat) : List Char → Except ConfigError Token → Prop
  | blank : Says number [] (.ok .comment)
  | comment (rest : List Char) : Says number ('#' :: rest) (.ok .comment)
  | header {name after : List Char} (hname : ']' ∉ name) (hafter : Text.trim after = []) :
    Says number ('[' :: (name ++ ']' :: after)) (.ok (.header (String.ofList name)))
  | unclosed {rest : List Char} (h : ']' ∉ rest) :
    Says number ('[' :: rest) (.error (.missingBracket number))
  | trailing {name after : List Char} (hname : ']' ∉ name) (hafter : Text.trim after ≠ []) :
    Says number ('[' :: (name ++ ']' :: after)) (.error (.trailingCharacters number
      (String.ofList (Text.trim after)) (String.ofList name)))
  | key {before after : List Char} (hbare : Bare (before ++ '=' :: after)) (h : '=' ∉ before) :
    Says number (before ++ '=' :: after)
      (.ok (.key (String.ofList (Text.trim before)) ((Text.words after).map String.ofList)))
  | name {s : List Char} (hbare : Bare s) (h : '=' ∉ s) :
    Says number s (.ok (.key (String.ofList s) []))

theorem says_ofBracket (rest : List Char) (number : Nat) :
    Says number ('[' :: rest) (ofBracket rest number) := by
  rcases Text.cases_first ']' rest with hopen | ⟨name, after, rfl, hname⟩
  · rw [ofBracket, Text.cutFirst_eq_none_iff.2 hopen]
    exact .unclosed hopen
  · rw [ofBracket, Text.cutFirst_eq_some_iff.2 ⟨rfl, hname⟩]
    by_cases hafter : Text.trim after = []
    · simpa only [if_pos hafter] using .header hname hafter
    · simpa only [if_neg hafter] using .trailing hname hafter

theorem says_ofKey {s : List Char} (h : Bare s) (number : Nat) : Says number s (.ok (ofKey s)) := by
  rcases Text.cases_first '=' s with hnone | ⟨before, after, rfl, hbefore⟩
  · rw [ofKey, Text.cutFirst_eq_none_iff.2 hnone]
    exact .name h hnone
  · rw [ofKey, Text.cutFirst_eq_some_iff.2 ⟨rfl, hbefore⟩]
    exact .key h hbefore

/-- Every line says what the grammar gives for it. -/
theorem says_ofLine (text : List Char) (number : Nat) :
    Says number (Text.trim text) (ofLine text number) := by
  unfold ofLine
  generalize Text.trim text = s
  split
  · exact .blank
  · exact .comment _
  · exact says_ofBracket _ number
  · next hne hhash hbracket =>
    refine says_ofKey ⟨fun h => hne h, fun h => ?_, fun h => ?_⟩ number
    · obtain ⟨rest, rfl⟩ := List.head?_eq_some_iff.1 h
      exact hhash rest rfl
    · obtain ⟨rest, rfl⟩ := List.head?_eq_some_iff.1 h
      exact hbracket rest rfl

theorem ofLine_of_bare {text : List Char} (h : Bare (Text.trim text)) (number : Nat) :
    ofLine text number = .ok (ofKey (Text.trim text)) := by
  unfold ofLine
  generalize Text.trim text = s at h
  split
  · exact absurd rfl h.ne_nil
  · exact absurd rfl h.not_hash
  · exact absurd rfl h.not_bracket
  · rfl

/-- The grammar gives nothing but what the line says. -/
theorem ofLine_of_says {text : List Char} {number : Nat} {r : Except ConfigError Token}
    (h : Says number (Text.trim text) r) : ofLine text number = r := by
  generalize ht : Text.trim text = s at h
  cases h with
  | blank => rw [ofLine, ht]
  | comment rest =>
    rw [ofLine, ht]
    rfl
  | header hname hafter =>
    rw [ofLine, ht]
    simp only [ofBracket, Text.cutFirst_eq_some_iff.2 ⟨rfl, hname⟩, if_pos hafter]
  | unclosed hopen =>
    rw [ofLine, ht]
    simp only [ofBracket, Text.cutFirst_eq_none_iff.2 hopen]
  | trailing hname hafter =>
    rw [ofLine, ht]
    simp only [ofBracket, Text.cutFirst_eq_some_iff.2 ⟨rfl, hname⟩, if_neg hafter]
  | key hbare hbefore =>
    rw [ofLine_of_bare (ht ▸ hbare), ht, ofKey, Text.cutFirst_eq_some_iff.2 ⟨rfl, hbefore⟩]
  | name hbare hsign =>
    rw [ofLine_of_bare (ht ▸ hbare), ht, ofKey, Text.cutFirst_eq_none_iff.2 hsign]

/-- **Reading a line is the grammar.** -/
theorem ofLine_eq_iff {text : List Char} {number : Nat} {r : Except ConfigError Token} :
    ofLine text number = r ↔ Says number (Text.trim text) r :=
  ⟨fun h => h ▸ says_ofLine text number, ofLine_of_says⟩

theorem ofLine_congr {s s' : List Char} (h : Text.trim s = Text.trim s') (number : Nat) :
    ofLine s number = ofLine s' number := by
  rw [ofLine_eq_iff, h, ← ofLine_eq_iff]

/-- The number of a line matters to the errors alone. -/
theorem Says.renumber {number : Nat} {s : List Char} {t : Token} (h : Says number s (.ok t))
    (number' : Nat) : Says number' s (.ok t) := by
  cases h with
  | blank => exact .blank
  | comment rest => exact .comment rest
  | header hname hafter => exact .header hname hafter
  | key hbare hbefore => exact .key hbare hbefore
  | name hbare hsign => exact .name hbare hsign

end Token
end PackageConf
