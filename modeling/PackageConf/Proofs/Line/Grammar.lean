import PackageConf.Line
import PackageConf.Proofs.Token.Grammar
/-!
# The grammar of a line

What a line says is stated here by the shape of its text, apart from the functions that find it
out. A line that is not too long holds a text, its `Reads`. A text in brackets is a header
(`IsHeader`), any other text that does not start with `#` is a key (`IsKey`), and a line is in
error if it is too long, its bracket is not closed, or something follows the bracket.
-/
namespace PackageConf

namespace Line

/-- The line is short enough, and `text` is what it holds between the blanks at its ends. -/
def Reads (line : Bytes) (text : List Char) : Prop :=
  (content line).length ≤ maxLength ∧ Text.trim (Text.decode (content line)) = text

/-- The name stands in brackets, and nothing follows them. -/
def IsHeader (line : Bytes) (name : String) : Prop :=
  ∃ after, Reads line ('[' :: (name.toList ++ ']' :: after)) ∧ ']' ∉ name.toList ∧
    Text.trim after = []

/-- The text of the line is neither empty nor a comment nor a header; it is cut at its first `=`,
and what follows is cut into words. -/
def IsKey (line : Bytes) (name : String) (values : List String) : Prop :=
  ∃ text, Reads line text ∧ text ≠ [] ∧ text.head? ≠ some '#' ∧ text.head? ≠ some '[' ∧
    ((∃ before after, text = before ++ '=' :: after ∧ '=' ∉ before ∧
        name = String.ofList (Text.trim before) ∧
        values = (Text.words after).map String.ofList) ∨
      ('=' ∉ text ∧ name = String.ofList text ∧ values = []))

theorem token_of_long {line : Bytes} (h : maxLength < (content line).length) (number : Nat) :
    token line number = .error (.lineTooLong number) := by
  rw [token, if_pos h]

/-- A line that is short enough says what its text says. -/
theorem token_eq_iff {line : Bytes} (h : (content line).length ≤ maxLength) {number : Nat}
    {r : Except ConfigError Token} :
    token line number = r ↔ Token.Says number (Text.trim (Text.decode (content line))) r := by
  rw [token, if_neg (Nat.not_lt.2 h), Token.ofLine_eq_iff]

theorem token_eq_ok_iff {line : Bytes} {number : Nat} {t : Token} :
    token line number = .ok t ↔ (content line).length ≤ maxLength ∧
      Token.Says number (Text.trim (Text.decode (content line))) (.ok t) := by
  by_cases hlen : (content line).length ≤ maxLength
  · simp [token_eq_iff hlen, hlen]
  · simp [token_of_long (Nat.not_le.1 hlen), hlen]

/-! ## Headers, keys and errors -/

theorem token_eq_header_iff {line : Bytes} {number : Nat} {name : String} :
    token line number = .ok (.header name) ↔ IsHeader line name := by
  rw [token_eq_ok_iff, IsHeader]
  constructor
  · rintro ⟨hlen, h⟩
    generalize ht : Text.trim (Text.decode (content line)) = s at h
    cases h with
    | @header name after hname hafter =>
      rw [String.toList_ofList]
      exact ⟨after, ⟨hlen, ht⟩, hname, hafter⟩
  · rintro ⟨after, ⟨hlen, ht⟩, hname, hafter⟩
    have h := @Token.Says.header number _ _ hname hafter
    rw [String.ofList_toList] at h
    exact ⟨hlen, ht ▸ h⟩

theorem token_eq_key_iff {line : Bytes} {number : Nat} {name : String} {values : List String} :
    token line number = .ok (.key name values) ↔ IsKey line name values := by
  rw [token_eq_ok_iff, IsKey]
  constructor
  · rintro ⟨hlen, h⟩
    generalize ht : Text.trim (Text.decode (content line)) = s at h
    cases h with
    | @key before after hbare hbefore =>
      exact ⟨_, ⟨hlen, ht⟩, hbare.ne_nil, hbare.not_hash, hbare.not_bracket,
        .inl ⟨before, after, rfl, hbefore, rfl, rfl⟩⟩
    | name hbare hsign =>
      exact ⟨s, ⟨hlen, ht⟩, hbare.ne_nil, hbare.not_hash, hbare.not_bracket,
        .inr ⟨hsign, rfl, rfl⟩⟩
  · rintro ⟨text, ⟨hlen, rfl⟩, hne, hhash, hbracket,
      ⟨before, after, ht, hbefore, rfl, rfl⟩ | ⟨hsign, rfl, rfl⟩⟩
    · rw [ht] at hne hhash hbracket ⊢
      exact ⟨hlen, .key ⟨hne, hhash, hbracket⟩ hbefore⟩
    · exact ⟨hlen, .name ⟨hne, hhash, hbracket⟩ hsign⟩

/-- A line without a token is too long, or its header is open, or it goes on after its header. -/
theorem token_eq_error_iff {line : Bytes} {number : Nat} {e : ConfigError} :
    token line number = .error e ↔
      (maxLength < (content line).length ∧ e = .lineTooLong number) ∨
      (∃ rest, Reads line ('[' :: rest) ∧ ']' ∉ rest ∧ e = .missingBracket number) ∨
      ∃ name after, Reads line ('[' :: (name ++ ']' :: after)) ∧ ']' ∉ name ∧
        Text.trim after ≠ [] ∧ e = .trailingCharacters number
          (String.ofList (Text.trim after)) (String.ofList name) := by
  constructor
  · intro h
    by_cases hlong : maxLength < (content line).length
    · rw [token_of_long hlong] at h
      exact .inl ⟨hlong, (Except.error.inj h).symm⟩
    have hlen := Nat.not_lt.1 hlong
    rw [token_eq_iff hlen] at h
    generalize ht : Text.trim (Text.decode (content line)) = s at h
    cases h with
    | unclosed hopen => exact .inr (.inl ⟨_, ⟨hlen, ht⟩, hopen, rfl⟩)
    | trailing hname hafter => exact .inr (.inr ⟨_, _, ⟨hlen, ht⟩, hname, hafter, rfl⟩)
  · rintro (⟨hlong, rfl⟩ | ⟨rest, ⟨hlen, ht⟩, hopen, rfl⟩ |
      ⟨name, after, ⟨hlen, ht⟩, hname, hafter, rfl⟩)
    · exact token_of_long hlong number
    · exact (token_eq_iff hlen).2 (ht ▸ .unclosed hopen)
    · exact (token_eq_iff hlen).2 (ht ▸ .trailing hname hafter)

end Line
end PackageConf
