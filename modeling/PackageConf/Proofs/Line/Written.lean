import Mathlib
import PackageConf.Proofs.Config.Representable
import PackageConf.Proofs.Parse.Follow
import PackageConf.Proofs.Text.Utf8
import PackageConf.Proofs.Token.NormalForm
/-!
# Lines as they are written

A text of lines is written as bytes and taken apart again. Nothing is lost as long as no line
holds a line feed or ends with a carriage return, and then the content of each line is the line.
`WrittenAs l t` says that `l` is such a line and that its token is `t` if it is not too long. Lines
in normal form are written so (`writtenAs_line`): a blank line, a section name in brackets and a
name with words. A name alone is written so as well.
-/
namespace PackageConf

/-- A word of letters. The names of all keys are such words. -/
def IsName (s : List Char) : Prop := s ≠ [] ∧ ∀ c ∈ s, c.isAlpha = true

instance (s : List Char) : Decidable (IsName s) :=
  decidable_of_iff (s ≠ [] ∧ s.all Char.isAlpha = true) (and_congr_right fun _ => List.all_eq_true)

theorem isName_setting (x : Setting) : IsName x.name.toList := by
  rcases x with f | f | f | f <;> cases f <;> decide

theorem isName_token (c : Clause) : IsName c.token.toList := by
  rcases c with ⟨t, d⟩
  cases t <;> cases d <;> decide

namespace Text

theorem isBlank_of_isAlpha {c : Char} (h : c.isAlpha = true) : isBlank c = false := by
  have hrange : (0x41 ≤ c.toNat ∧ c.toNat ≤ 0x5A) ∨ (0x61 ≤ c.toNat ∧ c.toNat ≤ 0x7A) := by
    simpa [Char.isAlpha, Char.isUpper, Char.isLower, UInt32.le_iff_toNat_le] using h
  simp only [isBlank, Bool.or_eq_false_iff, Bool.and_eq_false_iff, decide_eq_false_iff_not,
    beq_eq_false_iff_ne]
  omega

end Text

namespace IsName

theorem isBlank {s : List Char} (h : IsName s) {c : Char} (hc : c ∈ s) : Text.isBlank c = false :=
  Text.isBlank_of_isAlpha (h.2 c hc)

theorem not_mem {s : List Char} (h : IsName s) {d : Char} (hd : d.isAlpha = false) : d ∉ s := by
  intro hmem
  rw [h.2 d hmem] at hd
  cases hd

theorem isWord {s : List Char} (h : IsName s) : Text.IsWord s where
  ne_nil := h.1
  no_space := h.not_mem (by decide)
  first c hc := h.isBlank (List.mem_of_head? hc)
  last c hc := h.isBlank (List.mem_of_getLast? hc)

theorem isKeyName {s : List Char} (h : IsName s) : Token.IsKeyName s where
  no_sign := h.not_mem (by decide)
  not_hash hh := h.not_mem (by decide) (List.mem_of_head? hh)
  not_bracket hh := h.not_mem (by decide) (List.mem_of_head? hh)
  first := h.isWord.first
  last := h.isWord.last

end IsName

theorem isValue_of_isName {s : String} (h : IsName s.toList) : IsValue s :=
  ⟨h.isWord, h.not_mem (by decide)⟩

namespace Line

def written (l : String) : Bytes := Text.encode l.toList ++ [0x0A]

/-- A text of lines that hold no line feed has these lines. -/
theorem lines_unlines {ls : List String} (h : ∀ l ∈ ls, '\n' ∉ l.toList) :
    lines (Text.encode (Text.unlines ls).toList) = ls.map written := by
  induction ls with
  | nil => rfl
  | cons l ls ih =>
    obtain ⟨hl, hls⟩ := List.forall_mem_cons.1 h
    have hbytes : Text.encode (Text.unlines (l :: ls)).toList =
        Text.encode l.toList ++ 0x0A :: Text.encode (Text.unlines ls).toList := by
      simp only [Text.unlines, String.toList_ofList, List.flatMap_cons, Text.encode_append,
        List.append_assoc]
      rfl
    rw [hbytes, lines_feed (Text.feed_not_mem_encode hl), ih hls]
    rfl

theorem pieces_unlines {ls : List String} (h : ∀ l ∈ ls, '\n' ∉ l.toList) :
    Text.pieces '\n' (Text.unlines ls).toList = ls.map String.toList ++ [[]] := by
  induction ls with
  | nil => rfl
  | cons l ls ih =>
    obtain ⟨hl, hls⟩ := List.forall_mem_cons.1 h
    have htext : (Text.unlines (l :: ls)).toList =
        l.toList ++ '\n' :: (Text.unlines ls).toList := by
      simp [Text.unlines]
    rw [htext, Text.pieces_append hl, ih hls]
    rfl

theorem content_written {l : String} (h : l.toList.getLast? ≠ some '\r') :
    content (written l) = Text.encode l.toList := by
  refine content_feed_eq_self fun hlast => h ?_
  exact Text.getLast?_encode (by decide) hlast

theorem token_written {l : String} (h : l.toList.getLast? ≠ some '\r')
    (hlen : (Text.encode l.toList).length ≤ maxLength) (number : Nat) :
    token (written l) number = Token.ofLine l.toList number := by
  rw [token, content_written h, if_neg (Nat.not_lt.2 hlen), Text.decode_encode]

/-- The line is one line, does not end with a carriage return, and has the token `t` unless it is
too long. -/
structure WrittenAs (l : String) (t : Token) : Prop where
  one_line : '\n' ∉ l.toList
  not_return : l.toList.getLast? ≠ some '\r'
  token : (Text.encode l.toList).length ≤ maxLength → token? (written l) = some t

/-- A normal line ends neither with a carriage return nor with any other blank but a space. -/
theorem getLast?_line {t : Token} (h : t.Normal) :
    ∀ c ∈ t.line.toList.getLast?, c = ' ' ∨ Text.isBlank c = false := by
  intro c hc
  cases t with
  | comment => cases hc
  | header name =>
    obtain rfl : ']' = c := by
      simpa [Token.line, String.toList_append, List.getLast?_cons] using hc
    exact .inr rfl
  | key name values =>
    rw [Token.line, toList_assignment] at hc
    by_cases hnil : values = []
    · subst hnil
      exact .inl (by simpa using hc.symm)
    · have hwords : ∀ w ∈ values.map String.toList, Text.IsWord w := List.forall_mem_map.2 h.2
      have hjoin := Text.join_ne_nil hwords (by simpa using hnil)
      refine .inr (Text.isBlank_last_join hwords c ?_)
      simpa [List.getLast?_append, List.getLast?_cons,
        List.getLast?_eq_some_getLast hjoin] using hc

/-- A normal token is written as its line, if that is one line. -/
theorem writtenAs_line {t : Token} (h : t.Normal) (hline : '\n' ∉ t.line.toList) :
    WrittenAs t.line t := by
  have hreturn : t.line.toList.getLast? ≠ some '\r' := fun hlast => by
    rcases getLast?_line h _ hlast with hspace | hblank
    · revert hspace
      decide
    · revert hblank
      decide
  refine ⟨hline, hreturn, fun hlen => ?_⟩
  rw [token?_eq_some_iff 0, token_written hreturn hlen]
  exact Token.ofLine_line h 0

theorem writtenAs_blank : WrittenAs "" .comment :=
  writtenAs_line (t := .comment) trivial (by simp [Token.line])

theorem writtenAs_header {name : String} (hclosed : ']' ∉ name.toList)
    (hline : '\n' ∉ name.toList) : WrittenAs ("[" ++ name ++ "]") (.header name) :=
  writtenAs_line (t := .header name) hclosed (by simp [Token.line, String.toList_append, hline])

theorem writtenAs_assignment {name : String} (h : IsName name.toList) {values : List String}
    (hvalues : ∀ v ∈ values, IsValue v) :
    WrittenAs (assignment name (" ".intercalate values)) (.key name values) := by
  refine writtenAs_line (t := .key name values) ⟨h.isKeyName, fun v hv => (hvalues v hv).1⟩ ?_
  have hfeed : ∀ w ∈ values.map String.toList, '\n' ∉ w :=
    List.forall_mem_map.2 fun v hv => (hvalues v hv).2
  rw [Token.line, toList_assignment]
  simp [h.not_mem (d := '\n') (by decide), Text.not_mem_join (by decide) hfeed]

/-- A name alone. It is not in normal form, which has a sign. -/
theorem writtenAs_name {name : String} (h : IsName name.toList) :
    WrittenAs name (.key name []) := by
  have hlast : name.toList.getLast? ≠ some '\r' := fun hl =>
    h.not_mem (by decide) (List.mem_of_getLast? hl)
  have hkey := h.isKeyName
  refine ⟨h.not_mem (by decide), hlast, fun hlen => ?_⟩
  rw [token?_eq_some_iff 0, token_written hlast hlen]
  have hsays := @Token.Says.name 0 _ ⟨h.1, hkey.not_hash, hkey.not_bracket⟩ hkey.no_sign
  rw [String.ofList_toList, ← h.isWord.trim_eq] at hsays
  exact Token.ofLine_of_says hsays

end Line
end PackageConf
