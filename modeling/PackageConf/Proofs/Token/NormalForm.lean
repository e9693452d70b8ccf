import Mathlib.Data.Set.Function
import PackageConf.Config.Lines
import PackageConf.Proofs.Token.Grammar
/-!
# The normal form of a line

Many lines say the same. One of them is the line that is written for a token (`Token.line`): the
name of a header in brackets, or the name of a key with its words behind it, single spaces between
them. What lines say are the `Normal` tokens: a header whose name can stand in brackets, or a key
whose name is not taken for anything else and whose values are words (`normal_of_ofLine`). Each of
them is said by its own line (`ofLine_line`), so that normal lines and what lines say are the same
thing in two forms (`ofLine_normalForm`).
-/
namespace PackageConf

theorem toList_assignment (name : String) (values : List String) :
    (assignment name (" ".intercalate values)).toList =
      name.toList ++ ' ' :: '=' :: ' ' :: [' '].intercalate (values.map String.toList) := by
  simp [assignment, String.toList_append, String.toList_intercalate]

namespace Token

/-- What can be the name of a key: it ends before the sign, it starts neither as a comment nor as a
header, and there are no blanks around it. It may be empty. -/
structure IsKeyName (s : List Char) : Prop where
  no_sign : '=' ∉ s
  not_hash : s.head? ≠ some '#'
  not_bracket : s.head? ≠ some '['
  first : ∀ c ∈ s.head?, Text.isBlank c = false
  last : ∀ c ∈ s.getLast?, Text.isBlank c = false

/-- A token that a line can have. -/
def Normal : Token → Prop
  | .comment => True
  | .header name => ']' ∉ name.toList
  | .key name values => IsKeyName name.toList ∧ ∀ v ∈ values, Text.IsWord v.toList

/-- The line that is written for a token, nothing for a comment. -/
def line : Token → String
  | .comment => ""
  | .header name => "[" ++ name ++ "]"
  | .key name values => assignment name (" ".intercalate values)

/-- A line in normal form: a header or a key as it is written. -/
inductive NormalLine : String → Prop
  | header {name : String} (hname : ']' ∉ name.toList) : NormalLine ("[" ++ name ++ "]")
  | key {name : String} {values : List String} (hname : IsKeyName name.toList)
    (hvalues : ∀ v ∈ values, Text.IsWord v.toList) :
    NormalLine (name ++ " = " ++ " ".intercalate values)

/-! ## What lines say is normal -/

/-- What stands before the sign of a key is a name once it is trimmed. -/
theorem isKeyName_trim {before after : List Char} (hbare : Bare (before ++ after))
    (hfirst : ∀ c ∈ (before ++ after).head?, Text.isBlank c = false) (hsign : '=' ∉ before) :
    IsKeyName (Text.trim before) := by
  have hhead {c : Char} (hc : (Text.trim before).head? = some c) :
      (before ++ after).head? = some c := by
    have hstart : Text.trimStart before = before := Text.trimStart_eq_self fun d hd =>
      hfirst d (by rw [List.head?_append, Option.mem_def.1 hd]; rfl)
    rw [Text.trim, hstart] at hc
    rw [List.head?_append, Text.trimEnd_prefix_head? hc]
    rfl
  obtain ⟨hstart, hend⟩ := Text.isBlank_ends_trim before
  exact ⟨fun h => hsign (Text.mem_of_mem_trim h), fun h => hbare.not_hash (hhead h),
    fun h => hbare.not_bracket (hhead h), hstart, hend⟩

theorem normal_of_ofLine {text : List Char} {number : Nat} {t : Token}
    (h : ofLine text number = .ok t) : t.Normal := by
  have hsays := ofLine_eq_iff.1 h
  have hends := Text.isBlank_ends_trim text
  generalize Text.trim text = s at hsays hends
  cases hsays with
  | blank => trivial
  | comment rest => trivial
  | header hname hafter => rwa [Normal, String.toList_ofList]
  | key hbare hsign =>
    refine ⟨?_, List.forall_mem_map.2 fun w hw => ?_⟩
    · rw [String.toList_ofList]
      exact isKeyName_trim hbare hends.1 hsign
    · rw [String.toList_ofList]
      exact Text.isWord_of_mem_words hw
  | name hbare hsign =>
    refine ⟨?_, by simp⟩
    rw [String.toList_ofList]
    exact ⟨hsign, hbare.not_hash, hbare.not_bracket, hends.1, hends.2⟩

/-! ## Normal lines say their token -/

theorem ofLine_header {name : String} (h : ']' ∉ name.toList) (number : Nat) :
    ofLine ("[" ++ name ++ "]").toList number = .ok (.header name) := by
  have htext : ("[" ++ name ++ "]").toList = ('[' :: name.toList) ++ [']'] := by
    simp [String.toList_append]
  have htrim : Text.trim ("[" ++ name ++ "]").toList = '[' :: (name.toList ++ [']']) := by
    rw [htext, Text.trim_append_cons _ (by decide)]
    rfl
  have hsays := @Says.header number name.toList [] h rfl
  rw [String.ofList_toList, ← htrim] at hsays
  exact ofLine_of_says hsays

/-- The space between a name and its sign leaves what the name starts with. -/
theorem IsKeyName.bare {name : List Char} (h : IsKeyName name) (after : List Char) :
    Bare (Text.trimStart (name ++ [' ']) ++ '=' :: after) := by
  cases name with
  | nil =>
    have hnil : Text.trimStart [' '] = [] := rfl
    rw [List.nil_append, hnil]
    exact ⟨by simp, by simp, by simp⟩
  | cons c name =>
    have hself : Text.trimStart (c :: name ++ [' ']) = c :: name ++ [' '] :=
      Text.trimStart_eq_self h.first
    rw [hself]
    exact ⟨by simp, h.not_hash, h.not_bracket⟩

/-- A line with a sign is cut there, whatever blanks stand around the sign and at its ends. -/
theorem ofLine_cut {before after : List Char} (hsign : '=' ∉ before)
    (hbare : Bare (Text.trimStart before ++ '=' :: Text.trimEnd after)) (number : Nat) :
    ofLine (before ++ '=' :: after) number =
      .ok (.key (String.ofList (Text.trim before))
        ((Text.words (Text.trimEnd after)).map String.ofList)) := by
  have hstart : '=' ∉ Text.trimStart before := fun h =>
    hsign ((List.dropWhile_suffix Text.isBlank).subset h)
  have hsays := @Says.key number _ _ hbare hstart
  rw [Text.trim_trimStart, ← Text.trim_append_cons before (by decide) after] at hsays
  exact ofLine_of_says hsays

theorem ofLine_assignment {name : String} {values : List String} (hname : IsKeyName name.toList)
    (hvalues : ∀ v ∈ values, Text.IsWord v.toList) (number : Nat) :
    ofLine (assignment name (" ".intercalate values)).toList number = .ok (.key name values) := by
  have htext : (assignment name (" ".intercalate values)).toList =
      (name.toList ++ [' ']) ++ '=' :: ' ' :: [' '].intercalate (values.map String.toList) := by
    rw [toList_assignment, List.append_assoc]
    rfl
  have htrim : Text.trim (name.toList ++ [' ']) = name.toList := by
    rw [Text.trim_append_blank _ Text.isBlank_space, Text.trim_eq_self hname.first hname.last]
  have hwords : ∀ w ∈ values.map String.toList, Text.IsWord w := List.forall_mem_map.2 hvalues
  have hback : (values.map String.toList).map String.ofList = values := by
    simp [List.map_map, Function.comp_def]
  rw [htext, ofLine_cut (by simp [hname.no_sign]) (hname.bare _), htrim,
    Text.words_trimEnd_join hwords, String.ofList_toList, hback]

theorem ofLine_line {t : Token} (h : t.Normal) (number : Nat) :
    ofLine t.line.toList number = .ok t := by
  cases t with
  | comment => rfl
  | header name => exact ofLine_header h number
  | key name values => exact ofLine_assignment h.1 h.2 number

/-! ## Lines and tokens -/

/-- A line is refused if its bracket is not closed, or if something follows the bracket. -/
theorem exists_error_iff {text : List Char} {number : Nat} :
    (∃ e, ofLine text number = .error e) ↔
      ∃ rest, Text.trim text = '[' :: rest ∧ (']' ∉ rest ∨
        ∃ name after, rest = name ++ ']' :: after ∧ ']' ∉ name ∧
          ∃ c ∈ after, Text.isBlank c = false) := by
  constructor
  · rintro ⟨e, h⟩
    have hsays := ofLine_eq_iff.1 h
    generalize Text.trim text = s at hsays
    cases hsays with
    | unclosed hopen => exact ⟨_, rfl, .inl hopen⟩
    | trailing hname hafter =>
      have hblank := mt Text.trim_eq_nil_iff.2 hafter
      exact ⟨_, rfl, .inr ⟨_, _, rfl, hname, by simpa using hblank⟩⟩
  · rintro ⟨rest, ht, hopen | ⟨name, after, rfl, hname, c, hc, hblank⟩⟩
    · exact ⟨.missingBracket number, ofLine_of_says (ht ▸ .unclosed hopen)⟩
    · have hafter : Text.trim after ≠ [] := fun h => by
        rw [Text.trim_eq_nil_iff.1 h c hc] at hblank
        cases hblank
      have hsays := @Says.trailing number _ _ hname hafter
      exact ⟨_, ofLine_of_says (ht ▸ hsays)⟩

/-- The tokens that lines have, comments apart, are written as the normal lines, each as its own. -/
theorem bijOn_line :
    Set.BijOn Token.line {t | t ≠ .comment ∧ ∃ text number, ofLine text number = .ok t}
      {l | NormalLine l} := by
  refine ⟨?mapsTo, ?injOn, ?surjOn⟩
  case mapsTo =>
    rintro t ⟨hne, text, number, h⟩
    have hnormal := normal_of_ofLine h
    cases t with
    | comment => exact absurd rfl hne
    | header name => exact .header hnormal
    | key name values => exact .key hnormal.1 hnormal.2
  case injOn =>
    rintro t ⟨-, text, number, h⟩ t' ⟨-, text', number', h'⟩ hline
    have ht := ofLine_line (normal_of_ofLine h) 0
    rw [hline, ofLine_line (normal_of_ofLine h') 0] at ht
    exact (Except.ok.inj ht).symm
  case surjOn =>
    intro l hl
    cases hl with
    | @header name hname =>
      exact ⟨.header name, ⟨by simp, _, 0, ofLine_header hname 0⟩, rfl⟩
    | @key name values hname hvalues =>
      exact ⟨.key name values, ⟨by simp, _, 0, ofLine_assignment hname hvalues 0⟩, rfl⟩

/-- **Every line has a normal form.** A line is refused exactly if its text, without the blanks at
its ends, opens a bracket that is never closed, or has something that is not blank behind the first
bracket that closes. Otherwise it says a normal token, and the line that is written for the token
says the same. Every normal token is said by its line, whatever the number of the line, and so the
tokens that are no comments and the normal lines correspond one to one. -/
theorem ofLine_normalForm (text : List Char) (number : Nat) :
    ((∃ e, ofLine text number = .error e) ↔
      ∃ rest, Text.trim text = '[' :: rest ∧ (']' ∉ rest ∨
        ∃ name after, rest = name ++ ']' :: after ∧ ']' ∉ name ∧
          ∃ c ∈ after, Text.isBlank c = false)) ∧
    (∀ t, ofLine text number = .ok t → t.Normal ∧ ofLine t.line.toList number = .ok t) ∧
    (∀ t : Token, t.Normal → ofLine t.line.toList number = .ok t) ∧
    Set.BijOn Token.line {t | t ≠ .comment ∧ ∃ text number, ofLine text number = .ok t}
      {l | NormalLine l} := by
  refine ⟨exists_error_iff, fun t h => ?_, fun t h => ofLine_line h number, bijOn_line⟩
  have hnormal := normal_of_ofLine h
  exact ⟨hnormal, ofLine_line hnormal number⟩

/-- A key between blanks of several kinds, with a tabulator in a value and with values that would
be something else at the start of a line. -/
def oddKeyText : List Char := "\t Server  = a\tb  #c= ]\u3000".toList

/-- The odd key has a normal form, and so has a header with a bracket and blanks in its name. -/
theorem ofLine_normalForm_oddKeyText :
    ofLine oddKeyText 7 = .ok (.key "Server" ["a\tb", "#c=", "]"]) ∧
    (Token.key "Server" ["a\tb", "#c=", "]"]).Normal ∧
    ofLine "Server = a\tb #c= ]".toList 7 = .ok (.key "Server" ["a\tb", "#c=", "]"]) ∧
    (Token.header " [x ").Normal ∧
    ofLine "[ [x ]".toList 7 = .ok (.header " [x ") := by
  obtain ⟨-, hsaid, hnormal, -⟩ := ofLine_normalForm oddKeyText 7
  have htoken : ofLine oddKeyText 7 = .ok (.key "Server" ["a\tb", "#c=", "]"]) := by decide
  have hname : (Token.header " [x ").Normal := by
    rw [Normal]
    decide
  obtain ⟨hkey, hline⟩ := hsaid _ htoken
  exact ⟨htoken, hkey, hline, hname, hnormal _ hname⟩

/-- A key may have no name. -/
example : ofLine (Token.key "" []).line.toList 1 = .ok (.key "" []) := by decide

end Token
end PackageConf
