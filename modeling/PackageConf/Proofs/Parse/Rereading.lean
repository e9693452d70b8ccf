import PackageConf.Proofs.Parse.RoundTrip
/-!
# Reading again what was read

What comes out of a run is representable, so each line of its text is written as a token, and
hearing the tokens makes the configuration again. Only one thing can go wrong: a line of the text
may be too long, although no line of any file was. The values of a list stand on one line, over how
many lines and files they were collected; blanks are put around the sign of every key; and a byte
that was no UTF-8 has become a character of three bytes. Then the text is not read, and the first
line that is too long is the error (`parse_render_of_parse`). It is never read as anything else.
-/
namespace PackageConf

def Line.isOverlong (l : List Char) : Bool := maxLength < (Text.encode l).length

/-- How many lines of a text come before the first one that is too long. -/
def firstOverlong? (text : String) : Option Nat :=
  (Text.pieces '\n' text.toList).findIdx? Line.isOverlong

/-! ## Following written lines -/

theorem Line.token_written_of_long {l : String} (hreturn : l.toList.getLast? ≠ some '\r')
    (hlong : isOverlong l.toList = true) (number : Nat) :
    token (written l) number = .error (.lineTooLong number) := by
  refine token_of_long ?_ number
  rw [content_written hreturn]
  exact of_decide_eq_true hlong

/-- A line of text that is not too long says its token to a draft that takes it. -/
theorem Visit.act_written (fs : FileSystem) (limit depth number : Nat) {l : String} {t : Token}
    (h : Line.WrittenAs l t) (hlen : Line.isOverlong l.toList = false) {d d' : Draft}
    (hd : d.hear (some t) = some d') :
    Line.includeValues? (Line.written l) = none ∧
      (Visit.line depth number (Line.written l)).act fs limit d = .ok d' := by
  have htoken : Line.token? (Line.written l) = some t :=
    h.token (Nat.not_lt.1 (of_decide_eq_false hlen))
  have hplain : Line.includeValues? (Line.written l) = none := by
    refine Line.includeValues?_eq_none_iff.2 fun values hvalues => ?_
    rw [htoken, Option.some.injEq] at hvalues
    rw [hvalues, Draft.hear_include] at hd
    cases hd
  refine ⟨hplain, act_eq_ok_iff.2 ⟨fun values hvalues => ?_, ?_⟩⟩
  · rw [hplain] at hvalues
    cases hvalues
  · simpa [said?, hplain, htoken] using hd

/-- Written lines are heard one after the other, up to the first one that is too long. -/
theorem Draft.follow_written (fs : FileSystem) (limit : Nat) {ls : List String} {ts : List Token}
    (h : List.Forall₂ Line.WrittenAs ls ts) {d d' : Draft}
    (hd : (ts.map some).foldlM Draft.hear d = some d') (number : Nat) :
    d.follow fs limit (visits fs limit 0 number (ls.map Line.written)) =
      ((ls.map String.toList).findIdx? Line.isOverlong).elim (.ok d')
        fun i => .error (.lineTooLong (number + i + 1)) := by
  induction h generalizing d number with
  | nil =>
    obtain rfl := Option.some.inj hd
    rw [List.map_nil, visits_nil]
    rfl
  | @cons l t ls ts hl _ ih =>
    rw [List.map_cons, List.foldlM_cons] at hd
    obtain ⟨d₁, ht, hts⟩ := Option.bind_eq_some_iff.1 hd
    rw [List.map_cons, visits_cons, follow, List.map_cons, List.findIdx?_cons]
    cases hlong : Line.isOverlong l.toList with
    | true =>
      have htoken := Line.token_written_of_long hl.not_return hlong (number + 1)
      simp [Visit.act, htoken]
    | false =>
      obtain ⟨hplain, hact⟩ := Visit.act_written fs limit 0 (number + 1) hl hlong ht
      rw [hact, included_eq_nil hplain, List.nil_append]
      dsimp only
      rw [ih hts (number + 1)]
      cases (ls.map String.toList).findIdx? Line.isOverlong with
      | none => rfl
      | some i =>
        have hnumber : number + 1 + i + 1 = number + (i + 1) + 1 := by omega
        simp [hnumber]

theorem firstOverlong?_unlines {ls : List String} (h : ∀ l ∈ ls, '\n' ∉ l.toList) :
    firstOverlong? (Text.unlines ls) = (ls.map String.toList).findIdx? Line.isOverlong := by
  have hempty : Line.isOverlong [] = false := by decide
  rw [firstOverlong?, Line.pieces_unlines h, List.findIdx?_append]
  simp [List.findIdx?_cons, hempty]

/-- A text of written lines is read as what its tokens make, or fails at the first line that is too
long. -/
theorem parse_written (fs : FileSystem) (limit : Nat) {ls : List String} {ts : List Token}
    (h : List.Forall₂ Line.WrittenAs ls ts) {d : Draft}
    (hd : (ts.map some).foldlM Draft.hear {} = some d) :
    parse fs (Text.encode (Text.unlines ls).toList) limit =
      (firstOverlong? (Text.unlines ls)).elim (.ok d.finish)
        fun i => .error (.lineTooLong (i + 1)) := by
  have hboth := h.imp fun _ _ hw => And.intro hw.one_line hw
  have hfeed : ∀ l ∈ ls, '\n' ∉ l.toList := ((List.forall₂_and_left _ _).1 hboth).1
  rw [parse_eq_follow, Line.lines_unlines hfeed, Draft.follow_written fs limit h hd 0,
    firstOverlong?_unlines hfeed]
  cases (ls.map String.toList).findIdx? Line.isOverlong with
  | none => rfl
  | some i => simp [Except.map]

/-- Lines that are written as the tokens of a representable configuration are read as the
configuration, or fail at the first line that is too long. -/
theorem Config.parse_of_writtenAs (fs : FileSystem) (limit : Nat) {c : Config}
    (h : c.Representable) {ls : List String} (hls : List.Forall₂ Line.WrittenAs ls c.tokens) :
    parse fs (Text.encode (Text.unlines ls).toList) limit =
      (firstOverlong? (Text.unlines ls)).elim (.ok c) fun i => .error (.lineTooLong (i + 1)) := by
  obtain ⟨d, hd, hfinish⟩ := exists_foldlM_tokens h
  rw [parse_written fs limit hls hd, hfinish]

theorem Config.parse_render (fs : FileSystem) (limit : Nat) {c : Config} (h : c.Representable) :
    parse fs (Text.encode c.render.toList) limit =
      (firstOverlong? c.render).elim (.ok c) fun i => .error (.lineTooLong (i + 1)) :=
  parse_of_writtenAs fs limit h (writtenAs_lines h)

/-- **What was read is read again, or a line has become too long.** The text of a configuration that
was read, from whatever files, is read as this configuration, whatever the files and the limit are
now; unless a line of the text is too long, and then the first such line is the error. -/
theorem parse_render_of_parse {fs : FileSystem} {limit : Nat} {bytes : Bytes} {c : Config}
    (h : parse fs bytes limit = .ok c) (fs' : FileSystem) (limit' : Nat) :
    parse fs' (Text.encode c.render.toList) limit' =
      (firstOverlong? c.render).elim (.ok c) fun i => .error (.lineTooLong (i + 1)) := by
  obtain ⟨d, hf, rfl⟩ := parse_eq_ok_iff.1 h
  exact Config.parse_render fs' limit' (Draft.representable_of_follow hf).finish

/-! ### A list that is too long for one line -/

def longWord (n : Nat) : String := String.ofList (List.replicate n 'a')

/-- The settings of an empty file, with the word twice in a list. -/
def holdTwice (n : Nat) : Config := { holdPkg := [longWord n, longWord n] }

/-- The word on a line of its own, twice. -/
def holdTwiceText (n : Nat) : Bytes :=
  Text.encode (Text.unlines
    [assignment "HoldPkg" (longWord n), assignment "HoldPkg" (longWord n)]).toList

theorem isValue_longWord {n : Nat} (hn : n ≠ 0) : IsValue (longWord n) := by
  refine isValue_of_isName ⟨?_, fun c hc => ?_⟩
  · simpa [longWord] using hn
  · rw [longWord, String.toList_ofList] at hc
    rw [List.eq_of_mem_replicate hc]
    decide

theorem length_encode_longWord (n : Nat) : (Text.encode (longWord n).toList).length = n := by
  have hsize : 'a'.utf8Size = 1 := by decide
  simp [longWord, Text.encode, List.length_flatMap, hsize]

theorem isOverlong_holdPkg (value : String) :
    Line.isOverlong (assignment "HoldPkg" value).toList =
      decide (4086 < (Text.encode value.toList).length) := by
  have hname : (Text.encode "HoldPkg = ".toList).length = 10 := by decide
  have htext : (assignment "HoldPkg" value).toList = "HoldPkg = ".toList ++ value.toList :=
    String.toList_append
  rw [Line.isOverlong, htext, Text.encode_append, List.length_append, hname, Line.maxLength,
    decide_eq_decide]
  omega

/-- One word on a line is read, up to the longest line there is. -/
theorem parse_holdTwiceText {n : Nat} (hn : n ≠ 0) (hlen : n ≤ 4086) :
    parse (.ofList []) (holdTwiceText n) = .ok (holdTwice n) := by
  have hline : Line.WrittenAs (assignment "HoldPkg" (longWord n)) (.key "HoldPkg" [longWord n]) := by
    have hone := Line.writtenAs_assignment (isName_setting (.list .holdPkg))
      (List.forall_mem_singleton.2 (isValue_longWord hn))
    rwa [String.intercalate_singleton] at hone
  have hshort : Line.isOverlong (assignment "HoldPkg" (longWord n)).toList = false := by
    rw [isOverlong_holdPkg, length_encode_longWord]
    exact decide_eq_false (Nat.not_lt.2 hlen)
  have hfirst : firstOverlong? (Text.unlines
      [assignment "HoldPkg" (longWord n), assignment "HoldPkg" (longWord n)]) = none := by
    rw [firstOverlong?_unlines (by simp [hline.one_line])]
    simp [List.findIdx?_cons, hshort]
  have hheard (c : Config) : Draft.hear { config := c } (some (.key "HoldPkg" [longWord n])) =
      some { config := c.setList .holdPkg (c.holdPkg ++ [longWord n]) } :=
    hear_of_assign (Config.assign_list c 0 .holdPkg [longWord n])
  have hparse := parse_written (.ofList []) defaultIncludeLimit
    (.cons hline (.cons hline .nil)) (d := { config := holdTwice n })
    (by simp only [List.map_cons, List.foldlM_cons, hheard]; rfl)
  rwa [hfirst] at hparse

theorem representable_holdTwice {n : Nat} (hn : n ≠ 0) : (holdTwice n).Representable where
  scalar := Config.representable_default.scalar
  list f v hv := by
    cases f with
    | holdPkg =>
      have hmem : v ∈ [longWord n, longWord n] := hv
      have heq : v = longWord n := by simpa using hmem
      exact heq ▸ isValue_longWord hn
    | _ => cases hv
  flag := Config.representable_default.flag
  level := Config.representable_default.level
  repo r hr := by cases hr

/-- Both words stand on the ninth line, and no other line depends on them. -/
theorem exists_lines_holdTwice (n : Nat) : ∃ before after : List String,
    (holdTwice n).lines =
      before ++ assignment "HoldPkg" (" ".intercalate [longWord n, longWord n]) :: after ∧
    before.length = 8 ∧ (before.map String.toList).findIdx? Line.isOverlong = none ∧
    (after.map String.toList).findIdx? Line.isOverlong = none := by
  have hlists : ListField.all.filter (fun f => (holdTwice n).list f ≠ []) = [.holdPkg] := by
    simp [ListField.all, Config.list, holdTwice]
  have hflags : Flag.all.filter (holdTwice n).flag = [] := by
    have hnone : (holdTwice n).flag = Config.default.flag := rfl
    rw [hnone]
    decide
  refine ⟨"[options]" :: ScalarField.all.map fun f => assignment f.name (Config.default.scalar f),
    LevelField.all.map fun f => assignment f.name (Config.default.level f).text, ?_, rfl,
    by decide +kernel, by decide +kernel⟩
  rw [Config.lines, hlists, hflags]
  rfl

theorem firstOverlong?_holdTwice {n : Nat} (hn : n ≠ 0) :
    firstOverlong? (holdTwice n).render = if 4085 < 2 * n then some 8 else none := by
  have hvalue : (Text.encode (" ".intercalate [longWord n, longWord n]).toList).length =
      2 * n + 1 := by
    have htext : (" ".intercalate [longWord n, longWord n]).toList =
        (longWord n).toList ++ ([' '] ++ (longWord n).toList) := by
      simp
    have hspace : (Text.encode [' ']).length = 1 := by decide
    rw [htext, Text.encode_append, Text.encode_append, List.length_append, List.length_append,
      length_encode_longWord, hspace]
    omega
  have hfeed := fun l hl => (Config.ends_of_mem_lines (representable_holdTwice hn) l hl).1
  obtain ⟨before, after, hlines, hlen, hbefore, hafter⟩ := exists_lines_holdTwice n
  rw [Config.render, firstOverlong?_unlines hfeed, hlines, List.map_append, List.map_cons,
    List.findIdx?_append, hbefore, List.findIdx?_cons, isOverlong_holdPkg, hvalue, hafter]
  by_cases hlong : 4085 < 2 * n
  · have hover : 4086 < 2 * n + 1 := by omega
    simp [hlong, hover, hlen]
  · have hover : ¬ 4086 < 2 * n + 1 := by omega
    simp [hlong, hover]

/-- **Not everything that was read is read again.** Two lines of half the greatest length make one
that is too long. -/
theorem parse_render_holdTwice :
    parse (.ofList []) (holdTwiceText 2048) = .ok (holdTwice 2048) ∧
    parse (.ofList []) (Text.encode (holdTwice 2048).render.toList) ≠ .ok (holdTwice 2048) := by
  have hreread := Config.parse_render (.ofList []) defaultIncludeLimit
    (representable_holdTwice (n := 2048) (by decide))
  refine ⟨parse_holdTwiceText (by decide) (by decide), ?_⟩
  rw [hreread, firstOverlong?_holdTwice (by decide), if_pos (by decide)]
  exact nofun

/-- The longest words with which the text is read; with one letter more in each, the ninth line is
the error. -/
theorem parse_render_of_parse_holdTwice :
    parse (.ofList []) (holdTwiceText 2042) = .ok (holdTwice 2042) ∧
    parse (.ofList []) (Text.encode (holdTwice 2042).render.toList) 0 = .ok (holdTwice 2042) ∧
    parse (.ofList []) (holdTwiceText 2043) = .ok (holdTwice 2043) ∧
    parse (.ofList []) (Text.encode (holdTwice 2043).render.toList) 0 = .error (.lineTooLong 9) := by
  have hshort : parse (.ofList []) (holdTwiceText 2042) = .ok (holdTwice 2042) :=
    parse_holdTwiceText (by decide) (by decide)
  have hlong : parse (.ofList []) (holdTwiceText 2043) = .ok (holdTwice 2043) :=
    parse_holdTwiceText (by decide) (by decide)
  have hread := parse_render_of_parse hshort (.ofList []) 0
  have herror := parse_render_of_parse hlong (.ofList []) 0
  rw [firstOverlong?_holdTwice (by decide), if_neg (by decide)] at hread
  rw [firstOverlong?_holdTwice (by decide), if_pos (by decide)] at herror
  exact ⟨hshort, hread, hlong, herror⟩

end PackageConf
