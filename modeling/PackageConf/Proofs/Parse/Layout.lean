import Mathlib
import PackageConf.Proofs.Parse.Follow
import PackageConf.Proofs.Text.Utf8
import PackageConf.Proofs.Token.Grammar
/-!
# Layout

How a text is laid out does not count: whether its lines end with a carriage return or not, what
its comments and blank lines hold, and which blanks stand around a line. Lines are compared by
their tokens. Two texts whose lines are pairwise `Alike` make the same run, with the same errors in
the same lines (`parse_congr`), and a line that is a remark can be any other (`parse_remark`).

A line is taken out of a text by its `Place`. The last line of a text may have no line end, and if
it is empty as well then it is no line at all, which is why a remark may stand where there was none.
-/
namespace PackageConf

/-! ## Lines that are read alike -/

namespace Line

/-- Lines that have the same token, or the same error, wherever they stand. -/
def Alike (line line' : Bytes) : Prop := ∀ number, token line number = token line' number

theorem Alike.includeValues?_eq {line line' : Bytes} (h : Alike line line') :
    includeValues? line = includeValues? line' := by
  rw [includeValues?, includeValues?, h 0]

theorem Alike.target?_eq {line line' : Bytes} (h : Alike line line') (fs : FileSystem) :
    target? fs line = target? fs line' := by
  rw [target?, target?, h.includeValues?_eq]

end Line

theorem included_congr {line line' : Bytes} (h : Line.Alike line line') (fs : FileSystem)
    (limit depth : Nat) : included fs limit depth line = included fs limit depth line' := by
  rw [included, included, h.target?_eq]

/-- Visits of lines that are read alike do the same. -/
theorem Draft.follow_congr (fs : FileSystem) (limit depth number : Nat) {ls ls' : List Bytes}
    (h : List.Forall₂ Line.Alike ls ls') (d : Draft) :
    d.follow fs limit (visits fs limit depth number ls) =
      d.follow fs limit (visits fs limit depth number ls') := by
  induction h generalizing number d with
  | nil => rfl
  | @cons line line' ls ls' hline _ ih =>
    have hact : Visit.act fs limit d (.line depth (number + 1) line) =
        Visit.act fs limit d (.line depth (number + 1) line') := by
      rw [Visit.act, Visit.act, hline]
    rw [visits_cons, visits_cons, follow, follow, hact, included_congr hline]
    cases Visit.act fs limit d (.line depth (number + 1) line') with
    | error e => rfl
    | ok d' =>
      dsimp only
      rw [follow_append, follow_append]
      cases d'.follow fs limit (included fs limit depth line') with
      | error e => rfl
      | ok d'' => exact ih (number + 1) d''

theorem parse_congr (fs : FileSystem) (limit : Nat) {x y : Bytes}
    (h : List.Forall₂ Line.Alike (Line.lines x) (Line.lines y)) :
    parse fs x limit = parse fs y limit := by
  rw [parse_eq_follow, parse_eq_follow, Draft.follow_congr fs limit 0 0 h]

/-! ## Line ends -/

/-- The text with a carriage return before every line feed. -/
def withReturns (bytes : Bytes) : Bytes :=
  bytes.flatMap fun b => if b = 0x0A then [0x0D, 0x0A] else [b]

theorem withReturns_eq_self {body : Bytes} (h : 0x0A ∉ body) : withReturns body = body := by
  induction body with
  | nil => rfl
  | cons b body ih =>
    simp only [List.mem_cons, not_or] at h
    rw [withReturns, List.flatMap_cons, if_neg (Ne.symm h.1), ← withReturns, ih h.2]
    rfl

theorem withReturns_feed {body : Bytes} (h : 0x0A ∉ body) (rest : Bytes) :
    withReturns (body ++ 0x0A :: rest) = (body ++ [0x0D]) ++ 0x0A :: withReturns rest := by
  have hbody : (body.flatMap fun b => if b = 0x0A then [0x0D, 0x0A] else [b]) = body :=
    withReturns_eq_self h
  rw [withReturns, List.flatMap_append, List.flatMap_cons, hbody, if_pos rfl, ← withReturns]
  simp

namespace Line

theorem alike_refl (ls : List Bytes) : List.Forall₂ Alike ls ls :=
  List.forall₂_same.2 fun _ _ _ => rfl

theorem alike_of_content {line line' : Bytes} (h : content line = content line') :
    Alike line line' := by
  intro number
  rw [token, token, h]

theorem content_return_feed (body : Bytes) : content (body ++ [0x0D] ++ [0x0A]) = body := by
  simp [content]

/-- Where there is no carriage return, each line is read alike with one. -/
theorem alike_withReturns {bytes : Bytes} (h : 0x0D ∉ bytes) :
    List.Forall₂ Alike (lines (withReturns bytes)) (lines bytes) := by
  induction bytes using lines_induction with
  | nil => exact .nil
  | unended body hbody hne =>
    rw [withReturns_eq_self hbody]
    exact alike_refl _
  | ended body rest hbody ih =>
    simp only [List.mem_append, List.mem_cons, not_or] at h
    have hlast : body.getLast? ≠ some 0x0D := fun hl => h.1 (List.mem_of_getLast? hl)
    have hreturn : 0x0A ∉ body ++ [0x0D] := by simpa using hbody
    rw [withReturns_feed hbody, lines_feed hreturn, lines_feed hbody]
    refine .cons (alike_of_content ?_) (ih h.2.2)
    rw [content_return_feed, content_feed_eq_self hlast]

/-! ## The place of a line -/

/-- What a line may hold: no line feed, and not too much. -/
structure Fits (held : Bytes) : Prop where
  feed_not_mem : 0x0A ∉ held
  length_le : held.length ≤ maxLength

/-- What a line may hold that is blank or a comment. -/
structure Remark (held : Bytes) : Prop extends Fits held where
  first : ∀ c ∈ (Text.trimStart (Text.decode held)).head?, c = '#'

/-- A text but for what one line of it holds: what stands before the line, how the line ends, and
what stands after it. -/
structure Place where
  before : Bytes
  stop : Bytes
  after : Bytes
  closed : Closed before
  ends : stop = [0x0A] ∨ stop = [0x0D] ++ [0x0A] ∨ stop = [] ∧ after = []

def Place.fill (p : Place) (held : Bytes) : Bytes := p.before ++ (held ++ p.stop ++ p.after)

/-- Every line of every text has its place. -/
theorem exists_place {bytes line : Bytes} {before after : List Bytes}
    (h : lines bytes = before ++ line :: after) :
    ∃ p : Place, p.before = before.flatten ∧ p.fill (content line) = bytes := by
  induction before generalizing bytes with
  | nil =>
    obtain (rfl | ⟨body, hbody, hne, rfl⟩) | ⟨body, more, hbody, rfl⟩ := cases_line bytes
    · cases h
    · obtain ⟨rfl, -⟩ := List.cons.inj ((lines_open hbody hne).symm.trans h)
      exact ⟨⟨[], [], [], closed_nil, .inr (.inr ⟨rfl, rfl⟩)⟩, rfl,
        by simp [Place.fill, content_open hbody]⟩
    · obtain ⟨rfl, -⟩ := List.cons.inj ((lines_feed hbody more).symm.trans h)
      rcases content_feed body with hc | hc
      · exact ⟨⟨[], [0x0A], more, closed_nil, .inl rfl⟩, rfl, by simp [Place.fill, hc]⟩
      · refine ⟨⟨[], [0x0D] ++ [0x0A], more, closed_nil, .inr (.inl rfl)⟩, rfl, ?_⟩
        rw [Place.fill, List.nil_append, ← List.append_assoc, ← hc]
        simp
  | cons l before ih =>
    obtain ⟨hend, more, hmore, -⟩ := exists_lines_rest h
    obtain ⟨p, hbefore, hfill⟩ := ih hmore
    have hl : Closed l := hend.resolve_left (by simp)
    have hbytes : bytes = l ++ more := by
      rw [← flatten_lines bytes, ← flatten_lines more, h, hmore]
      rfl
    refine ⟨⟨l ++ p.before, p.stop, p.after, hl.append p.closed, p.ends⟩, ?_, ?_⟩
    · exact congrArg (l ++ ·) hbefore
    · rw [hbytes, ← hfill, Place.fill, Place.fill, List.append_assoc]

theorem Place.lines_fill (p : Place) {held : Bytes} (h : 0x0A ∉ held) (hne : held ++ p.stop ≠ []) :
    lines (p.fill held) = lines p.before ++ (held ++ p.stop) :: lines p.after := by
  rw [fill, lines_append p.closed]
  rcases p.ends with hstop | hstop | ⟨hstop, hafter⟩
  · rw [hstop, List.append_assoc, List.singleton_append, lines_feed h]
  · have hreturn : 0x0A ∉ held ++ [0x0D] := by simpa using h
    rw [hstop, ← List.append_assoc, List.append_assoc, List.singleton_append, lines_feed hreturn]
  · rw [hstop, List.append_nil] at hne ⊢
    rw [hafter, List.append_nil, lines_open h hne, lines_nil]

/-- There may be no line in the place, at the end of the text. -/
theorem Place.fill_of_nil (p : Place) {held : Bytes} (h : held ++ p.stop = []) :
    p.fill held = p.before ∧ p.after = [] := by
  have hstop : p.stop = [] := (List.append_eq_nil_iff.1 h).2
  have hafter : p.after = [] := by
    rcases p.ends with hs | hs | hs
    · simp [hs] at hstop
    · simp [hs] at hstop
    · exact hs.2
  exact ⟨by rw [fill, h, hafter, List.append_nil, List.append_nil], hafter⟩

end Line

/-! ## What a line holds -/

theorem Token.ofLine_of_first {s : List Char} (h : ∀ c ∈ (Text.trimStart s).head?, c = '#')
    (line : Nat) : ofLine s line = .ok .comment := by
  refine ofLine_of_says ?_
  cases htrim : Text.trim s with
  | nil => exact .blank
  | cons c rest =>
    obtain rfl : c = '#' := h c (Text.trimEnd_prefix_head? (by rw [← Text.trim, htrim]; rfl))
    exact .comment rest

namespace Line

/-- A line says what it holds. Where that ends in a carriage return which the line end swallows, it
is a blank less. -/
theorem Place.token (p : Place) {held : Bytes} (h : Fits held) (number : Nat) :
    Line.token (held ++ p.stop) number = Token.ofLine (Text.decode held) number := by
  have hfits : ¬ maxLength < held.length := Nat.not_lt.2 h.length_le
  rcases p.ends with hstop | hstop | ⟨hstop, -⟩
  · rw [hstop]
    rcases content_feed held with hc | hc
    · rw [Line.token, hc, if_neg hfits]
    · have hlength : ¬ maxLength < (content (held ++ [0x0A])).length := by
        have := congrArg List.length hc
        rw [List.length_append] at this
        omega
      have hdecode : Text.decode held = Text.decode (content (held ++ [0x0A])) ++ ['\r'] := by
        conv => lhs; rw [hc]
        exact Text.decode_ascii (by decide) _ []
      have hblank : ∀ c ∈ ['\r'], Text.isBlank c = true := List.forall_mem_singleton.2 rfl
      rw [Line.token, if_neg hlength, hdecode]
      exact Token.ofLine_congr (Text.trim_append_blank _ hblank).symm number
  · rw [hstop, ← List.append_assoc, Line.token, content_return_feed, if_neg hfits]
  · rw [hstop, List.append_nil, Line.token, content_open h.feed_not_mem, if_neg hfits]

theorem Remark.token? {held : Bytes} (h : Remark held) (p : Place) :
    Line.token? (held ++ p.stop) = some .comment := by
  rw [token?_eq_some_iff 0, p.token h.toFits, Token.ofLine_of_first h.first]

theorem remark_nil : Remark [] := ⟨⟨by simp, by simp⟩, by simp [Text.trimStart]⟩

theorem remark_blank {w : List Char} (hfits : Fits (Text.encode w))
    (hw : ∀ c ∈ w, Text.isBlank c = true) : Remark (Text.encode w) where
  toFits := hfits
  first := by
    rw [Text.decode_encode, Text.trimStart_eq_nil_iff.2 hw]
    simp

/-- Any bytes behind a hash are a remark, and blanks may stand in front. -/
theorem remark_hash {w : List Char} {bytes : Bytes} (hfits : Fits (Text.encode w ++ 0x23 :: bytes))
    (hw : ∀ c ∈ w, Text.isBlank c = true) : Remark (Text.encode w ++ 0x23 :: bytes) where
  toFits := hfits
  first := by
    have hdecode : Text.decode (0x23 :: bytes) = '#' :: Text.decode bytes :=
      Text.decode_ascii (by decide) [] bytes
    rw [Text.decode_encode_append, Text.trimStart_blank_append hw, hdecode]
    simp [Text.trimStart, Text.isBlank]

end Line

/-- A text with a remark is read like what stands before it and then what stands after it. -/
theorem Draft.follow_remark (fs : FileSystem) (limit : Nat) (p : Line.Place) {held : Bytes}
    (h : Line.Remark held) (d : Draft) :
    d.follow fs limit (visits fs limit 0 0 (Line.lines (p.fill held))) =
      d.follow fs limit (visits fs limit 0 0 (Line.lines p.before) ++
        visits fs limit 0 ((Line.lines p.before).length + 1) (Line.lines p.after)) := by
  by_cases hne : held ++ p.stop = []
  · obtain ⟨hfill, hafter⟩ := p.fill_of_nil hne
    rw [hfill, hafter, Line.lines_nil, visits_nil, List.append_nil]
  · have hcomment (d : Draft) := Draft.follow_comments fs limit 0 (Line.lines p.before).length
      (List.forall_mem_singleton.2 (h.token? p)) d
    rw [p.lines_fill h.feed_not_mem hne, ← List.singleton_append, visits_append, visits_append,
      Nat.zero_add, List.length_singleton, follow_append, follow_append]
    cases d.follow fs limit (visits fs limit 0 0 (Line.lines p.before)) with
    | error e => rfl
    | ok d' =>
      dsimp only
      rw [follow_append, hcomment]

theorem parse_remark (fs : FileSystem) (limit : Nat) (p : Line.Place) {held held' : Bytes}
    (h : Line.Remark held) (h' : Line.Remark held') :
    parse fs (p.fill held') limit = parse fs (p.fill held) limit := by
  rw [parse_eq_follow, parse_eq_follow, Draft.follow_remark fs limit p h,
    Draft.follow_remark fs limit p h']

/-- Blanks may stand around what a line holds. -/
theorem parse_blank (fs : FileSystem) (limit : Nat) (p : Line.Place) {held : Bytes}
    {w w' : List Char} (hw : ∀ c ∈ w, Text.isBlank c = true) (hw' : ∀ c ∈ w', Text.isBlank c = true)
    (h : Line.Fits (Text.encode w ++ held ++ Text.encode w')) :
    parse fs (p.fill (Text.encode w ++ held ++ Text.encode w')) limit =
      parse fs (p.fill held) limit := by
  by_cases hheld : held = []
  · subst hheld
    rw [List.append_nil, ← Text.encode_append] at h ⊢
    exact parse_remark fs limit p Line.remark_nil (Line.remark_blank h fun c hc =>
      (List.mem_append.1 hc).elim (hw c) (hw' c))
  · have hfits : Line.Fits held := by
      refine ⟨fun hmem => h.feed_not_mem (by simp [hmem]), Nat.le_trans ?_ h.length_le⟩
      simp only [List.length_append]
      omega
    rw [parse_eq_follow, parse_eq_follow]
    refine congrArg _ (Draft.follow_congr fs limit 0 0 ?_ _)
    rw [p.lines_fill h.feed_not_mem (by simp [hheld]),
      p.lines_fill hfits.feed_not_mem (by simp [hheld])]
    refine List.rel_append (Line.alike_refl _) (.cons (fun number => ?_) (Line.alike_refl _))
    rw [p.token h, p.token hfits, Text.decode_append_encode, Text.decode_encode_append]
    refine Token.ofLine_congr ?_ number
    rw [Text.trim_append_blank _ hw', Text.trim_blank_append hw]

/-- **Layout does not count.** A text without carriage returns is read alike with one before every
line feed; a comment or blank line may hold anything else that is blank or a comment, be it UTF-8 or
not; and blanks may be added on both sides of what a line holds. In each case the configuration is
the same, or the error in the same line. Every line of every text has a place where this is so. -/
theorem parse_layout (fs : FileSystem) (limit : Nat) :
    (∀ bytes, 0x0D ∉ bytes → parse fs (withReturns bytes) limit = parse fs bytes limit) ∧
    (∀ (p : Line.Place) (held held' : Bytes), Line.Remark held → Line.Remark held' →
      parse fs (p.fill held') limit = parse fs (p.fill held) limit) ∧
    (∀ (p : Line.Place) (held : Bytes) (w w' : List Char), (∀ c ∈ w, Text.isBlank c = true) →
      (∀ c ∈ w', Text.isBlank c = true) → Line.Fits (Text.encode w ++ held ++ Text.encode w') →
      parse fs (p.fill (Text.encode w ++ held ++ Text.encode w')) limit =
        parse fs (p.fill held) limit) ∧
    ∀ (bytes line : Bytes) (before after : List Bytes),
      Line.lines bytes = before ++ line :: after →
      ∃ p : Line.Place, p.before = before.flatten ∧ p.fill (Line.content line) = bytes :=
  ⟨fun _ h => parse_congr fs limit (Line.alike_withReturns h),
    fun p _ _ h h' => parse_remark fs limit p h h',
    fun p _ _ _ hw hw' h => parse_blank fs limit p hw hw' h,
    fun _ _ _ _ h => Line.exists_place h⟩

/-- The place of a line between one that is ended by a line feed alone and one that is not ended. -/
def middlePlace : Line.Place where
  before := Text.encode "[c]\n".toList
  stop := [0x0D, 0x0A]
  after := Text.encode "x".toList
  closed := Line.closed_concat (Text.encode "[c]".toList)
  ends := .inr (.inl rfl)

theorem remark_hashByte : Line.Remark (Text.encode [' '] ++ [0x23, 0xFF]) := by
  have hfits : Line.Fits (Text.encode [' '] ++ [0x23, 0xFF]) := ⟨by decide, by decide⟩
  exact Line.remark_hash hfits (List.forall_mem_singleton.2 rfl)

/-- The error is in the last line, whatever comment or blank there is around what stands before. -/
theorem parse_layout_middlePlace :
    parse (.ofList []) (withReturns (Text.encode "[c]\nx\n".toList)) 0 =
      .error (.outsideOptions 2 "x") ∧
    parse (.ofList []) (middlePlace.fill []) 0 = .error (.outsideOptions 3 "x") ∧
    parse (.ofList []) (middlePlace.fill (Text.encode [' '] ++ [0x23, 0xFF])) 0 =
      .error (.outsideOptions 3 "x") ∧
    parse (.ofList []) (middlePlace.fill (Text.encode "[d]".toList)) 0 =
      .error (.outsideOptions 3 "x") ∧
    parse (.ofList []) (middlePlace.fill (Text.encode ['\u3000'] ++
      Text.encode "[d]".toList ++ Text.encode ['\u00A0'])) 0 =
      .error (.outsideOptions 3 "x") ∧
    ∃ p : Line.Place, p.before = [] ∧ p.fill [0x23] = Text.encode "#\r\nx".toList := by
  obtain ⟨hreturns, hremark, hblank, hplace⟩ := parse_layout (.ofList []) 0
  have hplain : parse (.ofList []) (Text.encode "[c]\nx\n".toList) 0 =
      .error (.outsideOptions 2 "x") := by cbv
  have hempty : parse (.ofList []) (middlePlace.fill []) 0 = .error (.outsideOptions 3 "x") := by
    cbv
  have hheader : parse (.ofList []) (middlePlace.fill (Text.encode "[d]".toList)) 0 =
      .error (.outsideOptions 3 "x") := by cbv
  have hwide : Line.Fits (Text.encode ['\u3000'] ++ Text.encode "[d]".toList ++
      Text.encode ['\u00A0']) := ⟨by decide, by decide⟩
  have hlines : Line.lines (Text.encode "#\r\nx".toList) =
      [] ++ [0x23, 0x0D, 0x0A] :: [Text.encode "x".toList] := by decide
  exact ⟨(hreturns _ (by decide)).trans hplain, hempty,
    (hremark middlePlace _ _ Line.remark_nil remark_hashByte).trans hempty, hheader,
    (hblank middlePlace _ _ _ (List.forall_mem_singleton.2 rfl) (List.forall_mem_singleton.2 rfl)
      hwide).trans hheader,
    hplace _ _ _ _ hlines⟩

end PackageConf
