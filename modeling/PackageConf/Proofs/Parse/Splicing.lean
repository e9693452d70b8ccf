import Mathlib
import PackageConf.Proofs.Parse.Follow
import PackageConf.Proofs.Text.Utf8
import PackageConf.Proofs.Token.Grammar
/-!
# Including is splicing

`Spliced` puts the lines of the named file in the place of every `Include` line, and does so again
in the lines it puts there. Nothing bounds how often: a derivation is finite, so files that include
each other have no splicing at all. `IsFlat fs x y` says that `y` is what becomes of `x`.

The stack of readers never builds this text. It goes through the same lines nevertheless, because
what its visits say is what the spliced lines say (`exists_spliced`), with one difference: a last
line that no line feed ends gets one when it is spliced, and then a carriage return before it is
no longer part of the content. Where such a line has a token at all, that token stays
(`token?_feed`).
-/
namespace PackageConf

namespace Line

/-- The bytes with a line feed at the end, unless there are none. -/
def close (bytes : Bytes) : Bytes :=
  if bytes = [] ∨ bytes.getLast? = some 0x0A then bytes else bytes ++ [0x0A]

end Line

/-- The second lines are the first with every `Include` line replaced, again and again, by the
lines of the file that its first value names. -/
inductive Spliced (fs : FileSystem) : List Bytes → List Bytes → Prop
  | nil : Spliced fs [] []
  | keep {line : Bytes} {rest out : List Bytes} : Line.includeValues? line = none →
      Spliced fs rest out → Spliced fs (line :: rest) (line :: out)
  | replace {line content : Bytes} {path : String} {values : List String}
      {rest inner out : List Bytes} : Line.includeValues? line = some (path :: values) →
      fs.access path = .ok (.bytes content) →
      Spliced fs (Line.lines (Line.close content)) inner → Spliced fs rest out →
      Spliced fs (line :: rest) (inner ++ out)

/-- `y` is `x` with every `Include` line replaced, again and again, by its file. -/
def IsFlat (fs : FileSystem) (x y : Bytes) : Prop :=
  ∃ out, Spliced fs (Line.lines x) out ∧ y = out.flatten

namespace Line

theorem closed_close (bytes : Bytes) : Closed (close bytes) := by
  unfold close
  split
  · next h =>
    rcases h with rfl | h
    · exact closed_nil
    · intro b hb
      rw [h] at hb
      exact (Option.some.inj hb).symm
  · exact closed_concat bytes

theorem close_eq_self {bytes : Bytes} (h : Closed bytes) : close bytes = bytes := by
  rw [close, if_pos]
  cases hl : bytes.getLast? with
  | none => exact .inl (List.getLast?_eq_none_iff.1 hl)
  | some b => exact .inr (by rw [h b hl])

/-- A line that is not ended says the same when it is. -/
theorem token?_feed {body : Bytes} (h : 0x0A ∉ body) {t : Token} (ht : token? body = some t) :
    token? (body ++ [0x0A]) = some t := by
  rw [token?, Except.toOption_eq_some_iff] at ht ⊢
  unfold token at ht ⊢
  rw [content_open h] at ht
  split at ht
  · cases ht
  · next hlen =>
    rcases content_feed body with hc | hc
    · rw [hc, if_neg hlen, ht]
    · generalize content (body ++ [0x0A]) = c at hc ⊢
      subst hc
      have hdec : Text.decode (c ++ [0x0D]) = Text.decode c ++ ['\r'] :=
        Text.decode_ascii (by decide) c []
      have htrim : Text.trim (Text.decode c ++ ['\r']) = Text.trim (Text.decode c) :=
        Text.trim_append_blank _ (List.forall_mem_singleton.2 (by decide))
      rw [if_neg (by rw [List.length_append] at hlen; omega)]
      rw [hdec] at ht
      rw [← ht]
      exact (Token.ofLine_congr htrim 0).symm

theorem close_feed (body rest : Bytes) :
    close (body ++ 0x0A :: rest) = body ++ 0x0A :: close rest := by
  cases hr : rest.getLast? with
  | none =>
    obtain rfl := List.getLast?_eq_none_iff.1 hr
    simp [close]
  | some b =>
    have hne : rest ≠ [] := by rintro rfl; cases hr
    by_cases hb : b = 0x0A <;> simp [close, List.getLast?_append, List.getLast?_cons, hr, hb, hne]

/-- Closing a file changes no token, if there are only tokens. -/
theorem map_token?_close {bytes : Bytes} (h : ∀ l ∈ lines bytes, (token? l).isSome = true) :
    (lines (close bytes)).map token? = (lines bytes).map token? := by
  induction bytes using lines_induction with
  | nil => rfl
  | unended body hbody hne =>
    have hopen : ¬ (body = [] ∨ body.getLast? = some 0x0A) := fun hc =>
      hc.elim hne fun hl => hbody (List.mem_of_getLast? hl)
    rw [lines_open hbody hne] at h ⊢
    obtain ⟨t, ht⟩ := Option.isSome_iff_exists.1 (h body List.mem_cons_self)
    rw [close, if_neg hopen, lines_feed hbody []]
    simp [token?_feed hbody ht, ht]
  | ended body rest hbody ih =>
    rw [lines_feed hbody] at h
    rw [close_feed, lines_feed hbody, lines_feed hbody, List.map_cons, List.map_cons,
      ih fun l hl => h l (List.mem_cons_of_mem _ hl)]

end Line

/-! ## The lines of a spliced text -/

namespace Spliced

variable {fs : FileSystem}

theorem unique {ls out : List Bytes} (h : Spliced fs ls out) {out' : List Bytes}
    (h' : Spliced fs ls out') : out = out' := by
  induction h generalizing out' with
  | nil => cases h'; rfl
  | keep hnone _ ih =>
    cases h' with
    | keep _ h' => rw [ih h']
    | replace hsome => rw [hnone] at hsome; cases hsome
  | replace hsome hacc _ _ ihInner ihRest =>
    cases h' with
    | keep hnone => rw [hnone] at hsome; cases hsome
    | replace hsome' hacc' hInner' hRest' =>
      rw [hsome] at hsome'
      obtain ⟨rfl, rfl⟩ := List.cons.inj (Option.some.inj hsome')
      rw [hacc] at hacc'
      obtain rfl := Source.bytes.inj (Except.ok.inj hacc')
      rw [ihInner hInner', ihRest hRest']

theorem includeValues?_eq_none {ls out : List Bytes} (h : Spliced fs ls out) :
    ∀ line ∈ out, Line.includeValues? line = none := by
  induction h with
  | nil => simp
  | keep hnone _ ih => exact List.forall_mem_cons.2 ⟨hnone, ih⟩
  | replace _ _ _ _ ihInner ihRest => exact List.forall_mem_append.2 ⟨ihInner, ihRest⟩

/-- The spliced lines are lines, and all are ended if all were. -/
theorem lines_flatten {x : Bytes} {out : List Bytes} (h : Spliced fs (Line.lines x) out) :
    Line.lines out.flatten = out ∧ (Line.Closed x → Line.Closed out.flatten) := by
  generalize hx : Line.lines x = ls at h
  induction h generalizing x with
  | nil => exact ⟨rfl, fun _ => Line.closed_nil⟩
  | @keep line rest out _ hrest ih =>
    obtain ⟨hend, more, hmore, hclosed⟩ := Line.exists_lines_rest hx
    obtain ⟨hout, hout'⟩ := ih hmore
    have hmem : line ∈ Line.lines x := hx ▸ List.mem_cons_self
    refine ⟨?_, fun hc => ?_⟩
    · rcases hend with rfl | hend
      · cases hrest
        simpa using Line.lines_of_mem hmem
      · rw [List.flatten_cons, Line.lines_append hend, Line.lines_of_mem hmem, hout]
        rfl
    · exact (Line.closed_of_mem_lines hc hmem).append (hout' (hclosed hc))
  | @replace line content path values rest inner out _ _ _ _ ihInner ihRest =>
    obtain ⟨-, more, hmore, hclosed⟩ := Line.exists_lines_rest hx
    obtain ⟨hout, hout'⟩ := ihRest hmore
    obtain ⟨hinner, hinner'⟩ := ihInner rfl
    have hend := hinner' (Line.closed_close content)
    rw [List.flatten_append]
    exact ⟨by rw [Line.lines_append hend, hinner, hout], fun hc => hend.append (hout' (hclosed hc))⟩

end Spliced

/-! ## What the visits say is what the spliced lines say -/

/-- A visit that is no obstacle to splicing: an `Include` line leads to a file, and closing that
file changes no token of it. -/
def Visit.Steady (fs : FileSystem) (limit : Nat) : Visit → Prop
  | .line depth _ bytes => ∀ values, Line.includeValues? bytes = some values →
      ∃ path rest content, values = path :: rest ∧ depth < limit ∧
        fs.access path = .ok (.bytes content) ∧
        (Line.lines (Line.close content)).map Line.token? = (Line.lines content).map Line.token?
  | .unreadable _ => False

theorem Line.includeValues?_congr {l l' : Bytes} (h : Line.token? l = Line.token? l') :
    Line.includeValues? l = Line.includeValues? l' := by
  rw [includeValues?_eq, includeValues?_eq, h]

/-- **What is visited is what is spliced.** Lines with the tokens `ls` have can be spliced, and the
lines that result say what visiting `ls` says. -/
theorem exists_spliced {fs : FileSystem} {limit depth number : Nat} {ls : List Bytes}
    (h : ∀ v ∈ visits fs limit depth number ls, v.Steady fs limit) {ls' : List Bytes}
    (hsame : ls'.map Line.token? = ls.map Line.token?) :
    ∃ out, Spliced fs ls' out ∧
      out.map Line.token? = (visits fs limit depth number ls).filterMap Visit.said? := by
  induction depth, number, ls using visits_induction fs limit generalizing ls' with
  | nil depth number =>
    obtain rfl := List.map_eq_nil_iff.1 hsame
    exact ⟨[], .nil, by simp⟩
  | cons depth number line rest ihInner ihRest =>
    obtain ⟨line', rest', rfl, hline, hrest⟩ := List.map_eq_cons_iff.1 hsame
    rw [visits_cons] at h ⊢
    obtain ⟨hhere, hlater⟩ := List.forall_mem_cons.1 h
    obtain ⟨hin, hlater⟩ := List.forall_mem_append.1 hlater
    obtain ⟨out, hout, htok⟩ := ihRest hlater hrest
    have hvals' := Line.includeValues?_congr hline
    cases hvals : Line.includeValues? line with
    | none =>
      refine ⟨line' :: out, .keep (hvals'.trans hvals) hout, ?_⟩
      simp [Visit.said?, hvals, included_eq_nil hvals, htok, hline]
    | some values =>
      obtain ⟨path, more, content, rfl, hd, hacc, hclose⟩ := hhere values hvals
      rw [included_eq_visits hvals hd hacc] at hin ⊢
      obtain ⟨inner, hinner, htoks⟩ := ihInner content hd
        (by simp [Line.target?, hvals, hacc, Except.toOption]) hin hclose
      refine ⟨inner ++ out, .replace (hvals'.trans hvals) hacc hinner hout, ?_⟩
      simp [Visit.said?, hvals, htok, htoks, Source.visits]

/-! ## Reading a text and reading what is spliced from it -/

/-- Where a run goes well, nothing stands in the way of splicing. -/
theorem Draft.steady_of_follow {fs : FileSystem} {limit depth number : Nat} {ls : List Bytes}
    {d d' : Draft} (h : d.follow fs limit (visits fs limit depth number ls) = .ok d') :
    ∀ v ∈ visits fs limit depth number ls, v.Steady fs limit := by
  intro v hv
  cases v with
  | unreadable cause => exact absurd rfl (said?_of_follow h hv)
  | line k n bytes =>
    intro values hvals
    have hpass := (follow_eq_ok_iff.1 h).1 _ hv values hvals
    cases values with
    | nil => cases hpass
    | cons path rest =>
      simp only [checkInclude] at hpass
      by_cases hk : limit ≤ k
      · simp [hk] at hpass
      · cases hacc : fs.access path with
        | error e => simp [hk, hacc] at hpass
        | ok source =>
          have hin := included_eq_visits hvals (Nat.lt_of_not_le hk) hacc
          cases source with
          | unreadable cause =>
            have hmem := mem_visits_of_included (w := .unreadable cause) hv
              (by rw [hin]; exact List.mem_cons_self)
            exact absurd rfl (said?_of_follow h hmem)
          | bytes content =>
            refine ⟨path, rest, content, rfl, Nat.lt_of_not_le hk, hacc,
              Line.map_token?_close fun l hl => ?_⟩
            obtain ⟨m, hm⟩ := exists_visit_of_mem fs limit (k + 1) 0 hl
            obtain ⟨t, ht⟩ :=
              exists_token_of_follow h (mem_visits_of_included hv (by rw [hin]; exact hm))
            rw [ht]
            rfl

/-- Every `Include` line that is reached has a path, which leads to a file that is empty or ends
with a line feed, and opening it does not exceed the limit. -/
def Includable (fs : FileSystem) (limit : Nat) (x : Bytes) : Prop :=
  ∀ depth y, Reaches fs x depth y → ∀ line ∈ Line.lines y, ∀ values,
    Line.includeValues? line = some values →
      ∃ path rest content, values = path :: rest ∧ fs.access path = .ok (.bytes content) ∧
        Line.Closed content ∧ depth + 1 ≤ limit

theorem Includable.steady {fs : FileSystem} {limit : Nat} {x : Bytes} (hx : Includable fs limit x) :
    ∀ v ∈ visits fs limit 0 0 (Line.lines x), v.Steady fs limit ∧ v.Passes fs limit := by
  intro v hv
  cases v with
  | unreadable cause =>
    obtain ⟨k, z, line, path, values, hz, hline, hvals, hto, -⟩ := located_of_mem_visits hv
    obtain ⟨path', rest, content, hpath, hacc, -⟩ := hx k z hz line hline _ hvals
    rw [(List.cons.inj hpath).1, hacc] at hto
    cases hto
  | line k n line =>
    obtain ⟨z, hz, -, hline⟩ := located_of_mem_visits hv
    have hmem := List.mem_of_getElem? hline
    constructor
    · intro values hvals
      obtain ⟨path, rest, content, rfl, hacc, hclosed, hk⟩ := hx k z hz line hmem values hvals
      exact ⟨path, rest, content, rfl, hk, hacc, by rw [Line.close_eq_self hclosed]⟩
    · intro values hvals
      obtain ⟨path, rest, content, rfl, hacc, -, hk⟩ := hx k z hz line hmem values hvals
      simp [checkInclude, hacc, Nat.not_le.2 hk]

/-- The lines that are spliced are read like any text without `Include` lines. -/
theorem parse_flatten {fs : FileSystem} (limit : Nat) {x : Bytes} {out : List Bytes}
    (h : Spliced fs (Line.lines x) out) (c : Config) :
    parse fs out.flatten limit = .ok c ↔
      ∃ d : Draft, (out.map Line.token?).foldlM Draft.hear {} = some d ∧ d.finish = c := by
  have hplain : ∀ line ∈ Line.lines out.flatten, Line.includeValues? line = none := by
    rw [h.lines_flatten.1]
    exact h.includeValues?_eq_none
  rw [parse_eq_ok_iff_of_plain fs limit hplain, h.lines_flatten.1]

/-! ## What every line finds -/

/-- The token that a run passes on to the draft in its next step, with the draft it finds. -/
def ParseState.hearing? (s : ParseState) : Option (Draft × Token) :=
  match s.stack.next.1 with
  | .ok (some (.key name values)) =>
    if name = includeName then none else some (s.draft, .key name values)
  | .ok (some t) => some (s.draft, t)
  | _ => none

/-- The tokens that a run passes on, each with the draft it finds: the settings so far, and the
section that is open. -/
def ParseState.hearings (fs : FileSystem) (limit : Nat) (s : ParseState) : List (Draft × Token) :=
  match _h : s.step fs limit with
  | .running s' => s.hearing?.toList ++ hearings fs limit s'
  | _ => []
termination_by s.stack.weight fs limit
decreasing_by exact weight_step_lt _h

/-- What tokens find that are heard one after the other. -/
def Draft.findings (d : Draft) : List (Option Token) → List (Draft × Token)
  | some t :: said =>
    (d, t) :: match d.hear (some t) with
      | some d' => Draft.findings d' said
      | none => []
  | _ => []

/-- What a step passes on is what its visit says. -/
theorem ParseState.hearing?_of_visit {s : ParseState} {v : Visit} {t : Token}
    (hn : s.stack.next.1 = .ok (some t)) (hv : v.token? = some t) :
    (v.said? = none ∧ s.hearing? = none) ∨
      (v.said? = some (some t) ∧ s.hearing? = some (s.draft, t)) := by
  cases v with
  | unreadable cause => cases hv
  | line depth number bytes =>
    have htok : Line.token bytes number = .ok t := Except.toOption_eq_some_iff.1 hv
    have hsaid := (Line.token?_eq_some_iff number).2 htok
    cases t with
    | comment =>
      exact .inr ⟨by simp [Visit.said?, Line.includeValues?_eq, hsaid], by simp [hearing?, hn]⟩
    | header name =>
      exact .inr ⟨by simp [Visit.said?, Line.includeValues?_eq, hsaid], by simp [hearing?, hn]⟩
    | key name values =>
      have hvals := Line.includeValues?_of_token htok
      by_cases hname : name = includeName
      · rw [if_pos hname] at hvals
        exact .inl ⟨by simp [Visit.said?, hvals], by simp [hearing?, hn, hname]⟩
      · rw [if_neg hname] at hvals
        exact .inr ⟨by simp [Visit.said?, hvals, hsaid], by simp [hearing?, hn, hname]⟩

/-- What the lines of a run find depends on what is said alone. -/
theorem ParseState.hearings_eq_findings {fs : FileSystem} {limit : Nat} {s : ParseState} {d : Draft}
    (h : s.draft.follow fs limit (s.visits fs limit) = .ok d) :
    s.hearings fs limit = s.draft.findings ((s.visits fs limit).filterMap Visit.said?) := by
  fun_induction hearings fs limit s with
  | case1 s s' hs ih =>
    obtain ⟨hn, hv, hd⟩ | ⟨v, t, hn, ht, hv, hact⟩ := step_running hs
    · have hnone : s.hearing? = none := by simp [hearing?, hn]
      rw [hnone, ih (by rw [hv, hd]; exact h), hv, hd]
      rfl
    · rw [hv, Draft.follow, hact] at h
      rw [ih h, hv]
      have hok := (Visit.act_eq_ok_iff.1 hact).2
      rcases hearing?_of_visit hn ht with ⟨hsaid, hhear⟩ | ⟨hsaid, hhear⟩
      · rw [hsaid] at hok
        simp [hsaid, hhear, hok]
      · rw [hsaid] at hok
        simp [hsaid, hhear, hok, Draft.findings]
  | case2 s hs =>
    cases hstep : s.step fs limit with
    | running s' => exact absurd hstep (hs s')
    | done c =>
      rw [(step_done hstep).1]
      rfl
    | failed e =>
      obtain ⟨v, hv, hact⟩ := step_failed hstep
      obtain ⟨vs, hvs⟩ := List.head?_eq_some_iff.1 hv
      rw [hvs, Draft.follow, hact] at h
      cases h

/-- **Including is splicing.** A text that is read is one that can be spliced, in one way, into a
text without `Include` lines; that text is read as the same configuration, and its lines find the
same settings and the same open section as the lines of the files did. The other way round, where
every `Include` line can be followed and leads to a closed file, there is such a text, and if it is
read, so is the original. -/
theorem parse_flat (fs : FileSystem) (limit : Nat) (x : Bytes) :
    (∀ c, parse fs x limit = .ok c →
      ∃ y, IsFlat fs x y ∧ (∀ z, IsFlat fs x z → z = y) ∧
        (∀ line ∈ Line.lines y, Line.includeValues? line = none) ∧
        parse fs y limit = .ok c ∧
        (ParseState.begin y).hearings fs limit = (ParseState.begin x).hearings fs limit) ∧
    (Includable fs limit x →
      (∃ y, IsFlat fs x y) ∧
        ∀ y c, IsFlat fs x y → parse fs y limit = .ok c → parse fs x limit = .ok c) := by
  constructor
  · intro c hc
    obtain ⟨d, hf, rfl⟩ := parse_eq_ok_iff.1 hc
    obtain ⟨out, hout, htok⟩ := exists_spliced (Draft.steady_of_follow hf) rfl
    have hheard := (Draft.follow_eq_ok_iff.1 hf).2
    have hparse := (parse_flatten limit hout d.finish).2 ⟨d, by rw [htok]; exact hheard, rfl⟩
    obtain ⟨hpass, hsaid⟩ := visits_plain fs limit 0 0 hout.includeValues?_eq_none
    have hflat : ({} : Draft).follow fs limit (visits fs limit 0 0 out) = .ok d :=
      Draft.follow_eq_ok_iff.2 ⟨hpass, by rw [hsaid, htok]; exact hheard⟩
    refine ⟨out.flatten, ⟨out, hout, rfl⟩, ?_, ?_, hparse, ?_⟩
    · rintro z ⟨out', hout', rfl⟩
      rw [hout.unique hout']
    · rw [hout.lines_flatten.1]
      exact hout.includeValues?_eq_none
    · have hx : (ParseState.begin x).draft.follow fs limit ((ParseState.begin x).visits fs limit)
          = .ok d := by rw [ParseState.visits_begin]; exact hf
      have hy : (ParseState.begin out.flatten).draft.follow fs limit
          ((ParseState.begin out.flatten).visits fs limit) = .ok d := by
        rw [ParseState.visits_begin, hout.lines_flatten.1]; exact hflat
      rw [ParseState.hearings_eq_findings hx, ParseState.hearings_eq_findings hy,
        ParseState.visits_begin, ParseState.visits_begin, hout.lines_flatten.1, hsaid, htok]
      rfl
  · intro hx
    obtain ⟨out, hout, htok⟩ := exists_spliced (fun v hv => (hx.steady v hv).1) rfl
    refine ⟨⟨out.flatten, out, hout, rfl⟩, ?_⟩
    rintro y c ⟨out', hout', rfl⟩ hc
    obtain rfl := hout.unique hout'
    obtain ⟨d, hd, rfl⟩ := (parse_flatten limit hout c).1 hc
    exact parse_eq_ok_iff.2
      ⟨d, Draft.follow_eq_ok_iff.2 ⟨fun v hv => (hx.steady v hv).2, htok ▸ hd⟩, rfl⟩

/-! ### One file that includes another -/

/-- A section that includes a file, in which another section begins. -/
def coreText : Bytes := Text.encode "[c]\nInclude = m\n".toList

def mirrorText : Bytes := Text.encode "Server = a\n[x]\n".toList

def mirrorFiles : FileSystem := .ofList [("m", .ok (.bytes mirrorText))]

theorem includeValues?_mirrorText :
    ∀ line ∈ Line.lines mirrorText, Line.includeValues? line = none := by
  have hlines : Line.lines mirrorText =
      [Text.encode "Server = a\n".toList, Text.encode "[x]\n".toList] := by decide
  rw [hlines]
  exact List.forall_mem_cons.2 ⟨by cbv, List.forall_mem_cons.2 ⟨by cbv, by simp⟩⟩

theorem includeValues?_coreText : ∀ line ∈ Line.lines coreText, ∀ values,
    Line.includeValues? line = some values → values = ["m"] := by
  have hlines : Line.lines coreText =
      [Text.encode "[c]\n".toList, Text.encode "Include = m\n".toList] := by decide
  have hheader : Line.includeValues? (Text.encode "[c]\n".toList) = none := by cbv
  have hinclude : Line.includeValues? (Text.encode "Include = m\n".toList) = some ["m"] := by cbv
  intro line hline values hvals
  rw [hlines] at hline
  rcases List.mem_cons.1 hline with rfl | hline
  · rw [hheader] at hvals
    cases hvals
  · rw [List.mem_singleton.1 hline, hinclude] at hvals
    exact (Option.some.inj hvals).symm

theorem includable_coreText : Includable mirrorFiles 1 coreText := by
  have hacc : mirrorFiles.access "m" = .ok (.bytes mirrorText) := rfl
  have hreach : ∀ depth y, Reaches mirrorFiles coreText depth y →
      (depth = 0 ∧ y = coreText) ∨ y = mirrorText := by
    intro depth y h
    induction h with
    | refl => exact .inl ⟨rfl, rfl⟩
    | step _ hline hinc hto ih =>
      obtain ⟨-, rfl⟩ | rfl := ih
      · obtain ⟨rfl, rfl⟩ := List.cons.inj (includeValues?_coreText _ hline _ hinc)
        rw [hacc] at hto
        exact .inr (Source.bytes.inj (Except.ok.inj hto)).symm
      · rw [includeValues?_mirrorText _ hline] at hinc
        cases hinc
  intro depth y h line hline values hinc
  obtain ⟨rfl, rfl⟩ | rfl := hreach depth y h
  · have hclosed : Line.Closed mirrorText := by
      have hlast : mirrorText.getLast? = some 0x0A := by decide
      intro b hb
      rw [hlast] at hb
      exact (Option.some.inj hb).symm
    exact ⟨"m", [], mirrorText, includeValues?_coreText line hline values hinc, hacc, hclosed,
      Nat.le_refl 1⟩
  · rw [includeValues?_mirrorText line hline] at hinc
    cases hinc

/-- The second section, opened in the included file, is open when the first file ends. -/
theorem parse_flat_coreText : ∃ y, IsFlat mirrorFiles coreText y ∧
    parse mirrorFiles coreText 1 =
      .ok { repos := [{ name := "c", servers := ["a"] }, { name := "x" }] } ∧
    parse mirrorFiles y 1 =
      .ok { repos := [{ name := "c", servers := ["a"] }, { name := "x" }] } ∧
    Includable mirrorFiles 1 coreText ∧
    ∀ c, parse mirrorFiles y 1 = .ok c → parse mirrorFiles coreText 1 = .ok c := by
  have hread : parse mirrorFiles coreText 1 =
      .ok { repos := [{ name := "c", servers := ["a"] }, { name := "x" }] } := by cbv
  obtain ⟨y, hy, -, -, hflat, -⟩ := (parse_flat mirrorFiles 1 coreText).1 _ hread
  exact ⟨y, hy, hread, hflat, includable_coreText, fun c hc =>
    ((parse_flat mirrorFiles 1 coreText).2 includable_coreText).2 y c hy hc⟩

end PackageConf
