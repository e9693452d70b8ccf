import Mathlib
import PackageConf.Proofs.Parse.FirstError
import PackageConf.Proofs.Parse.Reading
/-!
# One text behind another

A text whose first line that is no comment is a header can be read behind any other text: no line
of it depends on what the other text has left open. So a run over both is a run over the one and
then, in lockstep, a run over the other (`Draft.exists_follow_later`). The two runs over the second
text start from different configurations, but they have the same section open, and that is all that
an error depends on. Errors differ in one thing: a line of the second text is counted from the
beginning of the first, while a line of an included file is counted in its file as before.
-/
namespace PackageConf

/-! ## Lines that stand later -/

/-- The error if its line stands `n` lines later. -/
def ConfigError.later (n : Nat) : ConfigError → ConfigError
  | .lineTooLong line => .lineTooLong (line + n)
  | .missingBracket line => .missingBracket (line + n)
  | .trailingCharacters line trailing header => .trailingCharacters (line + n) trailing header
  | .unknownOption line name => .unknownOption (line + n) name
  | .outsideOptions line name => .outsideOptions (line + n) name
  | .invalidValue line cause => .invalidValue (line + n) cause
  | .missingInclude line => .missingInclude (line + n)
  | .includeFailed line path cause => .includeFailed (line + n) path cause
  | .includeDepth line limit => .includeDepth (line + n) limit
  | e => e

/-- The visit if `n` lines stand before the text. Lines of included files keep their numbers. -/
def Visit.later (n : Nat) : Visit → Visit
  | .line 0 number bytes => .line 0 (number + n) bytes
  | v => v

/-- What an error of the visit is if `n` lines stand before the text. -/
def Visit.errorLater (n : Nat) : Visit → ConfigError → ConfigError
  | .line 0 _ _ => ConfigError.later n
  | _ => id

theorem Line.token_add (line : Bytes) (number n : Nat) :
    token line (number + n) = (token line number).mapError (ConfigError.later n) := by
  unfold token
  split
  · rfl
  · unfold Token.ofLine
    split
    · rfl
    · rfl
    · unfold Token.ofBracket
      split
      · rfl
      · split <;> rfl
    · rfl

theorem checkInclude_add (fs : FileSystem) (limit depth number n : Nat) (values : List String) :
    checkInclude fs limit depth (number + n) values =
      (checkInclude fs limit depth number values).mapError (ConfigError.later n) := by
  unfold checkInclude
  split
  · rfl
  · split
    · rfl
    · split <;> rfl

theorem Config.assign_add (c : Config) (line n : Nat) (name : String) (values : List String) :
    c.assign (line + n) name values =
      (c.assign line name values).mapError (ConfigError.later n) := by
  unfold assign
  split
  · rfl
  · rfl
  · rfl
  · rfl
  · split <;> rfl

theorem Repository.assign_add (r : Repository) (line n : Nat) (name : String)
    (values : List String) :
    r.assign (line + n) name values =
      (r.assign line name values).mapError (ConfigError.later n) := by
  unfold assign
  split
  · split <;> rfl
  · split
    · rfl
    · split <;> rfl

theorem Draft.key_add (d : Draft) (line n : Nat) (name : String) (values : List String) :
    d.key (line + n) name values =
      (d.key line name values).mapError (ConfigError.later n) := by
  unfold key
  split
  · rw [Config.assign_add]
    cases d.config.assign line name values <;> rfl
  · next r _ =>
    rw [Repository.assign_add]
    cases r.assign line name values <;> rfl

theorem Draft.take_add (fs : FileSystem) (limit depth number n : Nat) (d : Draft) (t : Token) :
    d.take fs limit depth (number + n) t =
      (d.take fs limit depth number t).mapError (ConfigError.later n) := by
  cases t with
  | comment => rfl
  | header name => rfl
  | key name values =>
    unfold take
    dsimp only
    split
    · rw [checkInclude_add]
      cases checkInclude fs limit depth number values <;> rfl
    · exact d.key_add number n name values

namespace Visit

/-- A visit does the same when it stands later, but for the number in its error. -/
theorem act_later (fs : FileSystem) (limit n : Nat) (d : Draft) (v : Visit) :
    (v.later n).act fs limit d = (v.act fs limit d).mapError (v.errorLater n) := by
  have hid : ∀ x : Except ConfigError Draft, x = x.mapError id := by
    intro x
    cases x <;> rfl
  cases v with
  | unreadable cause => rfl
  | line depth number bytes =>
    cases depth with
    | succ depth => exact hid _
    | zero =>
      simp only [later, act, Line.token_add, errorLater]
      cases Line.token bytes number with
      | error e => rfl
      | ok t => exact d.take_add fs limit 0 number n t

theorem said?_later (n : Nat) (v : Visit) : (v.later n).said? = v.said? := by
  unfold later
  split <;> rfl

end Visit

/-- Reading a file visits nothing above it. -/
theorem le_of_mem_visits {fs : FileSystem} {limit depth number k m : Nat} {ls : List Bytes}
    {line : Bytes} (h : .line k m line ∈ visits fs limit depth number ls) : depth ≤ k := by
  induction depth, number, ls using visits_induction fs limit with
  | nil depth number => simp at h
  | cons depth number l rest ihInner ihRest =>
    rw [visits_cons] at h
    rcases List.mem_cons.1 h with h | h
    · exact Nat.le_of_eq (Visit.line.inj h).1.symm
    rcases List.mem_append.1 h with h | h
    · obtain ⟨hd, source, htarget, h⟩ := mem_included_iff.1 h
      cases source with
      | bytes content => exact Nat.le_of_succ_le (ihInner content hd htarget h)
      | unreadable cause => simp [Source.visits] at h
    · exact ihRest h

theorem map_later_included (fs : FileSystem) (limit depth n : Nat) (line : Bytes) :
    (included fs limit depth line).map (Visit.later n) = included fs limit depth line := by
  refine (List.map_congr_left fun v hv => ?_).trans (List.map_id _)
  obtain ⟨-, source, -, hv⟩ := mem_included_iff.1 hv
  cases v with
  | unreadable cause => rfl
  | line k m bytes =>
    cases source with
    | unreadable cause => simp [Source.visits] at hv
    | bytes content =>
      obtain ⟨k, rfl⟩ := Nat.exists_eq_add_one_of_ne_zero (Nat.ne_of_gt
        (Nat.lt_of_lt_of_le (Nat.succ_pos depth) (le_of_mem_visits hv)))
      rfl

theorem visits_add (fs : FileSystem) (limit number n : Nat) (ls : List Bytes) :
    visits fs limit 0 (number + n) ls = (visits fs limit 0 number ls).map (Visit.later n) := by
  induction ls generalizing number with
  | nil => simp
  | cons l ls ih =>
    have hnumber : number + n + 1 = number + 1 + n := by omega
    rw [visits_cons, visits_cons, List.map_cons, List.map_append, map_later_included, ← ih, hnumber]
    rfl

/-! ## In lockstep -/

section Lockstep

variable {fs : FileSystem} {limit : Nat} {d₁ d₂ : Draft}

theorem Visit.act_eq_error_of_currentName? (h : d₁.currentName? = d₂.currentName?) {v : Visit}
    {e : ConfigError} (hv : v.act fs limit d₁ = .error e) : v.act fs limit d₂ = .error e := by
  rw [act_eq_error_iff, ← h]
  exact act_eq_error_iff.1 hv

/-- With the same section open a visit goes well alike, and leaves the same section open. -/
theorem Visit.exists_act_of_currentName? (h : d₁.currentName? = d₂.currentName?) {v : Visit}
    {d₁' : Draft} (hv : v.act fs limit d₁ = .ok d₁') :
    ∃ d₂', v.act fs limit d₂ = .ok d₂' ∧ d₁'.currentName? = d₂'.currentName? := by
  cases hv₂ : v.act fs limit d₂ with
  | error e =>
    rw [act_eq_error_of_currentName? h.symm hv₂] at hv
    cases hv
  | ok d₂' => exact ⟨d₂', rfl, by rw [currentName?_act hv, currentName?_act hv₂, h]⟩

theorem Draft.exists_follow_later (n : Nat) {vs : List Visit} {d₁' : Draft}
    (h : d₁.currentName? = d₂.currentName?) (hf : d₁.follow fs limit vs = .ok d₁') :
    ∃ d₂', d₂.follow fs limit (vs.map (Visit.later n)) = .ok d₂' ∧
      d₁'.currentName? = d₂'.currentName? := by
  induction vs generalizing d₁ d₂ with
  | nil =>
    obtain rfl := Except.ok.inj hf
    exact ⟨d₂, rfl, h⟩
  | cons v vs ih =>
    have hsplit : d₁.follow fs limit ([] ++ v :: vs) = .ok d₁' := hf
    obtain ⟨a₁, b₁, ha₁, hv₁, hvs⟩ := exists_act_of_follow hsplit
    obtain rfl := Except.ok.inj ha₁
    obtain ⟨b₂, hv₂, hb⟩ := Visit.exists_act_of_currentName? h hv₁
    rw [List.map_cons, follow, Visit.act_later, hv₂]
    exact ih hb hvs

/-- Visits that fail fail later, with the same visit. -/
theorem Draft.follow_later_of_error (n : Nat) {before after : List Visit} {v : Visit}
    {d : Draft} {e : ConfigError} (h : d₁.currentName? = d₂.currentName?)
    (hf : d₁.follow fs limit before = .ok d) (hv : v.act fs limit d = .error e) :
    d₂.follow fs limit ((before ++ v :: after).map (Visit.later n)) =
      .error (v.errorLater n e) := by
  obtain ⟨d', hd', hcur⟩ := exists_follow_later n h hf
  have hv' := Visit.act_eq_error_of_currentName? hcur hv
  rw [List.map_append, List.map_cons, follow_append, hd']
  dsimp only
  rw [follow, Visit.act_later, hv']
  rfl

end Lockstep

/-! ## Texts that open a section -/

/-- The first line that is no comment is the header of a section. -/
def Line.OpensSection (bytes : Bytes) : Prop :=
  ∃ before line after name, lines bytes = before ++ line :: after ∧
    (∀ l ∈ before, token? l = some .comment) ∧ IsHeader line name

theorem Line.IsHeader.includeValues?_eq_none {line : Bytes} {name : String}
    (h : IsHeader line name) : includeValues? line = none := by
  rw [includeValues?, token_eq_header_iff.2 h]

/-- From a header on it is read as if it stood first. -/
theorem Draft.follow_opening (fs : FileSystem) (limit number k : Nat) {before : List Bytes}
    {line : Bytes} {name : String} (hbefore : ∀ l ∈ before, Line.token? l = some .comment)
    (hline : Line.IsHeader line name) (d : Draft) (vs : List Visit) :
    d.follow fs limit (visits fs limit 0 number before ++ .line 0 k line :: vs) =
      (d.header name).follow fs limit vs := by
  rw [follow_append, follow_comments fs limit 0 number hbefore]
  dsimp only
  rw [follow, Visit.act, Line.token_eq_header_iff.2 hline]
  rfl

theorem visits_opening (fs : FileSystem) (limit number : Nat) (before : List Bytes) {line : Bytes}
    {name : String} (hline : Line.IsHeader line name) (after : List Bytes) :
    visits fs limit 0 number (before ++ line :: after) =
      visits fs limit 0 number before ++ .line 0 (number + before.length + 1) line ::
        visits fs limit 0 (number + before.length + 1) after := by
  rw [visits_append, visits_cons, included_eq_nil hline.includeValues?_eq_none, List.nil_append]

/-! ## What is joined -/

/-- The tokens that reading some bytes comes to, those of included files in their place. -/
def tokensRead (fs : FileSystem) (limit : Nat) (bytes : Bytes) : List Token :=
  (visits fs limit 0 0 (Line.lines bytes)).filterMap fun v => v.said?.join

/-- What `c` becomes when `c'` is read behind it, `ts` being the lines about the options that made
`c'`: its lists, flags and repositories are added, and its other settings count where a line of
`ts` gives them. -/
structure Config.Joins (c c' : Config) (ts : List Token) (j : Config) : Prop where
  list : ∀ f, j.list f = c.list f ++ c'.list f
  flags : j.options.bits = c.options.bits ||| c'.options.bits
  repos : j.repos = c.repos ++ c'.repos
  scalar : ∀ f, j.scalar f = if given f.name ts = [] then c.scalar f else c'.scalar f
  level : ∀ f, j.level f = if given f.name ts = [] then c.level f else c'.level f

/-- The same lines join what they make of the empty configuration to any other. -/
theorem Config.Takes.joins {c c' j : Config} {ts : List Token} (h' : Config.default.Takes ts c')
    (h : c.Takes ts j) (hrepos : j.repos = c.repos ++ c'.repos) : c.Joins c' ts j where
  list f := by
    have hnone : Config.default.list f = [] := by cases f <;> rfl
    rw [h.list, h'.list, hnone, List.nil_append]
  flags := by
    refine BitVec.eq_of_getLsbD_eq fun i _ => Bool.eq_iff_iff.2 ?_
    have hnone : ¬ Config.default.options.bits.getLsbD i = true := by
      have hzero : Config.default.options.bits = 0 := rfl
      simp [hzero]
    rw [BitVec.getLsbD_or, Bool.or_eq_true, h.flag, h'.flag]
    simp [hnone]
  repos := hrepos
  scalar f := by
    split
    · next hnil => exact h.scalar_kept f hnil
    · next hne =>
      have hlast := List.getLast?_eq_some_getLast hne
      rw [h.scalar_last f _ hlast, h'.scalar_last f _ hlast]
  level f := by
    split
    · next hnil => exact h.level_kept f hnil
    · next hne =>
      have hlast := List.getLast?_eq_some_getLast hne
      exact Except.ok.inj ((h.level_last f _ hlast).symm.trans (h'.level_last f _ hlast))

theorem Repository.Takes.unique {r r₁ r₂ : Repository} {ts : List Token} (h₁ : r.Takes ts r₁)
    (h₂ : r.Takes ts r₂) : r₁ = r₂ := by
  have hname : r₁.name = r₂.name := h₁.name.trans h₂.name.symm
  have hservers : r₁.servers = r₂.servers := h₁.servers.trans h₂.servers.symm
  have hlevel : r₁.sigLevel = r₂.sigLevel := by
    cases hlast : (given "SigLevel" ts).getLast? with
    | none =>
      have hnil := List.getLast?_eq_none_iff.1 hlast
      rw [h₁.level_kept hnil, h₂.level_kept hnil]
    | some values =>
      exact Except.ok.inj ((h₁.level_last values hlast).symm.trans (h₂.level_last values hlast))
  cases r₁
  cases r₂
  simp_all

/-- Only the section that is open matters to which lines are about the options. -/
theorem optionLinesAfter_congr {before before' : List Token}
    (h : AmongOptions before ↔ AmongOptions before') (ts : List Token) :
    optionLinesAfter before ts = optionLinesAfter before' ts := by
  induction ts generalizing before before' with
  | nil => rfl
  | cons t ts ih =>
    have hnext : AmongOptions (before ++ [t]) ↔ AmongOptions (before' ++ [t]) := by
      cases ht : t.header? with
      | none => rw [amongOptions_plain before ht, amongOptions_plain before' ht, h]
      | some name =>
        obtain rfl := Token.header?_eq_some_iff.1 ht
        rw [amongOptions_header, amongOptions_header]
    simp only [optionLinesAfter, h, ih hnext]

/-- Comments and headers give nothing. -/
theorem given_optionLines_opening (key name : String) (cs ts : List Token) (before : List Token)
    (h : ∀ t ∈ cs, t = .comment) :
    given key (optionLinesAfter before (cs ++ .header name :: ts)) =
      given key (optionLinesAfter [.header name] ts) := by
  induction cs generalizing before with
  | nil =>
    have hsame : AmongOptions (before ++ [.header name]) ↔ AmongOptions [.header name] := by
      rw [amongOptions_header, ← amongOptions_header [] name, List.nil_append]
    have hnone : given key (if AmongOptions before then [.header name] else []) = [] := by
      split <;> rfl
    rw [List.nil_append, optionLinesAfter, given_append, hnone, optionLinesAfter_congr hsame]
    rfl
  | cons t cs ih =>
    obtain ⟨rfl, hcs⟩ := List.forall_mem_cons.1 h
    have hnone : given key (if AmongOptions before then [Token.comment] else []) = [] := by
      split <;> rfl
    rw [List.cons_append, optionLinesAfter, given_append, hnone, List.nil_append, ih _ hcs]

/-- A run over the same tokens from an open section on joins what it makes of the empty
configuration to what was there. -/
theorem Draft.joins_of_foldlM {d₀ d d' : Draft} {name : String} {ts us : List Token}
    (h' : (ts.map some).foldlM hear (({} : Draft).header name) = some d')
    (h : (ts.map some).foldlM hear (d₀.header name) = some d)
    (hus : ∀ key, given key us = given key (optionLinesAfter [.header name] ts)) :
    d₀.finish.Joins d'.finish us d.finish := by
  have hopen (a : Draft) :
      (a.header name).current = none ↔ AmongOptions [.header name] := by
    rw [current_header, ← List.nil_append [Token.header name], amongOptions_header]
    split <;> simp [*]
  obtain ⟨htakes', opened', rs', hopened', hrs', heq'⟩ := becomes_of_foldlM h' (hopen {})
  obtain ⟨htakes, opened, rs, hopened, hrs, heq⟩ := becomes_of_foldlM h (hopen d₀)
  rw [config_header] at htakes htakes' heq heq'
  rw [current_header] at hopened hopened'
  have hopenUnique : Relator.RightUnique fun r r' : Repository => r.Takes (sectionLines ts) r' :=
    fun _ _ _ h₁ h₂ => h₁.unique h₂
  have hunique : Relator.RightUnique Repository.OfSection :=
    fun _ _ _ h₁ h₂ => Repository.Takes.unique h₁ h₂
  obtain rfl : opened = opened' := List.right_unique_forall₂' hopenUnique hopened hopened'
  obtain rfl : rs = rs' := List.right_unique_forall₂' hunique hrs hrs'
  have hrepos : d.finish.repos = d₀.finish.repos ++ d'.finish.repos := by
    rw [heq, heq', finish_empty, List.append_assoc]
    rfl
  obtain ⟨hlist, hflags, hrepos, hscalar, hlevel⟩ := Config.Takes.joins htakes' htakes hrepos
  exact ⟨hlist, hflags, hrepos, fun f => by rw [hus]; exact hscalar f,
    fun f => by rw [hus]; exact hlevel f⟩

/-- The tokens of a text that opens a section: comments, the header, and what comes behind it. -/
theorem tokensRead_opening (fs : FileSystem) (limit : Nat) {bytes : Bytes}
    {before after : List Bytes} {line : Bytes} {name : String} {ts : List Token}
    (hlines : Line.lines bytes = before ++ line :: after)
    (hbefore : ∀ l ∈ before, Line.token? l = some .comment) (hline : Line.IsHeader line name)
    (hts : (visits fs limit 0 (before.length + 1) after).filterMap Visit.said? = ts.map some) :
    tokensRead fs limit bytes = before.map (fun _ => Token.comment) ++ .header name :: ts := by
  have hplain : ∀ l ∈ before, Line.includeValues? l = none := fun l hl => by
    rw [Line.includeValues?_eq, hbefore l hl]
  have hcomments : (visits fs limit 0 0 before).filterMap Visit.said? =
      (before.map fun _ => Token.comment).map some := by
    rw [(visits_plain fs limit 0 0 hplain).2, List.map_map]
    exact List.map_congr_left hbefore
  have hheader : (Visit.line 0 (before.length + 1) line).said? = some (some (.header name)) := by
    simp [Visit.said?, hline.includeValues?_eq_none,
      (Line.token?_eq_some_iff 0).2 (Line.token_eq_header_iff.2 hline)]
  have hjoin (vs : List Visit) : vs.filterMap (fun v => v.said?.join) =
      (vs.filterMap Visit.said?).filterMap id := by
    rw [List.filterMap_filterMap]
    rfl
  rw [tokensRead, hjoin, hlines, visits_opening fs limit 0 before hline, Nat.zero_add,
    List.filterMap_append, List.filterMap_cons, hheader, hcomments, hts]
  simp

/-! ## Reading a text behind another -/

section Behind

variable {fs : FileSystem} {limit : Nat} {q : Bytes}

/-- A text that opens a section is read from its header on, with any number of lines before it. -/
theorem Draft.follow_lines_opening (number : Nat) {before after : List Bytes} {line : Bytes}
    {name : String} (hlines : Line.lines q = before ++ line :: after)
    (hbefore : ∀ l ∈ before, Line.token? l = some .comment) (hline : Line.IsHeader line name)
    (d : Draft) :
    d.follow fs limit (visits fs limit 0 number (Line.lines q)) =
      (d.header name).follow fs limit
        ((visits fs limit 0 (before.length + 1) after).map (Visit.later number)) := by
  have hnumber : number + before.length + 1 = before.length + 1 + number := by omega
  rw [hlines, visits_opening fs limit number before hline, ← visits_add, ← hnumber]
  exact follow_opening fs limit number _ hbefore hline d _

/-- Behind any other text it fails where it fails by itself. -/
theorem Draft.follow_later_of_parse_error (hq : Line.OpensSection q) {e : ConfigError}
    (he : parse fs q limit = .error e) (n : Nat) (d : Draft) :
    ∃ before v after, visits fs limit 0 0 (Line.lines q) = before ++ v :: after ∧
      Faultless fs limit before ∧ Offence fs limit (openRepository? before) v e ∧
      d.follow fs limit (visits fs limit 0 n (Line.lines q)) = .error (v.errorLater n e) := by
  obtain ⟨before, line, after, name, hlines, hbefore, hline⟩ := hq
  have hvisits := visits_opening fs limit 0 before hline after
  rw [← hlines, Nat.zero_add] at hvisits
  have hopening (vs : List Visit) := follow_opening fs limit 0 (before.length + 1) hbefore hline
    {} vs
  rw [parse_eq_follow, Except.map_eq_error_iff, hvisits, hopening, follow_eq_error_iff] at he
  obtain ⟨front, v, back, d', hsplit, hfront, hv⟩ := he
  have hgood := (hopening front).trans hfront
  refine ⟨_, v, back, ?_, exists_follow_iff.1 ⟨d', hgood⟩,
    (act_eq_error_iff_of_follow hgood).1 hv, ?_⟩
  · rw [hvisits, hsplit, List.append_assoc, List.cons_append]
  · have hcur : (({} : Draft).header name).currentName? = (d.header name).currentName? := by
      rw [currentName?_header, currentName?_header]
    rw [follow_lines_opening n hlines hbefore hline, hsplit]
    exact follow_later_of_error n hcur hfront hv

/-- Behind any other text it joins to the configuration there what it makes by itself. -/
theorem Draft.follow_later_of_parse_ok (hq : Line.OpensSection q) {c : Config}
    (hc : parse fs q limit = .ok c) (n : Nat) (d : Draft) :
    ∃ j, d.follow fs limit (visits fs limit 0 n (Line.lines q)) = .ok j ∧
      d.finish.Joins c (optionLines (tokensRead fs limit q)) j.finish := by
  obtain ⟨before, line, after, name, hlines, hbefore, hline⟩ := hq
  obtain ⟨d', hd', rfl⟩ := parse_eq_ok_iff.1 hc
  rw [hlines, visits_opening fs limit 0 before hline, follow_opening fs limit 0 _ hbefore hline,
    Nat.zero_add] at hd'
  have hcur : (({} : Draft).header name).currentName? = (d.header name).currentName? := by
    rw [currentName?_header, currentName?_header]
  obtain ⟨j, hj, -⟩ := exists_follow_later n hcur hd'
  refine ⟨j, (follow_lines_opening n hlines hbefore hline d).trans hj, ?_⟩
  have hheard' := (follow_eq_ok_iff.1 hd').2
  have hheard := (follow_eq_ok_iff.1 hj).2
  obtain ⟨ts, hts⟩ := exists_tokens_of_foldlM hheard'
  have hsaid : ((visits fs limit 0 (before.length + 1) after).map (Visit.later n)).filterMap
      Visit.said? = ts.map some := by
    rw [List.filterMap_map, ← hts]
    exact List.filterMap_congr fun v _ => v.said?_later _
  rw [hsaid] at hheard
  rw [hts] at hheard'
  refine joins_of_foldlM hheard' hheard fun key => ?_
  rw [tokensRead_opening fs limit hlines hbefore hline hts, optionLines]
  exact given_optionLines_opening key name _ ts [] (by simp)

end Behind

/-- **One text behind another.** A text whose first line that is no comment is a header is read
behind any other text that is ended. An error of the first text is the error of both; an error of
the second one is, too, but the lines of this text, not those of files that it includes, are counted
on from the first. If both are read, so are the two together, and the second is joined to the
first. -/
theorem parse_append (fs : FileSystem) (limit : Nat) {p q : Bytes} (hp : Line.Closed p)
    (hq : Line.OpensSection q) :
    (∀ e, parse fs p limit = .error e → parse fs (p ++ q) limit = .error e) ∧
    ∀ c, parse fs p limit = .ok c →
      (∀ e, parse fs q limit = .error e →
        ∃ before v after, visits fs limit 0 0 (Line.lines q) = before ++ v :: after ∧
          Faultless fs limit before ∧ Offence fs limit (openRepository? before) v e ∧
          parse fs (p ++ q) limit = .error (v.errorLater (Line.lines p).length e)) ∧
      ∀ c', parse fs q limit = .ok c' →
        ∃ j, parse fs (p ++ q) limit = .ok j ∧
          c.Joins c' (optionLines (tokensRead fs limit q)) j := by
  have hboth : visits fs limit 0 0 (Line.lines (p ++ q)) =
      visits fs limit 0 0 (Line.lines p) ++
        visits fs limit 0 (Line.lines p).length (Line.lines q) := by
    rw [Line.lines_append hp, visits_append, Nat.zero_add]
  refine ⟨fun e he => ?_, fun c hc => ?_⟩
  · rw [parse_eq_follow, Except.map_eq_error_iff] at he ⊢
    rw [hboth, Draft.follow_append, he]
  obtain ⟨d, hd, rfl⟩ := parse_eq_ok_iff.1 hc
  have hread : ({} : Draft).follow fs limit (visits fs limit 0 0 (Line.lines (p ++ q))) =
      d.follow fs limit (visits fs limit 0 (Line.lines p).length (Line.lines q)) := by
    rw [hboth, Draft.follow_append, hd]
  refine ⟨fun e he => ?_, fun c' hc' => ?_⟩
  · obtain ⟨before, v, after, hsplit, hclean, hoff, hlater⟩ :=
      Draft.follow_later_of_parse_error hq he (Line.lines p).length d
    refine ⟨before, v, after, hsplit, hclean, hoff, ?_⟩
    rw [parse_eq_follow, Except.map_eq_error_iff, hread, hlater]
  · obtain ⟨j, hj, hjoins⟩ := Draft.follow_later_of_parse_ok hq hc' (Line.lines p).length d
    exact ⟨j.finish, parse_eq_ok_iff.2 ⟨j, hread.trans hj, rfl⟩, hjoins⟩

/-! ### A text that leaves a section open -/

/-- A flag and a section that is still open at the end. -/
def frontText : Bytes := Text.encode "Color\n[c]\n".toList

/-- A text that opens another section, behind a comment. -/
def backText : Bytes := Text.encode "#\n[d]\nInclude=m\n".toList

def backFiles : FileSystem := .ofList [("m", .ok (.bytes (Text.encode "Server=s".toList)))]

/-- A text with an error in its second line. -/
def wrongText : Bytes := Text.encode "[d]\nx\n".toList

theorem closed_frontText : Line.Closed frontText := by
  have hlast : frontText.getLast? = some 0x0A := by decide
  intro b hb
  rw [hlast] at hb
  exact (Option.some.inj hb).symm

theorem isHeader_d : Line.IsHeader (Text.encode "[d]\n".toList) "d" := by
  have htoken : Line.token (Text.encode "[d]\n".toList) 0 = .ok (.header "d") := by cbv
  exact Line.token_eq_header_iff.1 htoken

theorem opensSection_backText : Line.OpensSection backText := by
  have hlines : Line.lines backText = [Text.encode "#\n".toList] ++
      Text.encode "[d]\n".toList :: [Text.encode "Include=m\n".toList] := by decide
  have hcomment : Line.token? (Text.encode "#\n".toList) = some .comment := by cbv
  exact ⟨_, _, _, _, hlines, List.forall_mem_singleton.2 hcomment, isHeader_d⟩

theorem lines_wrongText : Line.lines wrongText =
    [Text.encode "[d]\n".toList, Text.encode "x\n".toList] := by decide

theorem opensSection_wrongText : Line.OpensSection wrongText :=
  ⟨[], _, _, _, lines_wrongText, by simp, isHeader_d⟩

theorem depth_of_mem_visits_wrongText {fs : FileSystem} {limit : Nat} {v : Visit}
    (h : v ∈ visits fs limit 0 0 (Line.lines wrongText)) :
    ∃ number line, v = .line 0 number line := by
  have hx : Line.includeValues? (Text.encode "x\n".toList) = none := by cbv
  rw [lines_wrongText, visits_cons, included_eq_nil isHeader_d.includeValues?_eq_none, visits_cons,
    included_eq_nil hx] at h
  simp only [visits_nil, List.nil_append, List.mem_cons, List.not_mem_nil, or_false] at h
  rcases h with rfl | rfl
  · exact ⟨_, _, rfl⟩
  · exact ⟨_, _, rfl⟩

/-- The flag is kept, the sections are added, and the error in the second line is one in the
fourth. -/
theorem parse_append_frontText :
    Line.Closed frontText ∧ Line.OpensSection backText ∧ Line.OpensSection wrongText ∧
    (∃ c c' j, parse backFiles frontText = .ok c ∧ parse backFiles backText = .ok c' ∧
      parse backFiles (frontText ++ backText) = .ok j ∧
      c.Joins c' (optionLines (tokensRead backFiles defaultIncludeLimit backText)) j ∧
      j.options.bits = Flag.color.bit ∧
      j.repos = [{ name := "c" }, { name := "d", servers := ["s"] }]) ∧
    parse backFiles wrongText = .error (.outsideOptions 2 "x") ∧
    parse backFiles (frontText ++ wrongText) = .error (.outsideOptions 4 "x") := by
  have hfront : parse backFiles frontText =
      .ok { options := ⟨Flag.color.bit⟩, repos := [{ name := "c" }] } := by cbv
  have hback : parse backFiles backText = .ok { repos := [{ name := "d", servers := ["s"] }] } := by
    cbv
  have hwrong : parse backFiles wrongText = .error (.outsideOptions 2 "x") := by cbv
  have hlength : (Line.lines frontText).length = 2 := by decide
  obtain ⟨j, hj, hjoins⟩ := ((parse_append backFiles defaultIncludeLimit closed_frontText
    opensSection_backText).2 _ hfront).2 _ hback
  obtain ⟨before, v, after, hsplit, -, -, herror⟩ := ((parse_append backFiles
    defaultIncludeLimit closed_frontText opensSection_wrongText).2 _ hfront).1 _ hwrong
  have hv : v ∈ visits backFiles defaultIncludeLimit 0 0 (Line.lines wrongText) :=
    hsplit ▸ List.mem_append_right before List.mem_cons_self
  obtain ⟨number, line, rfl⟩ := depth_of_mem_visits_wrongText hv
  rw [hlength] at herror
  exact ⟨closed_frontText, opensSection_backText, opensSection_wrongText,
    ⟨_, _, j, hfront, hback, hj, hjoins, hjoins.flags, hjoins.repos⟩, hwrong, herror⟩

end PackageConf
