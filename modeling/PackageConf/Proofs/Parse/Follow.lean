import PackageConf.Proofs.Parse.Visits
/-!
# Laws of following visits

A run is a sequence of visits that act one after the other (`run_eq_follow`). Here are the laws of
such sequences: where the first error comes from (`follow_eq_error_iff`), and when there is none
(`follow_eq_ok_iff`). In the second case the visits matter only through what they say: an `Include`
line that can be followed says nothing, and of any other line the place does not count.
-/
namespace PackageConf

/-- Induction along the lines of a file and of the files it includes. -/
theorem visits_induction (fs : FileSystem) (limit : Nat) {P : Nat → Nat → List Bytes → Prop}
    (nil : ∀ depth number, P depth number [])
    (cons : ∀ depth number line rest,
      (∀ content, depth < limit → Line.target? fs line = some (.bytes content) →
        P (depth + 1) 0 (Line.lines content)) →
      P depth (number + 1) rest → P depth number (line :: rest))
    (depth number : Nat) (ls : List Bytes) : P depth number ls :=
  match ls with
  | [] => nil depth number
  | line :: rest =>
    cons depth number line rest
      (fun content _ _ => visits_induction fs limit nil cons (depth + 1) 0 (Line.lines content))
      (visits_induction fs limit nil cons depth (number + 1) rest)
termination_by (limit - depth, ls.length)

/-! ## The first error -/

namespace Draft

theorem follow_append (fs : FileSystem) (limit : Nat) (d : Draft) (vs ws : List Visit) :
    d.follow fs limit (vs ++ ws) =
      match d.follow fs limit vs with
      | .ok d' => d'.follow fs limit ws
      | .error e => .error e := by
  induction vs generalizing d with
  | nil => rfl
  | cons v vs ih =>
    simp only [List.cons_append, follow]
    cases v.act fs limit d with
    | ok d' => exact ih d'
    | error e => rfl

/-- An error of a sequence is that of one visit, and those before it have acted. -/
theorem follow_eq_error_iff {fs : FileSystem} {limit : Nat} {d : Draft} {vs : List Visit}
    {e : ConfigError} :
    d.follow fs limit vs = .error e ↔
      ∃ before v after d', vs = before ++ v :: after ∧ d.follow fs limit before = .ok d' ∧
        v.act fs limit d' = .error e := by
  constructor
  · intro h
    induction vs generalizing d with
    | nil => cases h
    | cons v vs ih =>
      rw [follow] at h
      cases hv : v.act fs limit d with
      | error e' =>
        rw [hv] at h
        exact ⟨[], v, vs, d, rfl, rfl, hv.trans h⟩
      | ok d₁ =>
        rw [hv] at h
        obtain ⟨before, w, after, d', rfl, hb, hw⟩ := ih h
        exact ⟨v :: before, w, after, d', rfl, by rw [follow, hv]; exact hb, hw⟩
  · rintro ⟨before, v, after, d', rfl, hb, hv⟩
    rw [follow_append, hb]
    simp only [follow, hv]

/-- Every visit of a sequence that goes through acts on the draft made by those before it. -/
theorem exists_act_of_follow {fs : FileSystem} {limit : Nat} {d d' : Draft}
    {before after : List Visit} {v : Visit}
    (h : d.follow fs limit (before ++ v :: after) = .ok d') :
    ∃ d₁ d₂, d.follow fs limit before = .ok d₁ ∧ v.act fs limit d₁ = .ok d₂ ∧
      d₂.follow fs limit after = .ok d' := by
  rw [follow_append] at h
  cases hb : d.follow fs limit before with
  | error e => simp [hb] at h
  | ok d₁ =>
    simp only [hb, follow] at h
    cases hv : v.act fs limit d₁ with
    | error e => simp [hv] at h
    | ok d₂ => exact ⟨d₁, d₂, rfl, hv, by simpa only [hv] using h⟩

end Draft

/-! ## What is said, apart from where -/

def Token.header? : Token → Option String
  | .header name => some name
  | _ => none

theorem Token.header?_eq_some_iff {t : Token} {name : String} :
    t.header? = some name ↔ t = .header name := by
  cases t <;> simp [Token.header?]

def Line.token? (line : Bytes) : Option Token := (Line.token line 0).toOption

theorem Line.token?_eq_some_iff {line : Bytes} {t : Token} (number : Nat) :
    token? line = some t ↔ token line number = .ok t := by
  rw [token?, Except.toOption_eq_some_iff]
  exact ⟨fun h => token_of_ok h number, fun h => token_of_ok h 0⟩

theorem Line.token?_of_error {line : Bytes} {number : Nat} {e : ConfigError}
    (h : token line number = .error e) : token? line = none := by
  cases ht : token? line with
  | none => rfl
  | some t =>
    rw [(token?_eq_some_iff number).1 ht] at h
    cases h

theorem Line.includeValues?_eq (line : Bytes) :
    includeValues? line = match token? line with
      | some (.key name values) => if name = ParseState.includeName then some values else none
      | _ => none := by
  unfold includeValues? token?
  cases token line 0 with
  | error e => rfl
  | ok t => cases t <;> rfl

theorem Line.includeValues?_eq_none_iff {line : Bytes} :
    includeValues? line = none ↔
      ∀ values, token? line ≠ some (.key ParseState.includeName values) := by
  rw [includeValues?_eq]
  constructor
  · intro h values ht
    rw [ht] at h
    simp at h
  · intro h
    split
    · next name values ht =>
      refine if_neg fun hname => ?_
      exact h values (hname ▸ ht)
    · rfl

/-- The token that a visit passes on, or `none` inside where there is no token; an `Include` line
passes nothing on. -/
def Visit.said? : Visit → Option (Option Token)
  | .line _ _ bytes => if (Line.includeValues? bytes).isSome then none else some (Line.token? bytes)
  | .unreadable _ => some none

/-- If the visit is an `Include` line, it can be followed. -/
def Visit.Passes (fs : FileSystem) (limit : Nat) : Visit → Prop
  | .line depth number bytes => ∀ values, Line.includeValues? bytes = some values →
      checkInclude fs limit depth number values = .ok ()
  | .unreadable _ => True

/-- What a draft becomes by a token that is passed on. -/
def Draft.hear (d : Draft) : Option Token → Option Draft
  | none => none
  | some .comment => some d
  | some (.header name) => some (d.header name)
  | some (.key name values) => (d.key 0 name values).toOption

/-- Whether a key is accepted does not depend on its line. -/
theorem Draft.key_toOption (d : Draft) (n m : Nat) (name : String) (values : List String) :
    (d.key n name values).toOption = (d.key m name values).toOption := by
  unfold Draft.key
  cases d.current with
  | none =>
    simp only [Config.assign]
    split
    · rfl
    · rfl
    · rfl
    · rfl
    · split <;> rfl
  | some r =>
    simp only [Repository.assign]
    split
    · split <;> rfl
    · split
      · rfl
      · split <;> rfl

namespace Visit

/-- A visit goes well if it passes and what it says is understood. -/
theorem act_eq_ok_iff {fs : FileSystem} {limit : Nat} {v : Visit} {d d' : Draft} :
    v.act fs limit d = .ok d' ↔
      v.Passes fs limit ∧ (match v.said? with | none => d' = d | some t => d.hear t = some d') := by
  cases v with
  | unreadable cause => simp [act, said?, Draft.hear]
  | line depth number bytes =>
    cases ht : Line.token bytes number with
    | error e =>
      have hnone := Line.token?_of_error ht
      simp [act, ht, Passes, said?, Line.includeValues?_eq, hnone, Draft.hear]
    | ok t =>
      have htok := (Line.token?_eq_some_iff number).2 ht
      cases t with
      | comment =>
        simp [act, ht, Passes, said?, Line.includeValues?_eq, htok, Draft.take, Draft.hear]
      | header name =>
        simp [act, ht, Passes, said?, Line.includeValues?_eq, htok, Draft.take, Draft.hear]
      | key name values =>
        have hvals := Line.includeValues?_of_token ht
        by_cases hname : name = ParseState.includeName
        · rw [if_pos hname] at hvals
          simp only [act, ht, Draft.take, hname, if_true, Passes, said?, hvals, Option.isSome_some,
            Option.some.injEq, forall_eq']
          cases checkInclude fs limit depth number values <;>
            simp [Except.map, eq_comm]
        · rw [if_neg hname] at hvals
          simp only [act, ht, Draft.take, hname, if_false, Passes, said?, hvals, htok,
            Option.isSome_none, Draft.hear, reduceCtorEq, false_implies, implies_true, true_and,
            Bool.false_eq_true]
          rw [d.key_toOption 0 number, Except.toOption_eq_some_iff]

end Visit

/-- **A sequence of visits goes well** if all its `Include` lines can be followed and what it says
is understood from first to last. -/
theorem Draft.follow_eq_ok_iff {fs : FileSystem} {limit : Nat} {vs : List Visit} {d d' : Draft} :
    d.follow fs limit vs = .ok d' ↔
      (∀ v ∈ vs, v.Passes fs limit) ∧ (vs.filterMap Visit.said?).foldlM Draft.hear d = some d' := by
  induction vs generalizing d with
  | nil => simp [follow, eq_comm]
  | cons v vs ih =>
    have hstep : d.follow fs limit (v :: vs) = .ok d' ↔
        ∃ d₁, v.act fs limit d = .ok d₁ ∧ d₁.follow fs limit vs = .ok d' := by
      rw [follow]
      cases v.act fs limit d <;> simp
    rw [hstep]
    simp only [Visit.act_eq_ok_iff, ih, List.forall_mem_cons]
    cases hs : v.said? with
    | none =>
      simp only [List.filterMap_cons, hs]
      constructor
      · rintro ⟨d₁, ⟨hv, rfl⟩, hvs, hd⟩; exact ⟨⟨hv, hvs⟩, hd⟩
      · rintro ⟨⟨hv, hvs⟩, hd⟩; exact ⟨d, ⟨hv, rfl⟩, hvs, hd⟩
    | some t =>
      simp only [List.filterMap_cons, hs, List.foldlM_cons, Option.bind_eq_bind,
        Option.bind_eq_some_iff]
      constructor
      · rintro ⟨d₁, ⟨hv, ht⟩, hvs, hd⟩; exact ⟨⟨hv, hvs⟩, d₁, ht, hd⟩
      · rintro ⟨⟨hv, hvs⟩, d₁, ht, hd⟩; exact ⟨d₁, ⟨hv, ht⟩, hvs, hd⟩

/-- What is understood to its end are tokens. -/
theorem exists_tokens_of_foldlM {d d' : Draft} {said : List (Option Token)}
    (h : said.foldlM Draft.hear d = some d') : ∃ ts : List Token, said = ts.map some := by
  induction said generalizing d with
  | nil => exact ⟨[], rfl⟩
  | cons t said ih =>
    rw [List.foldlM_cons] at h
    obtain ⟨d₁, ht, hsaid⟩ := Option.bind_eq_some_iff.1 h
    obtain ⟨ts, rfl⟩ := ih hsaid
    cases t with
    | none => cases ht
    | some t => exact ⟨t :: ts, rfl⟩

theorem Draft.said?_of_follow {fs : FileSystem} {limit : Nat} {vs : List Visit} {d d' : Draft}
    (h : d.follow fs limit vs = .ok d') {v : Visit} (hv : v ∈ vs) : v.said? ≠ some none := by
  intro hs
  obtain ⟨ts, hts⟩ := exists_tokens_of_foldlM (follow_eq_ok_iff.1 h).2
  have hmem : none ∈ vs.filterMap Visit.said? := List.mem_filterMap.2 ⟨v, hv, hs⟩
  rw [hts] at hmem
  obtain ⟨t, -, ht⟩ := List.mem_map.1 hmem
  cases ht

/-- Every line of a sequence that goes well has a token. -/
theorem Draft.exists_token_of_follow {fs : FileSystem} {limit : Nat} {vs : List Visit}
    {d d' : Draft} (h : d.follow fs limit vs = .ok d') {depth number : Nat} {line : Bytes}
    (hv : .line depth number line ∈ vs) : ∃ t, Line.token? line = some t := by
  have hsaid := said?_of_follow h hv
  cases ht : Line.token? line with
  | some t => exact ⟨t, rfl⟩
  | none =>
    have hnone : Line.includeValues? line = none := by rw [Line.includeValues?_eq, ht]
    simp [Visit.said?, hnone, ht] at hsaid

theorem Line.length_le_of_token? {line : Bytes} {t : Token} (h : token? line = some t) :
    (content line).length ≤ maxLength := by
  have ht := (token?_eq_some_iff 0).1 h
  unfold token at ht
  split at ht
  · cases ht
  · next hlen => exact Nat.not_lt.1 hlen

/-! ## Which lines are visited -/

theorem visits_append (fs : FileSystem) (limit depth number : Nat) (ls ms : List Bytes) :
    visits fs limit depth number (ls ++ ms) =
      visits fs limit depth number ls ++ visits fs limit depth (number + ls.length) ms := by
  induction ls generalizing number with
  | nil => simp
  | cons l ls ih =>
    have hlength : number + 1 + ls.length = number + (l :: ls).length := by
      rw [List.length_cons]
      omega
    rw [List.cons_append, visits_cons, visits_cons, ih, hlength]
    simp

theorem Draft.follow_comments (fs : FileSystem) (limit depth number : Nat) {ls : List Bytes}
    (h : ∀ l ∈ ls, Line.token? l = some .comment) (d : Draft) :
    d.follow fs limit (visits fs limit depth number ls) = .ok d := by
  induction ls generalizing number with
  | nil => rw [visits_nil, follow]
  | cons l ls ih =>
    obtain ⟨hl, hls⟩ := List.forall_mem_cons.1 h
    have hplain : Line.includeValues? l = none := by rw [Line.includeValues?_eq, hl]
    have htoken := (Line.token?_eq_some_iff (number + 1)).1 hl
    rw [visits_cons, included_eq_nil hplain, follow, Visit.act, htoken]
    exact ih (number + 1) hls

theorem Line.target?_eq_some_iff {fs : FileSystem} {line : Bytes} {source : Source} :
    target? fs line = some source ↔
      ∃ path values, includeValues? line = some (path :: values) ∧
        fs.access path = .ok source := by
  unfold target?
  constructor
  · intro h
    split at h
    · next path values hvals => exact ⟨path, values, hvals, Except.toOption_eq_some_iff.1 h⟩
    · cases h
  · rintro ⟨path, values, hvals, hacc⟩
    rw [hvals]
    exact Except.toOption_eq_some_iff.2 hacc

/-- What a line leads to is visited in reading its source, one include deeper. -/
theorem mem_included_iff {fs : FileSystem} {limit depth : Nat} {line : Bytes} {v : Visit} :
    v ∈ included fs limit depth line ↔
      depth < limit ∧ ∃ source, Line.target? fs line = some source ∧
        v ∈ source.visits fs limit (depth + 1) := by
  unfold included
  split
  · next hd => cases Line.target? fs line <;> simp [hd]
  · next hd => simp [hd]

theorem exists_visit_of_mem (fs : FileSystem) (limit depth number : Nat) {ls : List Bytes}
    {line : Bytes} (h : line ∈ ls) :
    ∃ n, Visit.line depth n line ∈ visits fs limit depth number ls := by
  induction ls generalizing number with
  | nil => cases h
  | cons l ls ih =>
    rw [visits_cons]
    rcases List.mem_cons.1 h with rfl | h
    · exact ⟨number + 1, List.mem_cons_self⟩
    · obtain ⟨n, hn⟩ := ih (number + 1) h
      exact ⟨n, List.mem_cons_of_mem _ (List.mem_append_right _ hn)⟩

/-- Where a line is visited, what it includes is visited too. -/
theorem mem_visits_of_included {fs : FileSystem} {limit depth number k n : Nat} {ls : List Bytes}
    {line : Bytes} {w : Visit} (h : .line k n line ∈ visits fs limit depth number ls)
    (hw : w ∈ included fs limit k line) : w ∈ visits fs limit depth number ls := by
  induction depth, number, ls using visits_induction fs limit with
  | nil depth number => simp at h
  | cons depth number l rest ihInner ihRest =>
    rw [visits_cons] at h ⊢
    refine List.mem_cons_of_mem _ (List.mem_append.2 ?_)
    rcases List.mem_cons.1 h with h | h
    · obtain ⟨rfl, -, rfl⟩ := Visit.line.inj h
      exact .inl hw
    rcases List.mem_append.1 h with h | h
    · obtain ⟨hd, source, htarget, h⟩ := mem_included_iff.1 h
      cases source with
      | bytes content =>
        exact .inl (mem_included_iff.2 ⟨hd, _, htarget, ihInner content hd htarget h⟩)
      | unreadable cause => simp [Source.visits] at h
    · exact .inr (ihRest h)

/-- The bytes that reading `x` comes to through `depth` nested `Include` lines. -/
inductive Reaches (fs : FileSystem) (x : Bytes) : Nat → Bytes → Prop
  | refl : Reaches fs x 0 x
  | step {depth : Nat} {y line content : Bytes} {path : String} {values : List String} :
      Reaches fs x depth y → line ∈ Line.lines y →
      Line.includeValues? line = some (path :: values) →
      fs.access path = .ok (.bytes content) → Reaches fs x (depth + 1) content

/-- A visit is where it says it is: a line has its number in a file that is reached through `depth`
includes, and a source that cannot be read is what a line of such a file includes. -/
def Visit.Located (fs : FileSystem) (limit : Nat) (x : Bytes) : Visit → Prop
  | .line depth number bytes =>
    ∃ y, Reaches fs x depth y ∧ number ≠ 0 ∧ (Line.lines y)[number - 1]? = some bytes
  | .unreadable cause => ∃ depth y line path values, Reaches fs x depth y ∧ line ∈ Line.lines y ∧
      Line.includeValues? line = some (path :: values) ∧ fs.access path = .ok (.unreadable cause) ∧
      depth < limit

theorem located_of_reaches {fs : FileSystem} {limit : Nat} {x : Bytes} {depth number : Nat}
    {ls : List Bytes} {y : Bytes} (hy : Reaches fs x depth y)
    (hls : (Line.lines y).drop number = ls) :
    ∀ v ∈ visits fs limit depth number ls, v.Located fs limit x := by
  induction depth, number, ls using visits_induction fs limit generalizing y with
  | nil depth number => simp
  | cons depth number line rest ihInner ihRest =>
    have hget : (Line.lines y)[number]? = some line := by
      rw [← List.head?_drop, hls]
      rfl
    have hline := List.mem_of_getElem? hget
    have hrest : (Line.lines y).drop (number + 1) = rest := by
      rw [← List.drop_drop, hls]
      rfl
    rw [visits_cons]
    refine List.forall_mem_cons.2 ⟨⟨y, hy, Nat.succ_ne_zero number, hget⟩,
      List.forall_mem_append.2 ⟨?_, ihRest hy hrest⟩⟩
    intro v hv
    obtain ⟨hd, source, htarget, hv⟩ := mem_included_iff.1 hv
    obtain ⟨path, values, hvals, hacc⟩ := Line.target?_eq_some_iff.1 htarget
    cases source with
    | bytes content => exact ihInner content hd htarget (hy.step hline hvals hacc) rfl v hv
    | unreadable cause =>
      obtain rfl := List.mem_singleton.1 hv
      exact ⟨depth, y, line, path, values, hy, hline, hvals, hacc, hd⟩

/-- All that is visited in reading some bytes is where it says it is. -/
theorem located_of_mem_visits {fs : FileSystem} {limit : Nat} {x : Bytes} {v : Visit}
    (h : v ∈ visits fs limit 0 0 (Line.lines x)) : v.Located fs limit x :=
  located_of_reaches .refl rfl v h

/-- Lines that are no `Include` are visited one after the other and say what they say. -/
theorem visits_plain (fs : FileSystem) (limit depth number : Nat) {ls : List Bytes}
    (h : ∀ l ∈ ls, Line.includeValues? l = none) :
    (∀ v ∈ visits fs limit depth number ls, v.Passes fs limit) ∧
      (visits fs limit depth number ls).filterMap Visit.said? = ls.map Line.token? := by
  induction ls generalizing number with
  | nil => simp
  | cons l ls ih =>
    obtain ⟨hl, hls⟩ := List.forall_mem_cons.1 h
    obtain ⟨hpass, hsaid⟩ := ih (number + 1) hls
    rw [visits_cons, included_eq_nil hl, List.nil_append]
    exact ⟨List.forall_mem_cons.2 ⟨by simp [Visit.Passes, hl], hpass⟩,
      by simp [Visit.said?, hl, hsaid]⟩

/-- A text without `Include` lines is read by hearing its tokens one after the other. -/
theorem parse_eq_ok_iff_of_plain (fs : FileSystem) (limit : Nat) {bytes : Bytes}
    (h : ∀ line ∈ Line.lines bytes, Line.includeValues? line = none) (c : Config) :
    parse fs bytes limit = .ok c ↔
      ∃ d : Draft, ((Line.lines bytes).map Line.token?).foldlM Draft.hear {} = some d ∧
        d.finish = c := by
  obtain ⟨hpass, hsaid⟩ := visits_plain fs limit 0 0 h
  simp only [parse_eq_ok_iff, Draft.follow_eq_ok_iff, hsaid]
  constructor
  · rintro ⟨d, ⟨-, hd⟩, hfinish⟩
    exact ⟨d, hd, hfinish⟩
  · rintro ⟨d, hd, hfinish⟩
    exact ⟨d, ⟨hpass, hd⟩, hfinish⟩

end PackageConf
