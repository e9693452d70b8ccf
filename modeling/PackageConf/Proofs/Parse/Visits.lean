import PackageConf.Parse
import PackageConf.Proofs.Line.Grammar
import PackageConf.Proofs.Line.Physical
/-!
# Reading as one walk over lines

The stack of readers is a way to go through the lines of a file and of the files it includes,
depth first: after an `Include` line come the lines of its file, and then the next line. `visits`
lists these lines by recursion on the files, without a stack and without a configuration, and
`Draft.follow` lets them act one after the other until one is in error.

`run_eq_follow` says that the two are the same: what the stack machine comes to is what following
the visits comes to. All other statements about whole runs start from there.
-/
namespace PackageConf

namespace Except

variable {ε α β : Type} {x : Except ε α}

theorem toOption_eq_some_iff {a : α} : x.toOption = some a ↔ x = .ok a := by
  cases x <;> simp [Except.toOption]

theorem map_eq_ok_iff {f : α → β} {b : β} : x.map f = .ok b ↔ ∃ a, x = .ok a ∧ f a = b := by
  cases x <;> simp [Except.map]

theorem map_eq_error_iff {f : α → β} {e : ε} : x.map f = .error e ↔ x = .error e := by
  cases x <;> simp [Except.map]

end Except

def Line.includeValues? (line : Bytes) : Option (List String) :=
  match Line.token line 0 with
  | .ok (.key name values) => if name = ParseState.includeName then some values else none
  | _ => none

/-- The number of a line matters to the errors alone. -/
theorem Line.token_of_ok {line : Bytes} {n : Nat} {t : Token} (h : Line.token line n = .ok t)
    (m : Nat) : Line.token line m = .ok t := by
  rw [token_eq_ok_iff] at h ⊢
  exact ⟨h.1, h.2.renumber m⟩

/-- What the path of an `Include` line leads to. -/
def Line.target? (fs : FileSystem) (line : Bytes) : Option Source :=
  match Line.includeValues? line with
  | some (path :: _) => (fs.access path).toOption
  | _ => none

/-- A point at which reading a file and its includes arrives: a line, with the number of includes
that are open and its number in its own file, or a source that cannot be read. -/
inductive Visit where
  | line (depth number : Nat) (bytes : Bytes)
  | unreadable (cause : FileError)
deriving DecidableEq, Repr

/-- The lines of a file from line `number + 1` on, and after each `Include` line that may be
followed the lines of its file. -/
def visits (fs : FileSystem) (limit depth number : Nat) : List Bytes → List Visit
  | [] => []
  | line :: rest =>
    .line depth (number + 1) line ::
      ((if depth < limit then
          match Line.target? fs line with
          | some (.bytes content) => visits fs limit (depth + 1) 0 (Line.lines content)
          | some (.unreadable cause) => [.unreadable cause]
          | none => []
        else []) ++ visits fs limit depth (number + 1) rest)
termination_by ls => (limit - depth, ls.length)

/-- What reading a source from its beginning visits. -/
def Source.visits (fs : FileSystem) (limit depth : Nat) : Source → List Visit
  | .bytes content => PackageConf.visits fs limit depth 0 (Line.lines content)
  | .unreadable cause => [.unreadable cause]

/-- What an `Include` line leads to next. -/
def included (fs : FileSystem) (limit depth : Nat) (line : Bytes) : List Visit :=
  if depth < limit then
    match Line.target? fs line with
    | some source => source.visits fs limit (depth + 1)
    | none => []
  else []

@[simp] theorem visits_nil (fs : FileSystem) (limit depth number : Nat) :
    visits fs limit depth number [] = [] := by
  rw [visits]

theorem visits_cons (fs : FileSystem) (limit depth number : Nat) (line : Bytes)
    (rest : List Bytes) :
    visits fs limit depth number (line :: rest) =
      .line depth (number + 1) line ::
        (included fs limit depth line ++ visits fs limit depth (number + 1) rest) := by
  rw [visits, included]
  congr 2
  split
  · split <;> rename_i h <;> simp only [h, Source.visits]
  · rfl

/-! ## What a visit does -/

namespace Visit

def token? : Visit → Option Token
  | .line _ number bytes => (Line.token bytes number).toOption
  | .unreadable _ => none

end Visit

/-- An `Include` on line `number`, with `depth` includes open, can be followed: it has a path, the
limit is not reached and the path leads somewhere. These are looked at in that order. -/
def checkInclude (fs : FileSystem) (limit depth number : Nat) (values : List String) :
    Except ConfigError Unit :=
  match values with
  | [] => .error (.missingInclude number)
  | path :: _ =>
    if limit ≤ depth then .error (.includeDepth number limit)
    else match fs.access path with
      | .ok _ => .ok ()
      | .error e => .error (.includeFailed number path e)

/-- What a token on line `number`, with `depth` includes open, makes of the draft. -/
def Draft.take (fs : FileSystem) (limit depth number : Nat) (d : Draft) :
    Token → Except ConfigError Draft
  | .comment => .ok d
  | .header name => .ok (d.header name)
  | .key name values =>
    if name = ParseState.includeName then (checkInclude fs limit depth number values).map fun _ => d
    else d.key number name values

def Visit.act (fs : FileSystem) (limit : Nat) (d : Draft) : Visit → Except ConfigError Draft
  | .line depth number bytes =>
    match Line.token bytes number with
    | .ok t => d.take fs limit depth number t
    | .error e => .error e
  | .unreadable cause => .error (.io cause)

/-- All visits one after the other; the first error ends it. -/
def Draft.follow (fs : FileSystem) (limit : Nat) (d : Draft) : List Visit → Except ConfigError Draft
  | [] => .ok d
  | v :: vs =>
    match v.act fs limit d with
    | .ok d' => Draft.follow fs limit d' vs
    | .error e => .error e

/-! ## The visits that are still to come -/

/-- What is still to come of a reader below which `depth` readers wait. -/
def Reader.visits (fs : FileSystem) (limit depth : Nat) (r : Reader) : List Visit :=
  match r.rest with
  | .bytes bytes => PackageConf.visits fs limit depth r.line (Line.lines bytes)
  | .unreadable cause => [.unreadable cause]

/-- What is still to come of readers, the innermost one in front. -/
def readersVisits (fs : FileSystem) (limit : Nat) : List Reader → List Visit
  | [] => []
  | r :: rs => r.visits fs limit rs.length ++ readersVisits fs limit rs

def ReaderStack.visits (fs : FileSystem) (limit : Nat) (s : ReaderStack) : List Visit :=
  readersVisits fs limit (s.active :: s.suspended)

namespace ReaderStack

theorem visits_push (fs : FileSystem) (limit : Nat) (s : ReaderStack) (r : Reader) :
    (s.push r).visits fs limit = r.visits fs limit (s.depth + 1) ++ s.visits fs limit := rfl

/-- Reading a line takes the first visit away, which is that line. -/
theorem visits_next_token (fs : FileSystem) (limit : Nat) {s : ReaderStack} {t : Token}
    (h : s.next.1 = .ok (some t)) :
    ∃ line, Line.token line s.next.2.active.line = .ok t ∧
      s.visits fs limit = .line s.depth s.next.2.active.line line ::
        (included fs limit s.depth line ++ s.next.2.visits fs limit) := by
  cases hr : s.active.rest with
  | unreadable cause => simp [next, Reader.next_unreadable hr] at h
  | bytes bytes =>
    cases hl : Line.lines bytes with
    | nil =>
      obtain rfl : bytes = [] := by rw [← Line.flatten_lines bytes, hl]; rfl
      simp [next, Reader.next_at_end hr] at h
    | cons line rest =>
      obtain ⟨htok, hgo⟩ := Reader.next_bytes hr hl
      cases ht : Line.token line (s.active.line + 1) with
      | error e => simp [next, htok, ht, Except.map] at h
      | ok t' =>
        obtain ⟨after, hafter, hnext⟩ := hgo t' ht
        obtain rfl : t' = t := by simpa [next, htok, ht, Except.map] using h
        refine ⟨line, by simp [next, hnext, ht], ?_⟩
        simp [visits, readersVisits, Reader.visits, next, hnext, hr, hl, hafter, visits_cons, depth]

/-- At the end of the active source no visit of it is left. -/
theorem visits_next_none (fs : FileSystem) (limit : Nat) {s : ReaderStack}
    (h : s.next.1 = .ok none) :
    s.next.2 = s ∧ s.visits fs limit = readersVisits fs limit s.suspended := by
  have hself := Reader.next_eq_self_of_none (r := s.active) h
  refine ⟨by rw [next, hself], ?_⟩
  cases hr : s.active.rest with
  | unreadable cause => simp [next, Reader.next_unreadable hr] at h
  | bytes bytes =>
    cases hl : Line.lines bytes with
    | nil => simp [visits, readersVisits, Reader.visits, hr, hl]
    | cons line rest =>
      have := (Reader.next_bytes hr hl).1
      cases ht : Line.token line (s.active.line + 1) <;> simp [next, this, ht, Except.map] at h

/-- Where the next line is in error, so is the first visit. -/
theorem visits_next_error (fs : FileSystem) (limit : Nat) {s : ReaderStack} {e : ConfigError}
    (h : s.next.1 = .error e) :
    ∃ v, (s.visits fs limit).head? = some v ∧ ∀ d, v.act fs limit d = .error e := by
  cases hr : s.active.rest with
  | unreadable cause =>
    obtain rfl : _ = e := by simpa [next, Reader.next_unreadable hr] using h
    exact ⟨.unreadable cause, by simp [visits, readersVisits, Reader.visits, hr], fun d => rfl⟩
  | bytes bytes =>
    cases hl : Line.lines bytes with
    | nil =>
      obtain rfl : bytes = [] := by rw [← Line.flatten_lines bytes, hl]; rfl
      simp [next, Reader.next_at_end hr] at h
    | cons line rest =>
      have hnext := (Reader.next_bytes hr hl).1
      have ht : Line.token line (s.active.line + 1) = .error e := by
        simp only [next, hnext] at h
        cases ht : Line.token line (s.active.line + 1) with
        | ok t => simp [ht, Except.map] at h
        | error e' => simpa [ht, Except.map] using h
      refine ⟨.line s.depth (s.active.line + 1) line, ?_, fun d => by simp [Visit.act, ht]⟩
      simp [visits, readersVisits, Reader.visits, hr, hl, visits_cons, depth]

end ReaderStack

/-! ## Steps and runs -/

theorem Line.includeValues?_of_token {line : Bytes} {n : Nat} {name : String}
    {values : List String} (h : Line.token line n = .ok (.key name values)) :
    Line.includeValues? line = if name = ParseState.includeName then some values else none := by
  rw [Line.includeValues?, Line.token_of_ok h 0]

theorem included_eq_nil {fs : FileSystem} {limit depth : Nat} {line : Bytes}
    (h : Line.includeValues? line = none) : included fs limit depth line = [] := by
  simp [included, Line.target?, h]

theorem included_eq_visits {fs : FileSystem} {limit depth : Nat} {line : Bytes} {path : String}
    {values : List String} {source : Source} (h : Line.includeValues? line = some (path :: values))
    (hd : depth < limit) (hs : fs.access path = .ok source) :
    included fs limit depth line = source.visits fs limit (depth + 1) := by
  simp [included, Line.target?, h, hd, hs, Except.toOption]

namespace ParseState

/-- What is still to come of a run. -/
def visits (fs : FileSystem) (limit : Nat) (s : ParseState) : List Visit := s.stack.visits fs limit

/-- An include that is followed puts its source in front of what is being read. -/
theorem includeFile_ok {fs : FileSystem} {limit : Nat} {s s' : ParseState}
    {values : List String}
    (h : includeFile fs limit s s.stack.active.line values = .ok s') :
    checkInclude fs limit s.stack.depth s.stack.active.line values = .ok () ∧
      ∃ path rest source, values = path :: rest ∧ s.stack.depth < limit ∧
        fs.access path = .ok source ∧
        s' = { s with stack := s.stack.push { label := path, rest := source } } := by
  obtain ⟨path, rest, source, rfl, hd, hacc, rfl⟩ := includeFile_eq_ok_iff.1 h
  exact ⟨by simp [checkInclude, Nat.not_le.2 hd, hacc], path, rest, source, rfl, hd, hacc, rfl⟩

theorem checkInclude_of_error {fs : FileSystem} {limit : Nat} {s : ParseState}
    {values : List String} {e : ConfigError}
    (h : includeFile fs limit s s.stack.active.line values = .error e) :
    checkInclude fs limit s.stack.depth s.stack.active.line values = .error e := by
  cases values with
  | nil =>
    obtain rfl := Except.error.inj h
    rfl
  | cons path rest =>
    rw [checkInclude]
    rcases Nat.lt_or_ge s.stack.depth limit with hd | hd
    · rw [if_neg (Nat.not_le.2 hd)]
      cases hacc : fs.access path with
      | ok source =>
        rw [includeFile_of_ok hd hacc] at h
        cases h
      | error cause =>
        rw [includeFile_of_error hd hacc] at h
        obtain rfl := Except.error.inj h
        rfl
    · rw [includeFile_of_le hd] at h
      rw [if_pos hd, Except.error.inj h]

/-- A token that acts gives its file, if it is an `Include`, the turn before what is to come. -/
theorem act_ok {fs : FileSystem} {limit : Nat} {s s' : ParseState} {line : Bytes} {t : Token}
    (ht : Line.token line s.stack.active.line = .ok t)
    (ha : act fs limit s s.stack.active.line t = .ok s') :
    s'.visits fs limit = included fs limit s.stack.depth line ++ s.visits fs limit ∧
      s.draft.take fs limit s.stack.depth s.stack.active.line t = .ok s'.draft := by
  have hplain : Line.includeValues? line = none → included fs limit s.stack.depth line ++
      s.visits fs limit = s.visits fs limit := fun h => by rw [included_eq_nil h]; rfl
  cases t with
  | comment =>
    obtain rfl := Except.ok.inj ha
    exact ⟨(hplain (by simp [Line.includeValues?, Line.token_of_ok ht 0])).symm, rfl⟩
  | header name =>
    obtain rfl := Except.ok.inj ha
    exact ⟨(hplain (by simp [Line.includeValues?, Line.token_of_ok ht 0])).symm, rfl⟩
  | key name values =>
    have hvals := Line.includeValues?_of_token ht
    by_cases hname : name = includeName
    · rw [act, if_pos hname] at ha
      obtain ⟨hcheck, path, rest, source, rfl, hd, hacc, rfl⟩ := includeFile_ok ha
      rw [if_pos hname] at hvals
      constructor
      · rw [included_eq_visits hvals hd hacc]
        simp only [visits, ReaderStack.visits_push]
        cases source <;> rfl
      · rw [Draft.take, if_pos hname, hcheck]
        rfl
    · rw [act, if_neg hname] at ha
      obtain ⟨d, hk, rfl⟩ := Except.map_eq_ok_iff.1 ha
      refine ⟨(hplain (by rw [hvals, if_neg hname])).symm, ?_⟩
      rw [Draft.take, if_neg hname, hk]

theorem act_error {fs : FileSystem} {limit : Nat} {s : ParseState} {t : Token} {e : ConfigError}
    (ha : act fs limit s s.stack.active.line t = .error e) :
    s.draft.take fs limit s.stack.depth s.stack.active.line t = .error e := by
  cases t with
  | comment => cases ha
  | header name => cases ha
  | key name values =>
    by_cases hname : name = includeName
    · rw [act, if_pos hname] at ha
      rw [Draft.take, if_pos hname, checkInclude_of_error ha]
      rfl
    · rw [act, if_neg hname] at ha
      rw [Draft.take, if_neg hname]
      exact Except.map_eq_error_iff.1 ha

/-- A step that goes on either leaves a source that is at its end, or takes the first visit away
and lets it act. -/
theorem step_running {fs : FileSystem} {limit : Nat} {s s' : ParseState}
    (h : s.step fs limit = .running s') :
    (s.stack.next.1 = .ok none ∧ s'.visits fs limit = s.visits fs limit ∧ s'.draft = s.draft) ∨
      ∃ v t, s.stack.next.1 = .ok (some t) ∧ v.token? = some t ∧
        s.visits fs limit = v :: s'.visits fs limit ∧ v.act fs limit s.draft = .ok s'.draft := by
  unfold step at h
  split at h
  · cases h
  · next stack hn =>
    have hn1 : s.stack.next.1 = .ok none := by rw [hn]
    obtain ⟨hself, hvis⟩ := ReaderStack.visits_next_none fs limit hn1
    rw [hn] at hself
    subst hself
    split at h
    · next stack' hp =>
      obtain rfl := Progress.running.inj h
      refine .inl ⟨hn1, ?_, rfl⟩
      rw [visits, visits, hvis]
      rw [ReaderStack.pop_eq_true_iff.1 hp]
      rfl
    · cases h
  · next t stack hn =>
    have hn1 : s.stack.next.1 = .ok (some t) := by rw [hn]
    obtain ⟨line, ht, hvis⟩ := ReaderStack.visits_next_token fs limit hn1
    rw [hn] at ht hvis
    dsimp only at ht hvis
    have hdepth : stack.depth = s.stack.depth := by
      obtain rfl : s.stack.next.2 = stack := by rw [hn]
      rfl
    split at h
    · next s'' ha =>
      obtain rfl := Progress.running.inj h
      obtain ⟨hv, hact⟩ := act_ok (s := { s with stack }) ht ha
      refine .inr ⟨.line s.stack.depth stack.active.line line, t, hn1, ?_, ?_, ?_⟩
      · simp [Visit.token?, ht, Except.toOption]
      · rw [hv, visits, hvis, hdepth, visits]
      · simpa [Visit.act, ht, hdepth] using hact
    · cases h

theorem step_done {fs : FileSystem} {limit : Nat} {s : ParseState} {c : Config}
    (h : s.step fs limit = .done c) : s.visits fs limit = [] ∧ c = s.draft.finish := by
  unfold step at h
  split at h
  · cases h
  · next stack hn =>
    obtain ⟨hself, hvis⟩ := ReaderStack.visits_next_none fs limit
      (show s.stack.next.1 = .ok none by rw [hn])
    rw [hn] at hself
    subst hself
    split at h
    · cases h
    · next hp =>
      refine ⟨?_, (Progress.done.inj h).symm⟩
      rw [visits, hvis, List.length_eq_zero_iff.1 (ReaderStack.pop_eq_false_iff.1 hp).1]
      rfl
  · split at h <;> cases h

theorem step_failed {fs : FileSystem} {limit : Nat} {s : ParseState} {e : ConfigError}
    (h : s.step fs limit = .failed e) :
    ∃ v, (s.visits fs limit).head? = some v ∧ v.act fs limit s.draft = .error e := by
  unfold step at h
  split at h
  · next hn =>
    obtain rfl := Progress.failed.inj h
    obtain ⟨v, hv, hact⟩ := ReaderStack.visits_next_error fs limit
      (show s.stack.next.1 = .error _ by rw [hn])
    exact ⟨v, hv, hact s.draft⟩
  · split at h <;> cases h
  · next t stack hn =>
    obtain ⟨line, ht, hvis⟩ := ReaderStack.visits_next_token fs limit
      (show s.stack.next.1 = .ok (some t) by rw [hn])
    have hdepth : s.stack.next.2.depth = s.stack.depth := rfl
    rw [hn] at ht hvis hdepth
    split at h
    · cases h
    · next e' ha =>
      obtain rfl := Progress.failed.inj h
      refine ⟨_, by rw [visits, hvis]; rfl, ?_⟩
      have := act_error (s := { s with stack }) ha
      simpa [Visit.act, ht, hdepth] using this

/-- **A run is the walk over its visits.** What the stack of readers comes to is what following
the lines of its files, depth first, comes to. -/
theorem run_eq_follow (fs : FileSystem) (limit : Nat) (s : ParseState) :
    s.run fs limit = (s.draft.follow fs limit (s.visits fs limit)).map Draft.finish := by
  fun_induction run fs limit s with
  | case1 s s' h ih =>
    obtain ⟨-, hv, hd⟩ | ⟨v, t, -, -, hv, hact⟩ := step_running h
    · rw [ih, hv, hd]
    · rw [ih, hv, Draft.follow, hact]
  | case2 s c h =>
    obtain ⟨hv, rfl⟩ := step_done h
    rw [hv]
    rfl
  | case3 s e h =>
    obtain ⟨v, hv, hact⟩ := step_failed h
    obtain ⟨vs, hvs⟩ := List.head?_eq_some_iff.1 hv
    rw [hvs, Draft.follow, hact]
    rfl

end ParseState

def ParseState.begin (bytes : Bytes) : ParseState := start (.ofBytes "main" bytes)

theorem ParseState.visits_begin (fs : FileSystem) (limit : Nat) (bytes : Bytes) :
    (begin bytes).visits fs limit = PackageConf.visits fs limit 0 0 (Line.lines bytes) := by
  simp [visits, ReaderStack.visits, readersVisits, Reader.visits, begin, start, Reader.ofBytes]

/-- Reading some bytes is following their lines from an empty draft. -/
theorem parse_eq_follow (fs : FileSystem) (limit : Nat) (bytes : Bytes) :
    parse fs bytes limit =
      (({} : Draft).follow fs limit (visits fs limit 0 0 (Line.lines bytes))).map Draft.finish := by
  rw [← ParseState.visits_begin]
  exact ParseState.run_eq_follow fs limit (.begin bytes)

theorem parse_eq_ok_iff {fs : FileSystem} {limit : Nat} {bytes : Bytes} {c : Config} :
    parse fs bytes limit = .ok c ↔
      ∃ d : Draft, ({} : Draft).follow fs limit (visits fs limit 0 0 (Line.lines bytes)) = .ok d ∧
        d.finish = c := by
  rw [parse_eq_follow, Except.map_eq_ok_iff]

end PackageConf
