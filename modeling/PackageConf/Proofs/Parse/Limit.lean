import PackageConf.Proofs.Parse.FirstError
import PackageConf.Proofs.Parse.Nesting
/-!
# Two limits

The limit is looked at in one place only: before an `Include` that has a path is followed. So two
runs with different limits take the same steps until there is such a line below the smaller limit
(`step_eq_step`), where the one run fails and the other one may go on (`step_of_tooDeep`). A run
fails for its limit in no other way (`tooDeep_of_step`). What this says of whole runs is
`parse_limit`: the smaller limit gives the same result or cuts the run off, and it cuts off exactly
the runs that come to a line below it, which are those with longer chains of includes.
-/
namespace PackageConf

/-! ## Where the limit shows -/

theorem Line.token_ne_includeDepth (line : Bytes) (number n k : Nat) :
    token line number ≠ .error (.includeDepth n k) := by
  intro h
  rcases token_eq_error_iff.1 h with ⟨-, he⟩ | ⟨_, -, -, he⟩ | ⟨_, _, -, -, -, he⟩ <;> cases he

theorem Reader.next_ne_includeDepth (r : Reader) (n k : Nat) :
    r.next.1 ≠ .error (.includeDepth n k) := by
  intro h
  unfold next at h
  split at h
  · cases h
  · split at h
    · cases h
    · next run _ _ _ =>
      exact Line.token_ne_includeDepth run (r.line + 1) n k (Except.map_eq_error_iff.1 h)

theorem Draft.key_ne_includeDepth (d : Draft) (line : Nat) (name : String) (values : List String)
    (n k : Nat) : d.key line name values ≠ .error (.includeDepth n k) := by
  intro h
  rcases key_eq_error_iff.1 h with ⟨-, h⟩ | ⟨r, -, h⟩
  · rcases Config.assign_eq_error_iff.1 h with ⟨-, he⟩ | ⟨_, _, -, -, he⟩ <;> cases he
  · rcases Repository.assign_eq_error_iff.1 h with ⟨-, he⟩ | ⟨-, _, -, he⟩ <;> cases he

namespace ParseState

variable {fs : FileSystem} {d d' : Nat} {s : ParseState}

/-- The next line is an `Include` with a path, while as many readers wait as `d` allows. -/
def TooDeep (d : Nat) (s : ParseState) : Prop :=
  d ≤ s.stack.depth ∧
    ∃ path values, s.stack.next.1 = .ok (some (.key includeName (path :: values)))

/-- A token fails for the limit if it is an `Include` with a path and the limit is reached. -/
theorem act_eq_includeDepth {line n k : Nat} {t : Token}
    (h : act fs d s line t = .error (.includeDepth n k)) :
    k = d ∧ d ≤ s.stack.depth ∧ ∃ path values, t = .key includeName (path :: values) := by
  cases t with
  | comment => cases h
  | header name => cases h
  | key name values =>
    rw [act] at h
    split at h
    · next hname =>
      subst hname
      cases values with
      | nil => cases h
      | cons path values =>
        rcases Nat.lt_or_ge s.stack.depth d with hd | hd
        · cases hacc : fs.access path with
          | ok source => rw [includeFile_of_ok hd hacc] at h; cases h
          | error cause => rw [includeFile_of_error hd hacc] at h; cases h
        · rw [includeFile_of_le hd] at h
          cases h
          exact ⟨rfl, hd, path, values, rfl⟩
    · exact absurd (Except.map_eq_error_iff.1 h) (s.draft.key_ne_includeDepth line name values n k)

theorem tooDeep_of_step {n k : Nat} (h : s.step fs d = .failed (.includeDepth n k)) :
    s.TooDeep d ∧ k = d := by
  unfold step at h
  split at h
  · next e stack hn =>
    obtain rfl := Progress.failed.inj h
    exact absurd (congrArg Prod.fst hn) (s.stack.active.next_ne_includeDepth n k)
  · split at h <;> cases h
  · next t stack hn =>
    obtain rfl : s.stack.next.2 = stack := by rw [hn]
    split at h
    · cases h
    · next e ha =>
      obtain rfl := Progress.failed.inj h
      obtain ⟨rfl, hd, path, values, rfl⟩ := act_eq_includeDepth ha
      exact ⟨⟨hd, path, values, by rw [hn]⟩, rfl⟩

/-- Below the limit an `Include` with a path is an error, whether or not the path leads anywhere. -/
theorem step_of_tooDeep (h : s.TooDeep d) :
    s.step fs d = .failed (.includeDepth s.stack.next.2.active.line d) := by
  obtain ⟨hd, path, values, hn⟩ := h
  have hnext : s.stack.next = (.ok (some (.key includeName (path :: values))), s.stack.next.2) := by
    rw [← hn]
  rw [step, hnext]
  simp [act, includeFile, hd]

/-- Everywhere else the limit does not matter. -/
theorem step_eq_step (hle : d ≤ d') (h : ¬ s.TooDeep d) : s.step fs d = s.step fs d' := by
  unfold step
  split
  · rfl
  · rfl
  · next t stack hn =>
    have hact : act fs d { s with stack } stack.active.line t =
        act fs d' { s with stack } stack.active.line t := by
      cases t with
      | comment => rfl
      | header name => rfl
      | key name values =>
        simp only [act]
        split
        · next hname =>
          subst hname
          cases values with
          | nil => rfl
          | cons path values =>
            have hlt : s.stack.depth < d := by
              by_contra hd
              exact h ⟨Nat.le_of_not_lt hd, path, values, by rw [hn]⟩
            obtain rfl : s.stack.next.2 = stack := by rw [hn]
            rw [includeFile, includeFile, ReaderStack.depth_next, if_neg (Nat.not_le.2 hlt),
              if_neg (Nat.not_le.2 (Nat.lt_of_lt_of_le hlt hle))]
        · rfl
    rw [hact]

/-! ## Runs in lockstep -/

/-- Either the run with the larger limit comes to a line that is too deep for the smaller one, and
there the other run fails; or it does not, and the two come to the same. -/
theorem run_limit (fs : FileSystem) (hle : d ≤ d') (s : ParseState) :
    (∃ n t, Steps fs d' n s t ∧ t.TooDeep d ∧
      s.run fs d = .error (.includeDepth t.stack.next.2.active.line d)) ∨
    ((∀ n t, Steps fs d' n s t → ¬ t.TooDeep d) ∧ s.run fs d = s.run fs d') := by
  by_cases hdeep : s.TooDeep d
  · exact .inl ⟨0, s, .refl s, hdeep, by rw [run_eq_step, step_of_tooDeep hdeep]⟩
  have hstep : s.step fs d = s.step fs d' := step_eq_step hle hdeep
  have hhere (hend : ∀ t, s.step fs d' ≠ .running t) :
      ∀ n t, Steps fs d' n s t → ¬ t.TooDeep d := by
    intro n t ht
    cases ht with
    | refl => exact hdeep
    | head hgo => exact absurd hgo (hend _)
  cases hs : s.step fs d' with
  | running s' =>
    have hd : s.run fs d = s'.run fs d := by rw [run_eq_step, hstep, hs]
    have hd' : s.run fs d' = s'.run fs d' := by rw [run_eq_step, hs]
    rw [hd, hd']
    rcases run_limit fs hle s' with ⟨n, t, ht, htoo, hrun⟩ | ⟨hnone, hrun⟩
    · exact .inl ⟨n + 1, t, .head hs ht, htoo, hrun⟩
    · refine .inr ⟨fun n t ht => ?_, hrun⟩
      cases ht with
      | refl => exact hdeep
      | head hgo ht =>
        rw [hs] at hgo
        obtain rfl := Progress.running.inj hgo
        exact hnone _ _ ht
  | done c => exact .inr ⟨hhere (by simp [hs]), by rw [run_eq_step, hstep, run_eq_step fs d', hs]⟩
  | failed e =>
    exact .inr ⟨hhere (by simp [hs]), by rw [run_eq_step, hstep, run_eq_step fs d', hs]⟩
termination_by s.stack.weight fs d'
decreasing_by exact weight_step_lt hs

theorem exists_tooDeep_of_run {n k : Nat} (h : s.run fs d = .error (.includeDepth n k)) :
    k = d ∧ ∃ m t, Steps fs d m s t ∧ t.TooDeep d := by
  obtain ⟨m, t, ht, hlast⟩ := exists_steps_ended fs d s
  rw [h] at hlast
  obtain ⟨htoo, hk⟩ := tooDeep_of_step hlast
  exact ⟨hk, m, t, ht, htoo⟩

end ParseState

/-- A text that fails for the limit has a longer chain of includes. -/
theorem nestedIncludes_of_includeDepth {fs : FileSystem} {d n k : Nat} {x : Bytes}
    (h : parse fs x d = .error (.includeDepth n k)) : ∃ m, d < m ∧ NestedIncludes fs x m := by
  rw [parse_eq_follow, Except.map_eq_error_iff, Draft.follow_eq_error_iff] at h
  obtain ⟨before, v, after, draft, hsplit, -, hv⟩ := h
  have hlocated : v.Located fs d x := located_of_mem_visits (by rw [hsplit]; simp)
  cases Visit.offence_of_act hv with
  | @includeDepth depth _ line path values hkey hd =>
    obtain ⟨y, hy, -, hline⟩ := hlocated
    have htoken : Line.token line 0 = .ok (.key "Include" (path :: values)) :=
      Line.token_eq_key_iff.2 hkey
    have hvals := Line.includeValues?_of_token htoken
    exact ⟨depth + 1, by omega, y, line, _, hy, List.mem_of_getElem? hline, hvals⟩

/-- **A limit only cuts runs off.** A smaller limit gives what a larger one gives, unless the run
fails for it; it does so exactly where the other run comes to an `Include` with a path while as many
files wait as the smaller limit allows. So where no chain of includes is longer than the limit, a
larger limit makes no difference and no run fails for the limit; and where one is longer by one,
nothing is read. -/
theorem parse_limit (fs : FileSystem) (x : Bytes) {d d' : Nat} (hle : d ≤ d') :
    (parse fs x d = parse fs x d' ∨ ∃ line, parse fs x d = .error (.includeDepth line d)) ∧
    ((∃ line, parse fs x d = .error (.includeDepth line d)) ↔
      ∃ n s, ParseState.Steps fs d' n (.begin x) s ∧ s.TooDeep d) ∧
    (∀ line k, parse fs x d = .error (.includeDepth line k) → k = d) ∧
    ((∀ n, NestedIncludes fs x n → n ≤ d) →
      parse fs x d = parse fs x d' ∧ ∀ line, parse fs x d ≠ .error (.includeDepth line d)) ∧
    (NestedIncludes fs x (d + 1) → ∀ c, parse fs x d ≠ .ok c) := by
  have hrun := ParseState.run_limit fs hle (.begin x)
  have hpayload : ∀ line k, parse fs x d = .error (.includeDepth line k) → k = d :=
    fun line k h => (ParseState.exists_tooDeep_of_run h).1
  have hsame : parse fs x d = parse fs x d' ∨
      ∃ line, parse fs x d = .error (.includeDepth line d) := by
    rcases hrun with ⟨_, _, -, -, hcut⟩ | ⟨-, heq⟩
    · exact .inr ⟨_, hcut⟩
    · exact .inl heq
  refine ⟨hsame, ⟨?_, ?_⟩, hpayload, ?_, ?_⟩
  · rintro ⟨line, hline⟩
    rcases hrun with ⟨n, t, ht, htoo, -⟩ | ⟨-, heq⟩
    · exact ⟨n, t, ht, htoo⟩
    · obtain ⟨-, m, t, ht, htoo⟩ := ParseState.exists_tooDeep_of_run (heq.symm.trans hline)
      exact ⟨m, t, ht, Nat.le_trans hle htoo.1, htoo.2⟩
  · rintro ⟨n, t, ht, htoo⟩
    rcases hrun with ⟨_, _, -, -, hcut⟩ | ⟨hnone, -⟩
    · exact ⟨_, hcut⟩
    · exact absurd htoo (hnone n t ht)
  · intro hshort
    have hpass : ∀ line, parse fs x d ≠ .error (.includeDepth line d) := by
      intro line hline
      obtain ⟨m, hm, hn⟩ := nestedIncludes_of_includeDepth hline
      exact absurd (hshort m hn) (Nat.not_le.2 hm)
    exact ⟨hsame.resolve_right fun ⟨line, hline⟩ => hpass line hline, hpass⟩
  · intro hlong c hc
    exact absurd (le_of_nestedIncludes hc hlong) (Nat.not_succ_le_self d)

/-! ### A chain of two includes -/

def towerText : Bytes := Text.encode "Include = a".toList

/-- The file that the text includes, with an include of its own. -/
def floorText : Bytes := Text.encode "Include = m".toList

def towerFiles : FileSystem := .ofList
  [("a", .ok (.bytes floorText)), ("m", .ok (.bytes leafText))]

theorem nestedIncludes_towerText : NestedIncludes towerFiles towerText 2 := by
  have htower : towerText ∈ Line.lines towerText := by decide
  have hfloor : floorText ∈ Line.lines floorText := by decide
  have hvals : Line.includeValues? towerText = some ["a"] := by cbv
  have hvals' : Line.includeValues? floorText = some ["m"] := by cbv
  have hacc : towerFiles.access "a" = .ok (.bytes floorText) := rfl
  exact ⟨floorText, floorText, ["m"], .step .refl htower hvals hacc, hfloor, hvals'⟩

/-- The chain is read where two includes may be open, and as well where three may, and is cut off
where only one may. -/
theorem parse_limit_towerText :
    1 ≤ 2 ∧ parse towerFiles towerText 2 = .ok { repos := [{ name := "c" }] } ∧
    parse towerFiles towerText 3 = parse towerFiles towerText 2 ∧
    NestedIncludes towerFiles towerText (1 + 1) ∧
    parse towerFiles towerText 1 = .error (.includeDepth 1 1) ∧
    ∃ n s, ParseState.Steps towerFiles 2 n (.begin towerText) s ∧ s.TooDeep 1 := by
  have hread : parse towerFiles towerText 2 = .ok { repos := [{ name := "c" }] } := by cbv
  have hcut : parse towerFiles towerText 1 = .error (.includeDepth 1 1) := by cbv
  obtain ⟨-, hdeep, -, -, -⟩ := parse_limit towerFiles towerText (show 1 ≤ 2 by decide)
  obtain ⟨-, -, -, hsame, -⟩ := parse_limit towerFiles towerText (show 2 ≤ 3 by decide)
  exact ⟨by decide, hread, (hsame fun n hn => le_of_nestedIncludes hread hn).1.symm,
    nestedIncludes_towerText, hcut, hdeep.1 ⟨1, hcut⟩⟩

end PackageConf
