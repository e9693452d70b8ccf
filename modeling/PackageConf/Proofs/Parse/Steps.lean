import Mathlib
import PackageConf.Proofs.Parse.Visits
/-!
# The states of a run

`Steps fs limit n s t` says that `n` steps, each of which leaves something to do, lead from `s` to
`t`. What such a step can do to the stack is one of three things (`stack_of_step`), and so in no
state of a run are more files open than the limit allows (`Steps.depth_le`). Each step is paid for
with weight (`Steps.add_weight_le`), so there are not arbitrarily many; and a run has a last step,
which says what the run comes to (`exists_steps_ended`).
-/
namespace PackageConf

/-- The last step of a run with this result. -/
def Progress.ended : Except ConfigError Config → Progress
  | .ok c => .done c
  | .error e => .failed e

theorem ReaderStack.worth_eq_pow (base k : Nat) : worth base k = base ^ k := by
  induction k with
  | zero => rfl
  | succ k ih => rw [worth, ih, Nat.pow_succ]

namespace ParseState

/-- `n` steps lead from one state to another. -/
inductive Steps (fs : FileSystem) (limit : Nat) : Nat → ParseState → ParseState → Prop
  | refl (s : ParseState) : Steps fs limit 0 s s
  | head {n : Nat} {s t u : ParseState} : s.step fs limit = .running t →
      Steps fs limit n t u → Steps fs limit (n + 1) s u

variable {fs : FileSystem} {limit : Nat}

/-! ## One step -/

/-- A token leaves the stack alone, or opens a file where the limit allows it. -/
theorem stack_of_act {s t : ParseState} {token : Token}
    (h : act fs limit s s.stack.active.line token = .ok t) :
    t.stack = s.stack ∨ ∃ r, s.stack.depth < limit ∧ t.stack = s.stack.push r := by
  cases token with
  | comment =>
    obtain rfl := Except.ok.inj h
    exact .inl rfl
  | header name =>
    obtain rfl := Except.ok.inj h
    exact .inl rfl
  | key name values =>
    rw [act] at h
    split at h
    · obtain ⟨-, path, -, source, -, hd, -, rfl⟩ := includeFile_ok h
      exact .inr ⟨_, hd, rfl⟩
    · obtain ⟨d, -, rfl⟩ := Except.map_eq_ok_iff.1 h
      exact .inl rfl

/-- A step leaves a file, or reads a line and stays in the file, or reads a line and opens another
file. -/
theorem stack_of_step {s t : ParseState} (h : s.step fs limit = .running t) :
    s.stack.next.2.pop = (true, t.stack) ∨ t.stack = s.stack.next.2 ∨
      ∃ r, s.stack.depth < limit ∧ t.stack = s.stack.next.2.push r := by
  unfold step at h
  split at h
  · cases h
  · next stack hn =>
    obtain rfl : s.stack.next.2 = stack := by rw [hn]
    split at h
    · next hp =>
      obtain rfl := Progress.running.inj h
      exact .inl hp
    · cases h
  · next token stack hn =>
    obtain rfl : s.stack.next.2 = stack := by rw [hn]
    split at h
    · next ha =>
      obtain rfl := Progress.running.inj h
      exact .inr (stack_of_act (s := { s with stack := s.stack.next.2 }) ha)
    · cases h

theorem depth_le_of_step {s t : ParseState} (h : s.step fs limit = .running t)
    (hs : s.stack.depth ≤ limit) : t.stack.depth ≤ limit := by
  rcases stack_of_step h with hp | ht | ⟨r, hd, ht⟩
  · have hpop := ReaderStack.depth_of_pop hp
    rw [ReaderStack.depth_next] at hpop
    omega
  · rw [ht, ReaderStack.depth_next]
    exact hs
  · rw [ht, ReaderStack.depth_push, ReaderStack.depth_next]
    exact hd

theorem run_eq_step (fs : FileSystem) (limit : Nat) (s : ParseState) :
    s.run fs limit = match s.step fs limit with
      | .running t => t.run fs limit
      | .done c => .ok c
      | .failed e => .error e := by
  rw [run]
  split <;> next hs => rw [hs]

/-! ## Many steps -/

/-- In no state of a run are more files open than the limit allows. -/
theorem Steps.depth_le {n : Nat} {s t : ParseState} (h : Steps fs limit n s t)
    (hs : s.stack.depth ≤ limit) : t.stack.depth ≤ limit := by
  induction h with
  | refl => exact hs
  | head hstep _ ih => exact ih (depth_le_of_step hstep hs)

theorem Steps.add_weight_le {n : Nat} {s t : ParseState} (h : Steps fs limit n s t) :
    n + t.stack.weight fs limit ≤ s.stack.weight fs limit := by
  induction h with
  | refl s => simp
  | head hstep _ ih =>
    have hlt := weight_step_lt hstep
    omega

theorem weight_begin (fs : FileSystem) (limit : Nat) (bytes : Bytes) :
    (begin bytes).stack.weight fs limit = (bytes.length + 1) * (fs.largest + 2) ^ limit := by
  simp [begin, start, Reader.ofBytes, ReaderStack.weight, ReaderStack.weightOf,
    ReaderStack.worth_eq_pow, Source.size]

/-- **A run ends**, with the step that tells what it comes to. -/
theorem exists_steps_ended (fs : FileSystem) (limit : Nat) (s : ParseState) :
    ∃ n t, Steps fs limit n s t ∧ t.step fs limit = .ended (s.run fs limit) := by
  fun_induction run fs limit s with
  | case1 s s' h ih =>
    obtain ⟨n, t, hsteps, hlast⟩ := ih
    exact ⟨n + 1, t, .head h hsteps, hlast⟩
  | case2 s c h => exact ⟨0, s, .refl s, h⟩
  | case3 s e h => exact ⟨0, s, .refl s, h⟩

end ParseState
end PackageConf
