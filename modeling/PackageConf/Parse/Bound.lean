import PackageConf.Parse.Step
/-!
# Why reading a configuration ends

Each line that is read uses up bytes of its file, but an include adds those of another one. So the
bytes of a file count for more than all the bytes that one of its lines can add: with `largest`
the size of the largest file, a byte at depth `k` counts `largest + 2` times as much as one at
depth `k + 1`. Every step makes the sum of the weights smaller (`weight_step_lt`).
-/
namespace PackageConf

namespace ReaderStack

/-- What a byte counts for when `k` more files may be opened below its own. -/
def worth (base : Nat) : Nat → Nat
  | 0 => 1
  | k + 1 => worth base k * base

theorem worth_pos {base : Nat} (h : 0 < base) (k : Nat) : 0 < worth base k := by
  induction k with
  | zero => exact Nat.one_pos
  | succ k ih => exact Nat.mul_pos ih h

/-- The weight of readers, the innermost one in front. Each file counts one more than its bytes,
for the step that leaves it. -/
def weightOf (base limit : Nat) : List Reader → Nat
  | [] => 0
  | r :: rs => (r.rest.size + 1) * worth base (limit - rs.length) + weightOf base limit rs

def weight (fs : FileSystem) (limit : Nat) (s : ReaderStack) : Nat :=
  weightOf (fs.largest + 2) limit (s.active :: s.suspended)

theorem weight_pop_lt {fs : FileSystem} {limit : Nat} {s s' : ReaderStack}
    (h : s.pop = (true, s')) : s'.weight fs limit < s.weight fs limit := by
  rw [pop_eq_true_iff.1 h]
  simp only [weight, weightOf, push]
  have hpos := worth_pos (show 0 < fs.largest + 2 by omega)
    (limit - (s'.active :: s'.suspended).length)
  have := Nat.mul_pos (Nat.add_one_pos s.active.rest.size) hpos
  omega

theorem weight_next_lt {fs : FileSystem} {limit : Nat} {s : ReaderStack} {t : Token}
    (h : s.next.1 = .ok (some t)) : s.next.2.weight fs limit < s.weight fs limit := by
  have hlt := Reader.size_next_lt (r := s.active) h
  simp only [weight, weightOf, next]
  have hpos := worth_pos (show 0 < fs.largest + 2 by omega) (limit - s.suspended.length)
  have := Nat.mul_lt_mul_of_pos_right (Nat.add_lt_add_right hlt 1) hpos
  omega

theorem weight_push_lt {fs : FileSystem} {limit : Nat} {s : ReaderStack} {t : Token}
    (h : s.next.1 = .ok (some t)) (hd : s.depth < limit) {r : Reader}
    (hr : r.rest.size ≤ fs.largest) :
    (s.next.2.push r).weight fs limit < s.weight fs limit := by
  have hlt := Reader.size_next_lt (r := s.active) h
  simp only [weight, weightOf, next, push, List.length_cons]
  obtain ⟨k, hk⟩ : ∃ k, limit - s.suspended.length = k + 1 :=
    ⟨limit - s.suspended.length - 1, by unfold depth at hd; omega⟩
  rw [show limit - (s.suspended.length + 1) = k by omega, hk, worth]
  have hpos := worth_pos (show 0 < fs.largest + 2 by omega) k
  generalize worth (fs.largest + 2) k = w at hpos
  have h1 : (r.rest.size + 1) * w ≤ (fs.largest + 1) * w := Nat.mul_le_mul_right _ (by omega)
  have h2 : (s.active.next.2.rest.size + 1) * (w * (fs.largest + 2)) + w * (fs.largest + 2)
      ≤ (s.active.rest.size + 1) * (w * (fs.largest + 2)) := by
    rw [← Nat.succ_mul]
    exact Nat.mul_le_mul_right _ (by omega)
  have h3 : w * (fs.largest + 2) = (fs.largest + 1) * w + w := by
    rw [Nat.mul_comm w, ← Nat.succ_mul]
  omega

end ReaderStack

namespace ParseState

theorem weight_act_lt {fs : FileSystem} {limit : Nat} {s s' : ParseState} {t : Token} {line : Nat}
    (h : s.stack.next.1 = .ok (some t))
    (ha : act fs limit { s with stack := s.stack.next.2 } line t = .ok s') :
    s'.stack.weight fs limit < s.stack.weight fs limit := by
  have hn : s.stack.next.2.weight fs limit < s.stack.weight fs limit :=
    ReaderStack.weight_next_lt h
  unfold act at ha
  split at ha
  · obtain rfl := Except.ok.inj ha
    exact hn
  · obtain rfl := Except.ok.inj ha
    exact hn
  · split at ha
    · obtain ⟨path, rest, source, -, hd, hacc, rfl⟩ := includeFile_eq_ok_iff.1 ha
      exact ReaderStack.weight_push_lt h hd (fs.size_le path source hacc)
    · next name values _ =>
      cases hk : s.draft.key line name values with
      | error e => simp [hk, Except.map] at ha
      | ok draft =>
        simp only [hk, Except.map] at ha
        obtain rfl := Except.ok.inj ha
        exact hn

/-- Every step that leaves something to do leaves less to do. -/
theorem weight_step_lt {fs : FileSystem} {limit : Nat} {s s' : ParseState}
    (h : s.step fs limit = .running s') :
    s'.stack.weight fs limit < s.stack.weight fs limit := by
  unfold step at h
  split at h
  · cases h
  · next stack hn =>
    split at h
    · next stack' hp =>
      obtain rfl := Progress.running.inj h
      have hst : stack = s.stack.next.2 := by rw [hn]
      have hself : s.stack.next.2 = s.stack := by
        have := Reader.next_eq_self_of_none (r := s.stack.active) (congrArg Prod.fst hn)
        rw [ReaderStack.next, this]
      rw [hst, hself] at hp
      exact ReaderStack.weight_pop_lt hp
    · cases h
  · next t stack hn =>
    split at h
    · next s'' ha =>
      obtain rfl := Progress.running.inj h
      have hst : stack = s.stack.next.2 := by rw [hn]
      subst hst
      exact weight_act_lt (by rw [hn]) ha
    · cases h

end ParseState
end PackageConf
