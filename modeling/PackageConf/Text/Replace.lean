/-!
# Replacing a pattern

`replace` goes through a text from the left. Where the pattern stands, the replacement is put and
the search goes on behind the pattern, so what was put in is not searched again.
-/
namespace PackageConf.Text

/-- Replace the pattern `p :: ps` by `new` wherever it stands. -/
def replace (p : Char) (ps new : List Char) : List Char → List Char
  | [] => []
  | c :: s =>
    if (p :: ps).isPrefixOf (c :: s) then new ++ replace p ps new (s.drop ps.length)
    else c :: replace p ps new s
termination_by s => s.length
decreasing_by all_goals simp only [List.length_drop, List.length_cons]; omega

@[simp] theorem replace_nil (p : Char) (ps new : List Char) : replace p ps new [] = [] := by
  simp [replace]

theorem replace_cons_of_ne {p c : Char} (h : p ≠ c) (ps new s : List Char) :
    replace p ps new (c :: s) = c :: replace p ps new s := by
  rw [replace]
  simp [List.isPrefixOf, h]

theorem replace_append_self (p : Char) (ps new s : List Char) :
    replace p ps new (p :: ps ++ s) = new ++ replace p ps new s := by
  rw [List.cons_append, replace]
  have : (p :: ps).isPrefixOf (p :: (ps ++ s)) = true := by simp
  rw [if_pos this, List.drop_left]

theorem replace_eq_self {p : Char} {s : List Char} (h : p ∉ s) (ps new : List Char) :
    replace p ps new s = s := by
  induction s with
  | nil => simp
  | cons c s ih =>
    simp only [List.mem_cons, not_or] at h
    rw [replace_cons_of_ne h.1, ih h.2]

/-- A text in which the first character of the pattern does not occur is passed over. -/
theorem replace_append_of_not_mem {p : Char} {s : List Char} (h : p ∉ s) (ps new t : List Char) :
    replace p ps new (s ++ t) = s ++ replace p ps new t := by
  induction s with
  | nil => rfl
  | cons c s ih =>
    simp only [List.mem_cons, not_or] at h
    rw [List.cons_append, replace_cons_of_ne h.1, ih h.2, List.cons_append]

/-- Where another word stands behind the first character of the pattern, the search goes on behind
that word. -/
theorem replace_append_of_ne {p : Char} {ps qs t : List Char} (hp : p ∉ qs)
    (hne : ps.isPrefixOf (qs ++ t) = false) (new : List Char) :
    replace p ps new (p :: qs ++ t) = p :: qs ++ replace p ps new t := by
  have hnot : (p :: ps).isPrefixOf (p :: (qs ++ t)) = false := by
    simp [List.isPrefixOf, hne]
  rw [List.cons_append, replace, hnot, if_neg Bool.false_ne_true, replace_append_of_not_mem hp,
    List.cons_append]

end PackageConf.Text
