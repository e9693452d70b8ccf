import PackageConf.Reader
/-!
# The lines of a file

`lines` cuts bytes after every line feed, whatever the length of what lies between. A reader takes
runs of bounded length instead, and `take_window` says how the two agree: as long as the content
of a line is not too long, the next run *is* the next line, and the first line that is too long
shows as a run that is too long. So a reader reports what `lines` says (`next_bytes`).
-/
namespace PackageConf.Line

/-- The lines of some bytes, each with its line feed; only the last one may have none. -/
def lines : Bytes → List Bytes
  | [] => []
  | b :: bytes =>
    if b = 0x0A then [b] :: lines bytes
    else match lines bytes with
      | [] => [[b]]
      | line :: rest => (b :: line) :: rest

/-- Bytes that end with a line feed, if there are any: what follows starts a line of its own. -/
def Closed (bytes : Bytes) : Prop := ∀ b ∈ bytes.getLast?, b = 0x0A

@[simp] theorem lines_nil : lines [] = [] := rfl

theorem closed_nil : Closed [] := by simp [Closed]

theorem closed_concat (bytes : Bytes) : Closed (bytes ++ [0x0A]) := by simp [Closed]

theorem Closed.append {x y : Bytes} (hx : Closed x) (hy : Closed y) : Closed (x ++ y) := by
  intro b hb
  rw [List.getLast?_append] at hb
  cases hl : y.getLast? with
  | none => exact hx b (by simpa [hl] using hb)
  | some c => exact hy b (by rw [hl] at hb ⊢; simpa using hb)

theorem Closed.after_feed {body rest : Bytes} (h : Closed (body ++ 0x0A :: rest)) : Closed rest :=
  fun b hb => h b (by
    rw [Option.mem_def] at hb ⊢
    simp [List.getLast?_append, List.getLast?_cons, hb])

/-- Bytes begin with a line that a line feed ends, or are one line without, or are none. -/
theorem cases_line (bytes : Bytes) :
    (bytes = [] ∨ ∃ body, 0x0A ∉ body ∧ body ≠ [] ∧ bytes = body) ∨
      ∃ body rest, 0x0A ∉ body ∧ bytes = body ++ 0x0A :: rest := by
  induction bytes with
  | nil => exact .inl (.inl rfl)
  | cons b bytes ih =>
    by_cases hb : b = 0x0A
    · exact .inr ⟨[], bytes, by simp, by simp [hb]⟩
    · obtain (rfl | ⟨body, hbody, -, rfl⟩) | ⟨body, rest, hbody, rfl⟩ := ih
      · exact .inl (.inr ⟨[b], by simpa using Ne.symm hb, by simp, rfl⟩)
      · exact .inl (.inr ⟨b :: bytes, by simp [Ne.symm hb, hbody], by simp, rfl⟩)
      · exact .inr ⟨b :: body, rest, by simp [Ne.symm hb, hbody], rfl⟩

theorem lines_feed {body : Bytes} (h : 0x0A ∉ body) (rest : Bytes) :
    lines (body ++ 0x0A :: rest) = (body ++ [0x0A]) :: lines rest := by
  induction body with
  | nil => simp [lines]
  | cons b body ih =>
    simp only [List.mem_cons, not_or] at h
    simp [lines, Ne.symm h.1, ih h.2]

theorem lines_open {body : Bytes} (h : 0x0A ∉ body) (hne : body ≠ []) : lines body = [body] := by
  induction body with
  | nil => contradiction
  | cons b body ih =>
    simp only [List.mem_cons, not_or] at h
    cases body with
    | nil => simp [lines, Ne.symm h.1]
    | cons c body => rw [lines, if_neg (Ne.symm h.1), ih h.2 (by simp)]

/-- Induction along the lines: none, one that is not ended, or one that is ended and more. -/
theorem lines_induction {P : Bytes → Prop} (nil : P [])
    (unended : ∀ body, 0x0A ∉ body → body ≠ [] → P body)
    (ended : ∀ body rest, 0x0A ∉ body → P rest → P (body ++ 0x0A :: rest)) (bytes : Bytes) :
    P bytes := by
  obtain (rfl | ⟨body, hbody, hne, rfl⟩) | ⟨body, rest, hbody, rfl⟩ := cases_line bytes
  · exact nil
  · exact unended bytes hbody hne
  · exact ended body rest hbody (lines_induction nil unended ended rest)
termination_by bytes.length
decreasing_by
  subst_vars
  rw [List.length_append, List.length_cons]
  omega

theorem flatten_lines (bytes : Bytes) : (lines bytes).flatten = bytes := by
  induction bytes using lines_induction with
  | nil => rfl
  | unended body hbody hne => simp [lines_open hbody hne]
  | ended body rest hbody ih => simp [lines_feed hbody, ih]

theorem lines_append {x : Bytes} (h : Closed x) (y : Bytes) :
    lines (x ++ y) = lines x ++ lines y := by
  induction x using lines_induction with
  | nil => rfl
  | unended body hbody hne =>
    obtain ⟨b, hb⟩ := Option.ne_none_iff_exists'.1 (mt List.getLast?_eq_none_iff.1 hne)
    exact absurd (List.mem_of_getLast? hb) (h b hb ▸ hbody)
  | ended body rest hbody ih =>
    rw [List.append_assoc, List.cons_append, lines_feed hbody, lines_feed hbody,
      ih h.after_feed, List.cons_append]

/-- What a line looks like: a body without line feed, and perhaps a line feed. -/
theorem exists_body {bytes line : Bytes} (h : line ∈ lines bytes) :
    ∃ body, 0x0A ∉ body ∧ (line = body ++ [0x0A] ∨ line = body ∧ body ≠ []) := by
  induction bytes using lines_induction with
  | nil => simp at h
  | unended body hbody hne =>
    rw [lines_open hbody hne, List.mem_singleton] at h
    exact ⟨body, hbody, .inr ⟨h, hne⟩⟩
  | ended body rest hbody ih =>
    rw [lines_feed hbody] at h
    rcases List.mem_cons.1 h with rfl | h
    · exact ⟨body, hbody, .inl rfl⟩
    · exact ih h

theorem closed_of_mem_lines {bytes line : Bytes} (hb : Closed bytes) (h : line ∈ lines bytes) :
    Closed line := by
  induction bytes using lines_induction with
  | nil => simp at h
  | unended body hbody hne =>
    rw [lines_open hbody hne, List.mem_singleton] at h
    exact h ▸ hb
  | ended body rest hbody ih =>
    rw [lines_feed hbody] at h
    rcases List.mem_cons.1 h with rfl | h
    · exact closed_concat body
    · exact ih hb.after_feed h

theorem lines_of_mem {bytes line : Bytes} (h : line ∈ lines bytes) : lines line = [line] := by
  obtain ⟨body, hbody, rfl | ⟨rfl, hne⟩⟩ := exists_body h
  · simpa using lines_feed hbody []
  · exact lines_open hbody hne

/-- The first of some lines is a line by itself, ended if there are more, and the others are the
lines of what follows it. -/
theorem exists_lines_rest {bytes line : Bytes} {rest : List Bytes}
    (h : lines bytes = line :: rest) :
    (rest = [] ∨ Closed line) ∧ ∃ more, lines more = rest ∧ (Closed bytes → Closed more) := by
  obtain (rfl | ⟨body, hbody, hne, rfl⟩) | ⟨body, more, hbody, rfl⟩ := cases_line bytes
  · cases h
  · rw [lines_open hbody hne] at h
    obtain ⟨rfl, rfl⟩ := List.cons.inj h
    exact ⟨.inl rfl, [], rfl, fun _ => closed_nil⟩
  · rw [lines_feed hbody] at h
    obtain ⟨rfl, rfl⟩ := List.cons.inj h
    exact ⟨.inr (closed_concat body), more, rfl, Closed.after_feed⟩

/-! ## The content of a line -/

theorem content_open {body : Bytes} (h : 0x0A ∉ body) : content body = body := by
  unfold content
  split
  · next heq => exact absurd (List.mem_reverse.1 (heq ▸ List.mem_cons_self)) h
  · next heq => exact absurd (List.mem_reverse.1 (heq ▸ List.mem_cons_self)) h
  · rfl

/-- The content of an ended line is its body, or what comes before the carriage return. -/
theorem content_feed (body : Bytes) :
    content (body ++ [0x0A]) = body ∨ body = content (body ++ [0x0A]) ++ [0x0D] := by
  simp only [content, List.reverse_append, List.reverse_cons, List.reverse_nil, List.nil_append,
    List.cons_append]
  cases hr : body.reverse with
  | nil => exact .inl (by simpa using hr.symm)
  | cons b rest =>
    have hbody : body = rest.reverse ++ [b] := by
      rw [← List.reverse_reverse body, hr, List.reverse_cons]
    by_cases hb : b = 0x0D
    · subst hb
      exact .inr hbody
    · refine .inl ?_
      split
      · next heq => exact absurd (by simpa using heq) (by simp [hb])
      · next heq =>
        obtain rfl : b :: rest = _ := by simpa using heq
        rw [hbody, List.reverse_cons]
      · next h => exact absurd rfl (h _)

theorem content_feed_eq_self {body : Bytes} (h : body.getLast? ≠ some 0x0D) :
    content (body ++ [0x0A]) = body := by
  rcases content_feed body with hc | hc
  · exact hc
  · exact absurd (by rw [hc]; simp) h

theorem feed_not_mem_content {bytes line : Bytes} (h : line ∈ lines bytes) :
    0x0A ∉ content line := by
  obtain ⟨body, hbody, rfl | ⟨rfl, -⟩⟩ := exists_body h
  · rcases content_feed body with hc | hc
    · rwa [hc]
    · exact fun hmem => hbody (hc ▸ List.mem_append_left _ hmem)
  · rwa [content_open hbody]

theorem length_content_feed (body : Bytes) :
    body.length ≤ (content (body ++ [0x0A])).length + 1 := by
  rcases content_feed body with hc | hc
  · rw [hc]; omega
  · exact Nat.le_of_eq (by conv => lhs; rw [hc, List.length_append, List.length_singleton])

/-! ## Runs and lines -/

theorem take_feed {body : Bytes} (h : 0x0A ∉ body) (rest : Bytes) {n : Nat} (hn : body.length < n) :
    take n (body ++ 0x0A :: rest) = (body ++ [0x0A], rest) := by
  induction body generalizing n with
  | nil =>
    obtain ⟨n, rfl⟩ := Nat.exists_eq_succ_of_ne_zero (Nat.ne_of_gt hn)
    simp [take]
  | cons b body ih =>
    obtain ⟨n, rfl⟩ := Nat.exists_eq_succ_of_ne_zero (Nat.ne_of_gt (Nat.zero_lt_of_lt hn))
    simp only [List.mem_cons, not_or] at h
    simp only [List.length_cons, Nat.succ_eq_add_one, Nat.add_lt_add_iff_right] at hn
    simp [take, Ne.symm h.1, ih h.2 hn]

theorem take_open {body : Bytes} (h : 0x0A ∉ body) (rest : Bytes) :
    take body.length (body ++ rest) = (body, rest) := by
  induction body with
  | nil => rfl
  | cons b body ih =>
    simp only [List.mem_cons, not_or] at h
    simp [take, Ne.symm h.1, ih h.2]

theorem take_of_length_le {body : Bytes} (h : 0x0A ∉ body) {n : Nat} (hn : body.length ≤ n) :
    take n body = (body, []) := by
  induction body generalizing n with
  | nil => cases n <;> rfl
  | cons b body ih =>
    simp only [List.mem_cons, not_or] at h
    obtain ⟨n, rfl⟩ := Nat.exists_eq_succ_of_ne_zero (n := n) (by simp at hn; omega)
    simp only [List.length_cons, Nat.succ_eq_add_one, Nat.add_le_add_iff_right] at hn
    simp [take, Ne.symm h.1, ih h.2 hn]

/-- A window without a line feed is taken whole, and is too long to be a line. -/
theorem take_long {body : Bytes} (h : 0x0A ∉ body) (hlong : window ≤ body.length) (rest : Bytes) :
    ∃ run after, take window (body ++ rest) = (run, after) ∧ maxLength < (content run).length := by
  have hmem : 0x0A ∉ body.take window := fun hm => h (List.mem_of_mem_take hm)
  have hlen : (body.take window).length = window := by
    rw [List.length_take, Nat.min_eq_left hlong]
  refine ⟨body.take window, body.drop window ++ rest, ?_, ?_⟩
  · have := take_open hmem (body.drop window ++ rest)
    rwa [hlen, ← List.append_assoc, List.take_append_drop] at this
  · rw [content_open hmem, hlen]
    decide

/-- The next run is the next line, or both are too long. -/
theorem take_window {bytes line : Bytes} {rest : List Bytes} (h : lines bytes = line :: rest) :
    ∃ run after, take window bytes = (run, after) ∧
      (run = line ∧ lines after = rest ∨
        maxLength < (content line).length ∧ maxLength < (content run).length) := by
  obtain (rfl | ⟨body, hbody, hne, rfl⟩) | ⟨body, more, hbody, rfl⟩ := cases_line bytes
  · simp at h
  · rw [lines_open hbody hne] at h
    obtain ⟨rfl, rfl⟩ := List.cons.inj h
    by_cases hlen : bytes.length ≤ window
    · exact ⟨bytes, [], take_of_length_le hbody hlen, .inl ⟨rfl, rfl⟩⟩
    · obtain ⟨run, after, ht, hrun⟩ := take_long hbody (by omega) []
      refine ⟨run, after, by simpa using ht, .inr ⟨?_, hrun⟩⟩
      have hw : window = maxLength + 2 := rfl
      rw [content_open hbody]
      omega
  · rw [lines_feed hbody] at h
    obtain ⟨rfl, rfl⟩ := List.cons.inj h
    by_cases hlen : body.length < window
    · exact ⟨_, more, take_feed hbody more hlen, .inl ⟨rfl, rfl⟩⟩
    · obtain ⟨run, after, ht, hrun⟩ := take_long hbody (by omega) (0x0A :: more)
      refine ⟨run, after, ht, .inr ⟨?_, hrun⟩⟩
      have := length_content_feed body
      have hw : window = maxLength + 2 := rfl
      omega

end PackageConf.Line

namespace PackageConf.Reader
open Line

theorem next_at_end {r : Reader} (h : r.rest = .bytes []) : r.next = (.ok none, r) := by
  simp [next, h, Line.window, Line.take]

theorem next_unreadable {r : Reader} {cause : FileError} (h : r.rest = .unreadable cause) :
    r.next = (.error (.io cause), r) := by
  simp [next, h]

/-- A reader says what the next line says, and unless the line is in error goes on after it. -/
theorem next_bytes {r : Reader} {bytes line : Bytes} {rest : List Bytes} (h : r.rest = .bytes bytes)
    (hl : lines bytes = line :: rest) :
    r.next.1 = (token line (r.line + 1)).map some ∧
      (∀ t, token line (r.line + 1) = .ok t →
        ∃ after, lines after = rest ∧
          r.next.2 = { r with line := r.line + 1, rest := .bytes after }) := by
  obtain ⟨run, after, ht, hrun⟩ := take_window hl
  have hne : run ≠ [] := by
    rintro rfl
    have : (take window bytes).1 = [] := by rw [ht]
    rw [(take_eq_nil_iff (by decide)).1 this] at hl
    simp at hl
  have hnext : r.next = ((token run (r.line + 1)).map some,
      { r with line := r.line + 1, rest := .bytes after }) := by
    unfold next
    rw [h]
    -- the match on the run is open only while the run may be empty
    simp only [ht]
  rw [hnext]
  rcases hrun with ⟨rfl, hafter⟩ | ⟨hline, hlong⟩
  · exact ⟨rfl, fun t _ => ⟨after, hafter, rfl⟩⟩
  · have htoo : ∀ l : Bytes, maxLength < (content l).length →
        token l (r.line + 1) = .error (.lineTooLong (r.line + 1)) := fun l hl => if_pos hl
    rw [htoo run hlong, htoo line hline]
    exact ⟨rfl, fun t ht' => nomatch ht'⟩

end PackageConf.Reader
