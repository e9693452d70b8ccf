import PackageConf.Proofs.Line.Grammar
import PackageConf.Proofs.Line.Physical
import PackageConf.Proofs.Reader.Frames
/-!
# What a reader delivers

A reader takes its source apart into the runs of `Line.runs`, one at each turn, whether or not there
is an error in it (`after_ofBytes`). The runs are the lines of the source up to the first one that
is too long, and that one is still told from the others: the run taken in its place is too long as
well (`exists_run_of_line`). So a reader says in turn what the contents of the lines say
(`reads_contents`), and the first line that is too long is an error, however long it is.
-/
namespace PackageConf
namespace Line

/-! ## The contents of the lines -/

def withoutReturn (piece : Bytes) : Bytes :=
  if piece.getLast? = some 0x0D then piece.dropLast else piece

/-- The contents of the lines of some bytes. These are the pieces between the line feeds, without
the carriage return before a line feed; the piece behind the last line feed counts as it is, if
there is anything in it. -/
def contents (bytes : Bytes) : List Bytes :=
  let pieces := bytes.splitOn 0x0A
  pieces.dropLast.map withoutReturn ++ pieces.getLast?.toList.filter (· ≠ [])

theorem content_feed_eq_withoutReturn (body : Bytes) :
    content (body ++ [0x0A]) = withoutReturn body := by
  by_cases h : body.getLast? = some 0x0D
  · obtain ⟨front, rfl⟩ := List.getLast?_eq_some_iff.1 h
    simp [withoutReturn, content]
  · rw [content_feed_eq_self h, withoutReturn, if_neg h]

theorem contents_open {body : Bytes} (h : 0x0A ∉ body) (hne : body ≠ []) :
    contents body = [body] := by
  simp [contents, List.splitOn_eq_singleton h, hne]

theorem contents_feed {body : Bytes} (h : 0x0A ∉ body) (rest : Bytes) :
    contents (body ++ 0x0A :: rest) = withoutReturn body :: contents rest := by
  have hne := List.splitOn_ne_nil 0x0A rest
  rw [contents, List.splitOn_append_cons_self_of_not_mem h]
  simp only [List.dropLast_cons_of_ne_nil hne, List.getLast?_cons_of_ne_nil hne]
  rfl

theorem contents_eq (bytes : Bytes) : contents bytes = (lines bytes).map content := by
  induction bytes using lines_induction with
  | nil => rfl
  | unended body hbody hne =>
    rw [contents_open hbody hne, lines_open hbody hne, List.map_singleton, content_open hbody]
  | ended body rest hbody ih =>
    rw [contents_feed hbody, lines_feed hbody, List.map_cons, content_feed_eq_withoutReturn, ih]

/-! ## The runs of a source -/

theorem length_take_le (n : Nat) (bytes : Bytes) : (take n bytes).1.length ≤ n := by
  fun_induction take n bytes with
  | case1 => simp
  | case2 => simp
  | case3 => simp
  | case4 n b bytes hb ih => simpa using ih

@[simp] theorem runs_nil : runs [] = [] := by
  rw [runs]
  rfl

theorem runs_of_take {bytes run after : Bytes} (h : take window bytes = (run, after))
    (hne : run ≠ []) : runs bytes = run :: runs after := by
  obtain ⟨b, run, rfl⟩ := List.exists_cons_of_ne_nil hne
  rw [runs]
  split
  · next h' => simp [h] at h'
  · next h' =>
    rw [h] at h'
    simp_all

/-- There is nothing to take, or there is a first run. -/
theorem cases_runs (bytes : Bytes) :
    bytes = [] ∨ ∃ run after, run ≠ [] ∧ take window bytes = (run, after) ∧
      runs bytes = run :: runs after := by
  by_cases hnil : bytes = []
  · exact .inl hnil
  · have hne : (take window bytes).1 ≠ [] := mt (take_eq_nil_iff (by decide)).1 hnil
    exact .inr ⟨_, _, hne, rfl, runs_of_take rfl hne⟩

theorem token_eq_lineTooLong_iff {line : Bytes} {number n : Nat} :
    token line number = .error (.lineTooLong n) ↔
      maxLength < (content line).length ∧ n = number := by
  rw [token_eq_error_iff]
  simp

/-- A run is never empty, and never longer than the window. -/
theorem length_of_mem_runs {bytes run : Bytes} (h : run ∈ runs bytes) :
    run ≠ [] ∧ run.length ≤ window := by
  fun_induction runs bytes with
  | case1 => simp at h
  | case2 bytes b run' rest ht ih =>
    rcases List.mem_cons.1 h with rfl | h
    · have hlen := length_take_le window bytes
      rw [ht] at hlen
      exact ⟨List.cons_ne_nil _ _, hlen⟩
    · exact ih h

/-- What is left behind some runs is taken in the runs that are left. -/
theorem runs_flatten_drop (bytes : Bytes) (k : Nat) :
    runs ((runs bytes).drop k).flatten = (runs bytes).drop k := by
  induction k generalizing bytes with
  | zero => rw [List.drop_zero, flatten_runs]
  | succ k ih =>
    obtain rfl | ⟨run, after, -, -, hruns⟩ := cases_runs bytes
    · simp
    · rw [hruns]
      exact ih after

/-! ## Runs and lines -/

theorem exists_run_of_lines {bytes line : Bytes} {rest : List Bytes}
    (h : lines bytes = line :: rest) :
    ∃ run after, runs bytes = run :: runs after ∧
      (run = line ∧ lines after = rest ∨
        maxLength < (content line).length ∧ maxLength < (content run).length) := by
  obtain rfl | ⟨run, after, -, htake, hruns⟩ := cases_runs bytes
  · cases h
  · obtain ⟨run', after', htake', hrun⟩ := take_window h
    obtain ⟨rfl, rfl⟩ := Prod.mk.inj (htake.symm.trans htake')
    exact ⟨run, after, hruns, hrun⟩

/-- Up to the first line that is too long a run is a line, and in place of that one there is a run
that is too long. -/
theorem exists_run_of_line {bytes line : Bytes} {k : Nat} (h : (lines bytes)[k]? = some line)
    (hshort : ∀ l ∈ (lines bytes).take k, (content l).length ≤ maxLength) :
    ∃ run, (runs bytes)[k]? = some run ∧
      (run = line ∨ maxLength < (content line).length ∧ maxLength < (content run).length) := by
  induction k generalizing bytes with
  | zero =>
    obtain ⟨rest, hl⟩ := List.head?_eq_some_iff.1 (List.head?_eq_getElem?.trans h)
    obtain ⟨run, after, hruns, hrun⟩ := exists_run_of_lines hl
    exact ⟨run, by rw [hruns]; rfl, hrun.imp_left And.left⟩
  | succ k ih =>
    cases hl : lines bytes with
    | nil => simp [hl] at h
    | cons first rest =>
      rw [hl] at h hshort
      obtain ⟨run, after, hruns, ⟨rfl, hafter⟩ | ⟨hlong, -⟩⟩ := exists_run_of_lines hl
      · rw [hruns]
        refine ih (by rwa [hafter]) fun l hmem => hshort l ?_
        rw [hafter] at hmem
        exact List.mem_cons_of_mem _ hmem
      · exact absurd (hshort first List.mem_cons_self) (Nat.not_le.2 hlong)

/-- If no line is too long the runs are the lines. -/
theorem runs_eq_lines {bytes : Bytes} (hshort : ∀ l ∈ lines bytes, (content l).length ≤ maxLength) :
    runs bytes = lines bytes := by
  induction hl : lines bytes generalizing bytes with
  | nil =>
    have hnil : bytes = [] := by rw [← flatten_lines bytes, hl]; rfl
    rw [hnil, runs_nil]
  | cons first rest ih =>
    rw [hl] at hshort
    obtain ⟨run, after, hruns, ⟨rfl, hafter⟩ | ⟨hlong, -⟩⟩ := exists_run_of_lines hl
    · rw [hruns, ih (fun l hmem => hshort l (List.mem_cons_of_mem _ (hafter ▸ hmem))) hafter]
    · exact absurd (hshort first List.mem_cons_self) (Nat.not_le.2 hlong)

end Line

namespace Reader
open Line

/-! ## The turns of a reader -/

theorem next_of_runs {r : Reader} {bytes : Bytes} (h : r.rest = .bytes bytes) :
    r.next = match runs bytes with
      | [] => (.ok none, r)
      | run :: rest => ((token run (r.line + 1)).map some,
          { r with line := r.line + 1, rest := .bytes rest.flatten }) := by
  obtain rfl | ⟨run, after, hne, htake, hruns⟩ := cases_runs bytes
  · rw [runs_nil, next_at_end h]
  · rw [hruns]
    unfold next
    rw [h]
    simp only [htake, flatten_runs]

/-- A reader that has taken `k` runs, or all there are. -/
def atTurn (label : String) (bytes : Bytes) (k : Nat) : Reader where
  label := label
  line := min k (runs bytes).length
  rest := .bytes ((runs bytes).drop k).flatten

/-- When all runs are taken, the reader is at the end of its source. -/
theorem atTurn_of_le (label : String) {bytes : Bytes} {k : Nat} (h : (runs bytes).length ≤ k) :
    atTurn label bytes k = { label, line := (runs bytes).length, rest := .bytes [] } := by
  rw [atTurn, List.drop_eq_nil_of_le h, Nat.min_eq_right h, List.flatten_nil]

/-- What is said at a turn is what its run says. -/
theorem next_atTurn (label : String) (bytes : Bytes) (k : Nat) :
    (atTurn label bytes k).next =
      ((runs bytes)[k]?.elim (.ok none) fun run => (token run (k + 1)).map some,
        atTurn label bytes (k + 1)) := by
  cases hk : (runs bytes)[k]? with
  | none =>
    have hle : (runs bytes).length ≤ k := List.getElem?_eq_none_iff.1 hk
    rw [atTurn_of_le label hle, atTurn_of_le label (Nat.le_succ_of_le hle), next_at_end rfl]
    rfl
  | some run =>
    obtain ⟨hlt, rfl⟩ := List.getElem?_eq_some_iff.1 hk
    have hline : (atTurn label bytes k).line = k := Nat.min_eq_left (Nat.le_of_lt hlt)
    have hline' : min (k + 1) (runs bytes).length = k + 1 := Nat.min_eq_left hlt
    have hrest : (atTurn label bytes k).rest = .bytes ((runs bytes).drop k).flatten := rfl
    rw [next_of_runs hrest, runs_flatten_drop, List.drop_eq_getElem_cons hlt, hline, atTurn, atTurn,
      hline']
    rfl

theorem after_ofBytes (label : String) (bytes : Bytes) (k : Nat) :
    (ofBytes label bytes).after k = atTurn label bytes k := by
  induction k with
  | zero =>
    rw [atTurn, List.drop_zero, flatten_runs, Nat.zero_min]
    rfl
  | succ k ih => rw [after_succ, ih, next_atTurn]

/-! ## The turns and the contents of the lines -/

/-- As long as no line was too long, a turn says what the next line says. -/
theorem exists_line_of_contents (label : String) {bytes c : Bytes} {k : Nat}
    (h : (contents bytes)[k]? = some c)
    (hshort : ∀ b ∈ (contents bytes).take k, b.length ≤ maxLength) :
    ∃ line, content line = c ∧
      ((ofBytes label bytes).after k).next.1 = (token line (k + 1)).map some ∧
      ((ofBytes label bytes).after (k + 1)).line = k + 1 := by
  rw [contents_eq] at h hshort
  rw [List.getElem?_map, Option.map_eq_some_iff] at h
  obtain ⟨line, hline, hc⟩ := h
  have hlines : ∀ l ∈ (lines bytes).take k, (content l).length ≤ maxLength := fun l hl =>
    hshort _ (by rw [← List.map_take]; exact List.mem_map_of_mem hl)
  obtain ⟨run, hrun, hsame⟩ := exists_run_of_line hline hlines
  have htoken : token run (k + 1) = token line (k + 1) := by
    rcases hsame with rfl | ⟨hlong, hlong'⟩
    · rfl
    · rw [token_of_long hlong, token_of_long hlong']
  refine ⟨line, hc, ?_, ?_⟩
  · rw [after_ofBytes, next_atTurn, hrun, ← htoken]
    rfl
  · rw [after_ofBytes]
    exact Nat.min_eq_left (List.getElem?_eq_some_iff.1 hrun).1

/-- **A reader delivers the lines of its source.** Until a line is too long, each turn says what the
content of the next line says, be it a token or an error, and counts the line; a line that is too
long is reported as such with its number, and nothing else is. If there is none, the reader
stays where it is behind the last line. In any case the turns take the source apart into runs that
are neither empty nor longer than the window, and when they are used up there is nothing more to
be read. -/
theorem reads_contents (label : String) (bytes : Bytes) :
    let r := ofBytes label bytes
    (∀ k c, (contents bytes)[k]? = some c →
      (∀ b ∈ (contents bytes).take k, b.length ≤ maxLength) →
        (r.after k).next.1 = (if maxLength < c.length then .error (.lineTooLong (k + 1))
          else (Token.ofLine (Text.decode c) (k + 1)).map some) ∧
        (∀ n, (r.after k).next.1 = .error (.lineTooLong n) ↔ maxLength < c.length ∧ n = k + 1) ∧
        (r.after (k + 1)).line = k + 1) ∧
    ((∀ c ∈ contents bytes, c.length ≤ maxLength) → ∀ k, (contents bytes).length ≤ k →
      (r.after k).next = (.ok none, r.after k) ∧ (r.after k).line = (contents bytes).length) ∧
    (runs bytes).flatten = bytes ∧ (∀ run ∈ runs bytes, run ≠ [] ∧ run.length ≤ window) ∧
    ∀ k, (r.after k).rest = .bytes ((runs bytes).drop k).flatten ∧
      (r.after k).line = min k (runs bytes).length ∧
      ((r.after k).next.1 = .ok none ↔ (runs bytes).length ≤ k) := by
  intro r
  refine ⟨?_, ?_, flatten_runs bytes, fun _ => length_of_mem_runs, ?_⟩
  · intro k c hc hshort
    obtain ⟨line, rfl, hnext, hcount⟩ := exists_line_of_contents label hc hshort
    refine ⟨?_, fun n => ?_, hcount⟩
    · rw [hnext, token]
      split <;> rfl
    · rw [hnext, ← token_eq_lineTooLong_iff]
      cases token line (k + 1) <;> simp [Except.map]
  · intro hshort k hk
    rw [contents_eq, List.forall_mem_map] at hshort
    rw [contents_eq, List.length_map, ← runs_eq_lines hshort] at hk ⊢
    have hend : r.after k = { label, line := (runs bytes).length, rest := .bytes [] } :=
      (after_ofBytes label bytes k).trans (atTurn_of_le label hk)
    rw [hend]
    exact ⟨next_at_end rfl, rfl⟩
  · intro k
    have hturn : r.after k = atTurn label bytes k := after_ofBytes label bytes k
    refine ⟨by rw [hturn]; rfl, by rw [hturn]; rfl, ?_⟩
    rw [hturn, next_atTurn, ← List.getElem?_eq_none_iff]
    cases (runs bytes)[k]? with
    | none => simp
    | some run => cases ht : token run (k + 1) <;> simp [ht, Except.map]

/-- Three lines: the first one ends with a carriage return, the second one is in error, and the last
one is not ended. -/
def threeLines : Bytes := Text.encode "a\r\n[x\n#".toList

def longLine : Bytes := List.replicate 4097 0x61

theorem contents_threeLines : contents threeLines = [[0x61], [0x5B, 0x78], [0x23]] := by cbv

theorem length_longLine : longLine.length = maxLength + 1 := List.length_replicate

theorem contents_longLine : contents longLine = [longLine] := by
  refine contents_open (fun h => absurd (List.eq_of_mem_replicate h) (by decide)) fun h => ?_
  have hlength := length_longLine
  rw [h] at hlength
  cases hlength

/-- The error does not keep the reader from the last line, and behind that one it stays; but a line
that is too long is no token. -/
theorem reads_contents_threeLines :
    let r := ofBytes "main" threeLines
    contents threeLines = [[0x61], [0x5B, 0x78], [0x23]] ∧
    (r.after 1).next.1 = .error (.missingBracket 2) ∧ (r.after 2).next.1 = .ok (some .comment) ∧
    (r.after 3).next = (.ok none, r.after 3) ∧ (r.after 3).line = 3 ∧
    contents longLine = [longLine] ∧
    ((ofBytes "long" longLine).after 0).next.1 = .error (.lineTooLong 1) := by
  intro r
  obtain ⟨hturns, hend, -⟩ := reads_contents "main" threeLines
  obtain ⟨hlong, -⟩ := reads_contents "long" longLine
  have hshort : ∀ c ∈ contents threeLines, c.length ≤ maxLength := by
    rw [contents_threeLines]
    decide
  have hsecond := hturns 1 [0x5B, 0x78] (by rw [contents_threeLines]; rfl)
    fun b hb => hshort b (List.mem_of_mem_take hb)
  have hthird := hturns 2 [0x23] (by rw [contents_threeLines]; rfl)
    fun b hb => hshort b (List.mem_of_mem_take hb)
  have hbehind := hend hshort 3 (by rw [contents_threeLines]; decide)
  have hfirst := hlong 0 longLine (by rw [contents_longLine]; rfl) (by simp)
  refine ⟨contents_threeLines, hsecond.1.trans (by cbv), hthird.1.trans (by cbv), hbehind.1,
    hbehind.2.trans (by rw [contents_threeLines]; rfl), contents_longLine, ?_⟩
  rw [hfirst.1, if_pos (length_longLine ▸ Nat.lt_succ_self maxLength)]

end Reader
end PackageConf
