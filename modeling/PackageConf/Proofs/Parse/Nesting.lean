import PackageConf.Proofs.Parse.Follow
import PackageConf.Proofs.Parse.Steps
/-!
# How deep includes nest

Nothing in reading a configuration looks out for files that include each other; all there is is the
limit. It is enough. A run that goes well has visited every line of every file that `Include` lines
lead to (`exists_visit_of_reaches`), and each of these lines lies no deeper than the limit. So the
chains of `Include` lines are no longer than the limit (`le_of_nestedIncludes`). In a cycle there
are chains of any length, and so no run through one goes well, whatever the limit is
(`includes_bounded`).

What a file is, is its content here: the same file under two paths is one file, and so a cycle is
found also where every path in it is another one.
-/
namespace PackageConf

variable {fs : FileSystem} {x y z : Bytes}

/-! ## Chains of includes -/

/-- There are `n` nested `Include` lines: the first one is a line of `x`, and every other one is a
line of the file that the one before it names. The last one may lead nowhere. -/
def NestedIncludes (fs : FileSystem) (x : Bytes) : Nat → Prop
  | 0 => True
  | n + 1 => ∃ y line values, Reaches fs x n y ∧ line ∈ Line.lines y ∧
      Line.includeValues? line = some values

theorem Reaches.trans {k n : Nat} (h : Reaches fs x k y) (h' : Reaches fs y n z) :
    Reaches fs x (k + n) z := by
  induction h' with
  | refl => exact h
  | step _ hline hvals hacc ih => exact ih.step hline hvals hacc

theorem Reaches.nestedIncludes {n : Nat} (h : Reaches fs x n y) : NestedIncludes fs x n := by
  cases h with
  | refl => trivial
  | step hy hline hvals _ => exact ⟨_, _, _, hy, hline, hvals⟩

/-- Around a cycle a file is reached from itself in any number of rounds. -/
theorem Reaches.exists_le_of_cycle {n : Nat} (h : Reaches fs y (n + 1) y) (m : Nat) :
    ∃ k, m ≤ k ∧ Reaches fs y k y := by
  induction m with
  | zero => exact ⟨0, Nat.le_refl 0, .refl⟩
  | succ m ih =>
    obtain ⟨k, hk, hy⟩ := ih
    exact ⟨k + (n + 1), by omega, hy.trans h⟩

/-! ## Runs that go well -/

theorem lt_of_checkInclude {limit depth number : Nat} {values : List String}
    (h : checkInclude fs limit depth number values = .ok ()) : depth < limit := by
  unfold checkInclude at h
  split at h
  · cases h
  · split at h
    · cases h
    · next hd => exact Nat.lt_of_not_le hd

/-- A run that goes well visits every line of every file that `Include` lines lead to. -/
theorem exists_visit_of_reaches {limit k : Nat} {d d' : Draft}
    (h : d.follow fs limit (visits fs limit 0 0 (Line.lines x)) = .ok d')
    (hy : Reaches fs x k y) {line : Bytes} (hline : line ∈ Line.lines y) :
    ∃ n, .line k n line ∈ visits fs limit 0 0 (Line.lines x) := by
  induction hy generalizing line with
  | refl => exact exists_visit_of_mem fs limit 0 0 hline
  | @step k y inc content path values _ hinc hvals hacc ih =>
    obtain ⟨n, hn⟩ := ih hinc
    have hk : k < limit := lt_of_checkInclude ((Draft.follow_eq_ok_iff.1 h).1 _ hn _ hvals)
    obtain ⟨m, hm⟩ := exists_visit_of_mem fs limit (k + 1) 0 hline
    refine ⟨m, mem_visits_of_included hn ?_⟩
    rw [included_eq_visits hvals hk hacc]
    exact hm

/-- Where a run goes well, the chains of `Include` lines are no longer than the limit. -/
theorem le_of_nestedIncludes {limit n : Nat} {c : Config} (h : parse fs x limit = .ok c)
    (hn : NestedIncludes fs x n) : n ≤ limit := by
  obtain ⟨d, hf, -⟩ := parse_eq_ok_iff.1 h
  cases n with
  | zero => exact Nat.zero_le limit
  | succ n =>
    obtain ⟨y, line, values, hy, hline, hvals⟩ := hn
    obtain ⟨number, hvisit⟩ := exists_visit_of_reaches hf hy hline
    exact lt_of_checkInclude ((Draft.follow_eq_ok_iff.1 hf).1 _ hvisit _ hvals)

/-- Where a run goes well, no file that is reached leads back to itself. -/
theorem eq_zero_of_reaches_self {limit k n : Nat} {c : Config} (h : parse fs x limit = .ok c)
    (hy : Reaches fs x k y) (hcycle : Reaches fs y n y) : n = 0 := by
  cases n with
  | zero => rfl
  | succ n =>
    obtain ⟨m, hm, hround⟩ := hcycle.exists_le_of_cycle (limit + 1)
    have hle := le_of_nestedIncludes h (hy.trans hround).nestedIncludes
    omega

/-- **Including is bounded.** A run of `n` steps is no longer than its text and the files allow, and
on its way no more files are open than the limit says; so it comes to an end. If the text is read,
the chains of `Include` lines are no longer than the limit, and no file that they lead to includes
itself, be it through others. Where one does, the text is not read. -/
theorem includes_bounded (fs : FileSystem) (limit : Nat) (x : Bytes) :
    (∀ n s, ParseState.Steps fs limit n (.begin x) s →
      n ≤ (x.length + 1) * (fs.largest + 2) ^ limit ∧ s.stack.depth ≤ limit) ∧
    (∃ n s, ParseState.Steps fs limit n (.begin x) s ∧
      s.step fs limit = .ended (parse fs x limit)) ∧
    (∀ c, parse fs x limit = .ok c →
      (∀ n, NestedIncludes fs x n → n ≤ limit) ∧
        ∀ k y n, Reaches fs x k y → Reaches fs y n y → n = 0) ∧
    (∀ k y n, Reaches fs x k y → Reaches fs y (n + 1) y → ∃ e, parse fs x limit = .error e) := by
  refine ⟨fun n s h => ⟨?_, h.depth_le (Nat.zero_le limit)⟩, ?_, fun c hc => ?_, ?_⟩
  · have hweight := h.add_weight_le
    rw [ParseState.weight_begin] at hweight
    omega
  · exact ParseState.exists_steps_ended fs limit (.begin x)
  · exact ⟨fun n hn => le_of_nestedIncludes hc hn, fun k y n hy hself =>
      eq_zero_of_reaches_self hc hy hself⟩
  · intro k y n hy hcycle
    cases hp : parse fs x limit with
    | error e => exact ⟨e, rfl⟩
    | ok c => exact absurd (eq_zero_of_reaches_self hp hy hcycle) (Nat.succ_ne_zero n)

/-! ### Two files that include each other -/

/-- One of two files that include each other. -/
def ringText : Bytes := Text.encode "Include = b\n".toList

def knotText : Bytes := Text.encode "Include = a\n".toList

def leafText : Bytes := Text.encode "[c]\n".toList

def ringFiles : FileSystem := .ofList
  [("a", .ok (.bytes ringText)), ("b", .ok (.bytes knotText)), ("m", .ok (.bytes leafText))]

theorem reaches_knotText : Reaches ringFiles ringText 1 knotText := by
  have hline : ringText ∈ Line.lines ringText := by decide
  have hvals : Line.includeValues? ringText = some ["b"] := by cbv
  have hacc : ringFiles.access "b" = .ok (.bytes knotText) := rfl
  exact .step .refl hline hvals hacc

/-- Through the other file the first one includes itself. -/
theorem reaches_ringText : Reaches ringFiles ringText 2 ringText := by
  have hline : knotText ∈ Line.lines knotText := by decide
  have hvals : Line.includeValues? knotText = some ["a"] := by cbv
  have hacc : ringFiles.access "a" = .ok (.bytes ringText) := rfl
  exact .step reaches_knotText hline hvals hacc

/-- The leaf is read through one include and has no chain of two; the ring is cut off at the
limit. -/
theorem includes_bounded_ringText :
    parse ringFiles (Text.encode "Include = m".toList) 1 = .ok { repos := [{ name := "c" }] } ∧
    ¬ NestedIncludes ringFiles (Text.encode "Include = m".toList) 2 ∧
    Reaches ringFiles ringText 0 ringText ∧ Reaches ringFiles ringText (1 + 1) ringText ∧
    (∃ e, parse ringFiles ringText 1 = .error e) ∧
    ∃ n s, ParseState.Steps ringFiles 1 n (.begin ringText) s ∧
      s.step ringFiles 1 = .failed (.includeDepth 1 1) ∧ s.stack.depth ≤ 1 := by
  have hleaf : parse ringFiles (Text.encode "Include = m".toList) 1 =
      .ok { repos := [{ name := "c" }] } := by cbv
  have hring : parse ringFiles ringText 1 = .error (.includeDepth 1 1) := by cbv
  obtain ⟨-, -, hread, -⟩ := includes_bounded ringFiles 1 (Text.encode "Include = m".toList)
  obtain ⟨hbound, ⟨n, s, hsteps, hlast⟩, -, hcycle⟩ := includes_bounded ringFiles 1 ringText
  rw [hring] at hlast
  refine ⟨hleaf, fun hn => ?_, .refl, reaches_ringText,
    hcycle 0 ringText 1 .refl reaches_ringText, n, s, hsteps, hlast, (hbound n s hsteps).2⟩
  exact absurd ((hread _ hleaf).1 2 hn) (by decide)

end PackageConf
