import Mathlib
import PackageConf.Proofs.Parse.FirstError
/-!
# Include targets that fail

A target can fail at two moments. Where its path leads nowhere, it is not opened, and the error
holds the `Include` line, the path and the cause. What opens but cannot be read, such as a
directory, fails when its first line is read, behind the `Include` line; that error holds the cause
alone.

`attributed_iff` states which of the two an attempt comes to. It rests on what stands next to what
in `visits`: an `Include` line has its target right behind it (`included_behind`), and the visit of
a source that cannot be read has its `Include` line right before it (`include_before_unreadable`).
-/
namespace PackageConf

/-! ## Neighbours among the visits -/

/-- A visit among those of some lines is the first line, or belongs to what that line includes, or
to the other lines. -/
theorem visits_cons_eq_append_cons {fs : FileSystem} {limit depth number : Nat} {line : Bytes}
    {rest : List Bytes} {before after : List Visit} {v : Visit}
    (h : visits fs limit depth number (line :: rest) = before ++ v :: after) :
    (before = [] ∧ v = .line depth (number + 1) line ∧
      after = included fs limit depth line ++ visits fs limit depth (number + 1) rest) ∨
    (∃ front back, before = .line depth (number + 1) line :: front ∧
      included fs limit depth line = front ++ v :: back ∧
      after = back ++ visits fs limit depth (number + 1) rest) ∨
    ∃ front, before = .line depth (number + 1) line :: (included fs limit depth line ++ front) ∧
      visits fs limit depth (number + 1) rest = front ++ v :: after := by
  rw [visits_cons] at h
  rcases List.cons_eq_append_iff.1 h with ⟨rfl, hv⟩ | ⟨front, rfl, hfront⟩
  · obtain ⟨rfl, rfl⟩ := List.cons_eq_cons.1 hv
    exact .inl ⟨rfl, rfl, rfl⟩
  · rcases List.append_eq_append_iff.1 hfront with ⟨middle, rfl, hmiddle⟩ | ⟨middle, hinc, hv⟩
    · exact .inr (.inr ⟨middle, rfl, hmiddle⟩)
    · cases middle with
      | nil =>
        rw [List.append_nil] at hinc
        exact .inr (.inr ⟨[], by rw [hinc, List.append_nil], hv.symm⟩)
      | cons w back =>
        obtain ⟨rfl, rfl⟩ := List.cons_eq_cons.1 hv
        exact .inr (.inl ⟨front, back, rfl, hinc, rfl⟩)

theorem exists_source_of_included {fs : FileSystem} {limit depth : Nat} {line : Bytes}
    {front back : List Visit} {v : Visit} (h : included fs limit depth line = front ++ v :: back) :
    ∃ source, depth < limit ∧ Line.target? fs line = some source ∧
      source.visits fs limit (depth + 1) = front ++ v :: back := by
  have hmem : v ∈ included fs limit depth line := by simp [h]
  obtain ⟨hd, source, htarget, -⟩ := mem_included_iff.1 hmem
  refine ⟨source, hd, htarget, ?_⟩
  rw [← h, included, if_pos hd, htarget]

/-- What a line includes is visited right behind it. -/
theorem included_behind {fs : FileSystem} {limit depth number k n : Nat} {ls : List Bytes}
    {line : Bytes} {before after : List Visit}
    (h : visits fs limit depth number ls = before ++ .line k n line :: after) :
    ∃ rest, after = included fs limit k line ++ rest := by
  induction depth, number, ls using visits_induction fs limit generalizing before after with
  | nil depth number => simp at h
  | cons depth number l rest ihInner ihRest =>
    rcases visits_cons_eq_append_cons h with ⟨-, hline, rfl⟩ | ⟨front, back, -, hinc, rfl⟩ |
      ⟨front, -, hrest⟩
    · obtain ⟨rfl, -, rfl⟩ := Visit.line.inj hline
      exact ⟨_, rfl⟩
    · obtain ⟨source, hd, htarget, hsource⟩ := exists_source_of_included hinc
      cases source with
      | bytes content =>
        obtain ⟨tail, rfl⟩ := ihInner content hd htarget hsource
        exact ⟨tail ++ visits fs limit depth (number + 1) rest, by simp⟩
      | unreadable cause => simp [Source.visits, List.singleton_eq_append_iff] at hsource
    · exact ihRest hrest

/-- The `Include` line that leads to a source that cannot be read is visited right before it. -/
theorem include_before_unreadable {fs : FileSystem} {limit depth number : Nat} {ls : List Bytes}
    {cause : FileError} {before after : List Visit}
    (h : visits fs limit depth number ls = before ++ .unreadable cause :: after) :
    ∃ front k n line, before = front ++ [.line k n line] ∧ k < limit ∧
      Line.target? fs line = some (.unreadable cause) := by
  induction depth, number, ls using visits_induction fs limit generalizing before after with
  | nil depth number => simp at h
  | cons depth number l rest ihInner ihRest =>
    rcases visits_cons_eq_append_cons h with ⟨-, hline, -⟩ | ⟨front, back, rfl, hinc, -⟩ |
      ⟨front, rfl, hrest⟩
    · cases hline
    · obtain ⟨source, hd, htarget, hsource⟩ := exists_source_of_included hinc
      cases source with
      | bytes content =>
        obtain ⟨front', k, n, line, rfl, hk, hline⟩ := ihInner content hd htarget hsource
        exact ⟨.line depth (number + 1) l :: front', k, n, line, rfl, hk, hline⟩
      | unreadable found =>
        rw [Source.visits, List.singleton_eq_append_iff] at hsource
        rcases hsource with ⟨rfl, hvisit⟩ | ⟨-, hnone⟩
        · obtain rfl := Visit.unreadable.inj (List.cons_eq_cons.1 hvisit).1
          exact ⟨[], depth, number + 1, l, rfl, hd, htarget⟩
        · cases hnone
    · obtain ⟨front', k, n, line, rfl, hk, hline⟩ := ihRest hrest
      exact ⟨.line depth (number + 1) l :: (included fs limit depth l ++ front'), k, n, line,
        by simp, hk, hline⟩

/-! ## Attempts -/

/-- Why what a path leads to cannot be opened or cannot be read; nothing where it can. -/
def FileSystem.refusal? (fs : FileSystem) (path : String) : Option FileError :=
  match fs.access path with
  | .ok (.bytes _) => none
  | .ok (.unreadable cause) => some cause
  | .error cause => some cause

/-- Reading some bytes comes, with nothing wrong before, to an `Include` line that may be followed
and has this path in front. `number` is the number of the line in its own file. -/
def Attempts (fs : FileSystem) (limit : Nat) (bytes : Bytes) (number : Nat) (path : String) :
    Prop :=
  ∃ before after depth line values,
    visits fs limit 0 0 (Line.lines bytes) = before ++ .line depth number line :: after ∧
    Faultless fs limit before ∧ Line.IsKey line "Include" (path :: values) ∧ depth < limit ∧
    (Visit.line depth number line).Located fs limit bytes

/-- Whenever an include is attempted whose target cannot be opened or cannot be read, reading fails
with the line, the path and the cause. -/
def Attributed (fs : FileSystem) (limit : Nat) (bytes : Bytes) : Prop :=
  ∀ number path cause, Attempts fs limit bytes number path → fs.refusal? path = some cause →
    parse fs bytes limit = .error (.includeFailed number path cause)

theorem Line.includeValues?_eq_some_iff {line : Bytes} {values : List String} :
    includeValues? line = some values ↔ IsKey line "Include" values := by
  rw [← @token_eq_key_iff line 0, includeValues?]
  constructor
  · intro h
    split at h
    · next name values' ht =>
      split at h
      · next hname => rw [ht, hname, Option.some.inj h]; rfl
      · cases h
    · cases h
  · intro h
    rw [h]
    exact if_pos rfl

/-- Reading fails where it comes to an offence with nothing wrong before, and nowhere else. -/
theorem parse_error_iff_offence {fs : FileSystem} {limit : Nat} {bytes : Bytes} {e : ConfigError} :
    parse fs bytes limit = .error e ↔
      ∃ before v after, visits fs limit 0 0 (Line.lines bytes) = before ++ v :: after ∧
        Faultless fs limit before ∧ Offence fs limit (openRepository? before) v e := by
  rw [parse_eq_follow, Except.map_eq_error_iff, Draft.follow_eq_error_iff]
  constructor
  · rintro ⟨before, v, after, d, hsplit, hbefore, hv⟩
    exact ⟨before, v, after, hsplit, Draft.exists_follow_iff.1 ⟨d, hbefore⟩,
      (Draft.act_eq_error_iff_of_follow hbefore).1 hv⟩
  · rintro ⟨before, v, after, hsplit, hclean, hoff⟩
    obtain ⟨d, hbefore⟩ := Draft.exists_follow_iff.2 hclean
    exact ⟨before, v, after, d, hsplit, hbefore,
      (Draft.act_eq_error_iff_of_follow hbefore).2 hoff⟩

theorem Faultless.of_append {fs : FileSystem} {limit : Nat} {vs ws : List Visit}
    (h : Faultless fs limit (vs ++ ws)) : Faultless fs limit vs :=
  fun before v after hvs => h before v (after ++ ws) (by simp [hvs])

/-- An include of a target that opens is no offence of the `Include` line. -/
theorem Faultless.append_include {fs : FileSystem} {limit depth number : Nat} {line : Bytes}
    {path : String} {values : List String} {source : Source} {vs : List Visit}
    (h : Faultless fs limit vs) (hkey : Line.IsKey line "Include" (path :: values))
    (hd : depth < limit) (hopens : fs.access path = .ok source) :
    Faultless fs limit (vs ++ [.line depth number line]) := by
  obtain ⟨d, hvs⟩ := Draft.exists_follow_iff.2 h
  have hact : (Visit.line depth number line).act fs limit d = .ok d := by
    rw [Visit.act_key hkey, if_pos rfl, checkInclude, if_neg (Nat.not_le.2 hd), hopens]
    rfl
  refine Draft.exists_follow_iff.1 ⟨d, ?_⟩
  rw [Draft.follow_append, hvs]
  dsimp only [Draft.follow]
  rw [hact]

/-- **A target that cannot be opened** is an error with its line, its path and the cause. -/
theorem parse_eq_includeFailed_iff {fs : FileSystem} {limit : Nat} {bytes : Bytes} {number : Nat}
    {path : String} {cause : FileError} :
    parse fs bytes limit = .error (.includeFailed number path cause) ↔
      Attempts fs limit bytes number path ∧ fs.access path = .error cause := by
  constructor
  · intro h
    obtain ⟨before, v, after, hsplit, hclean, hoff⟩ := parse_error_iff_offence.1 h
    have hlocated : v.Located fs limit bytes := located_of_mem_visits (by rw [hsplit]; simp)
    cases hoff with
    | includeFailed hkey hd hacc =>
      exact ⟨⟨before, after, _, _, _, hsplit, hclean, hkey, hd, hlocated⟩, hacc⟩
  · rintro ⟨⟨before, after, depth, line, values, hsplit, hclean, hkey, hd, -⟩, hacc⟩
    exact parse_error_iff_offence.2
      ⟨before, _, after, hsplit, hclean, .includeFailed hkey hd hacc⟩

/-- **A target that cannot be read** is an error with the cause alone, and nothing else is. -/
theorem parse_eq_io_iff {fs : FileSystem} {limit : Nat} {bytes : Bytes} {cause : FileError} :
    parse fs bytes limit = .error (.io cause) ↔
      ∃ number path, Attempts fs limit bytes number path ∧
        fs.access path = .ok (.unreadable cause) := by
  constructor
  · intro h
    obtain ⟨before, v, after, hsplit, hclean, hoff⟩ := parse_error_iff_offence.1 h
    cases hoff with
    | unreadable =>
      obtain ⟨front, depth, number, line, rfl, hd, htarget⟩ := include_before_unreadable hsplit
      obtain ⟨path, values, hvals, hopens⟩ := Line.target?_eq_some_iff.1 htarget
      have hkey : Line.IsKey line "Include" (path :: values) :=
        Line.includeValues?_eq_some_iff.1 hvals
      have hsplit' : visits fs limit 0 0 (Line.lines bytes) =
          front ++ .line depth number line :: .unreadable cause :: after := by
        simpa using hsplit
      have hlocated : (Visit.line depth number line).Located fs limit bytes :=
        located_of_mem_visits (by rw [hsplit']; simp)
      exact ⟨number, path,
        ⟨front, _, depth, line, values, hsplit', hclean.of_append, hkey, hd, hlocated⟩, hopens⟩
  · rintro ⟨number, path, ⟨before, after, depth, line, values, hsplit, hclean, hkey, hd, -⟩,
      hopens⟩
    obtain ⟨rest, rfl⟩ := included_behind hsplit
    have hvals : Line.includeValues? line = some (path :: values) :=
      Line.includeValues?_eq_some_iff.2 hkey
    rw [included_eq_visits hvals hd hopens] at hsplit
    have hsplit' : visits fs limit 0 0 (Line.lines bytes) =
        (before ++ [.line depth number line]) ++ .unreadable cause :: rest := by
      simpa [Source.visits] using hsplit
    exact parse_error_iff_offence.2
      ⟨_, _, rest, hsplit', hclean.append_include hkey hd hopens, .unreadable⟩

/-- **Which failed targets are attributed.** A target whose path leads nowhere is reported with the
number of its `Include` line in its own file, the path as written and the cause, at every depth. A
target that opens and cannot be read, such as a directory, is reported as a failure to read without
line and path, and that report has no other reason. So all failed targets are attributed exactly if
no such target is met. -/
theorem attributed_iff (fs : FileSystem) (limit : Nat) (bytes : Bytes) :
    (∀ number path cause, parse fs bytes limit = .error (.includeFailed number path cause) ↔
      Attempts fs limit bytes number path ∧ fs.access path = .error cause) ∧
    (∀ cause, parse fs bytes limit = .error (.io cause) ↔
      ∃ number path, Attempts fs limit bytes number path ∧
        fs.access path = .ok (.unreadable cause)) ∧
    (Attributed fs limit bytes ↔ ∀ cause, parse fs bytes limit ≠ .error (.io cause)) := by
  refine ⟨fun number path cause => parse_eq_includeFailed_iff, fun cause => parse_eq_io_iff, ?_⟩
  constructor
  · intro hattributed cause h
    obtain ⟨number, path, hattempt, hopens⟩ := parse_eq_io_iff.1 h
    have hfailed := hattributed number path cause hattempt (by rw [FileSystem.refusal?, hopens])
    rw [h] at hfailed
    cases hfailed
  · intro hnone number path cause hattempt hrefusal
    unfold FileSystem.refusal? at hrefusal
    split at hrefusal
    · cases hrefusal
    · next hopens =>
      obtain rfl := Option.some.inj hrefusal
      exact absurd (parse_eq_io_iff.2 ⟨number, path, hattempt, hopens⟩) (hnone _)
    · next hacc =>
      obtain rfl := Option.some.inj hrefusal
      exact parse_eq_includeFailed_iff.2 ⟨hattempt, hacc⟩

/-- A comment and an include of a file whose second line includes a directory. -/
def stageText : Bytes := Text.encode "#\nInclude = m\n".toList

def stageFiles : FileSystem :=
  .ofList [("m", .ok (.bytes (Text.encode "[c]\nInclude = d\n".toList))), ("d", .ok .directory)]

/-- The failed include of the directory loses its line and its path. -/
theorem not_attributed_stageText :
    parse stageFiles stageText 2 = .error (.io .isADirectory) ∧
    Attempts stageFiles 2 stageText 2 "d" ∧
    stageFiles.refusal? "d" = some .isADirectory ∧ ¬ Attributed stageFiles 2 stageText := by
  have hio : parse stageFiles stageText 2 = .error (.io .isADirectory) := by cbv
  have hrefusal : stageFiles.refusal? "d" = some .isADirectory := by cbv
  have hattempt : Attempts stageFiles 2 stageText 2 "d" := by
    have hsplit : visits stageFiles 2 0 0 (Line.lines stageText) =
        [.line 0 1 (Text.encode "#\n".toList), .line 0 2 (Text.encode "Include = m\n".toList),
          .line 1 1 (Text.encode "[c]\n".toList)] ++
        .line 1 2 (Text.encode "Include = d\n".toList) :: [.unreadable .isADirectory] := by cbv
    have hclean : Faultless stageFiles 2 [.line 0 1 (Text.encode "#\n".toList),
        .line 0 2 (Text.encode "Include = m\n".toList),
        .line 1 1 (Text.encode "[c]\n".toList)] := by
      refine Draft.exists_follow_iff.1 ⟨({} : Draft).header "c", ?_⟩
      cbv
    have hkey : Line.IsKey (Text.encode "Include = d\n".toList) "Include" ["d"] := by
      refine (@Line.token_eq_key_iff _ 0 _ _).1 ?_
      cbv
    exact ⟨_, _, 1, _, [], hsplit, hclean, hkey, by decide,
      located_of_mem_visits (by rw [hsplit]; simp)⟩
  refine ⟨hio, hattempt, hrefusal, fun h => ?_⟩
  have hfailed := h 2 "d" .isADirectory hattempt hrefusal
  rw [hio] at hfailed
  cases hfailed

end PackageConf
