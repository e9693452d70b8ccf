import Mathlib.Data.List.Induction
import PackageConf.Engine
/-!
# Runs of registrations

An engine is asked for one repository after the other, and those that it takes may be given servers
before the next one. What it then holds can be told from what it was asked for alone: `firsts` are
the registrations with a name that is not empty and that none before them has, and the engine
holds just what those ask for. Each step takes an engine that holds this to one that holds this
with the step (`perform_holding`), and whether the step is taken, and if not why, is the `verdict`
on it; so the same is said of whole runs (`run_holding`, `getElem?_answers_holding`).
-/
namespace PackageConf

/-- What an engine is asked for in one step: to register a repository, and perhaps to give servers
to it once it is registered. -/
structure Registration where
  name : String
  level : SigLevel
  servers : Option (List String) := none
deriving DecidableEq, Repr

namespace Registration

def source (r : Registration) : Repository :=
  { name := r.name, sigLevel := r.level, servers := r.servers.getD [] }

/-- There is a name, and none of those before has the same. -/
def IsNew (before : List Registration) (r : Registration) : Prop :=
  r.name ≠ "" ∧ ∀ q ∈ before, q.name ≠ r.name

instance (before : List Registration) (r : Registration) : Decidable (IsNew before r) :=
  inferInstanceAs (Decidable (_ ∧ _))

/-- The registrations that are new in their place. -/
def firsts (rs : List Registration) : List Registration :=
  (rs.zipIdx.filter fun p => IsNew (rs.take p.2) p.1).map (·.1)

/-- What a registration deserves behind others. -/
def verdict (before : List Registration) (r : Registration) : Except EngineError Unit :=
  if r.name = "" then .error .emptyName
  else if ∃ q ∈ before, q.name = r.name then .error (.duplicate r.name)
  else .ok ()

section
variable {before : List Registration} {r : Registration}

theorem verdict_eq_emptyName_iff : verdict before r = .error .emptyName ↔ r.name = "" := by
  unfold verdict
  split
  · next h => simp [h]
  · next h => split <;> simp [h]

theorem verdict_eq_duplicate_iff {name : String} :
    verdict before r = .error (.duplicate name) ↔
      name = r.name ∧ name ≠ "" ∧ ∃ q ∈ before, q.name = name := by
  unfold verdict
  split
  · next h => simp +contextual [h]
  · next h =>
    split
    · next hq =>
      simp only [Except.error.injEq, EngineError.duplicate.injEq]
      constructor
      · rintro rfl
        exact ⟨rfl, h, hq⟩
      · rintro ⟨rfl, -, -⟩
        rfl
    · next hq =>
      refine iff_of_false nofun ?_
      rintro ⟨rfl, -, hex⟩
      exact hq hex

theorem verdict_eq_ok_iff : verdict before r = .ok () ↔ IsNew before r := by
  unfold verdict IsNew
  split
  · next h => simp [h]
  · next h => split <;> simp_all

end

/-! ## The first registrations of the names -/

@[simp] theorem firsts_nil : firsts [] = [] := rfl

theorem firsts_concat (rs : List Registration) (r : Registration) :
    firsts (rs ++ [r]) = firsts rs ++ if IsNew rs r then [r] else [] := by
  have hbefore : ∀ p ∈ rs.zipIdx, (rs ++ [r]).take p.2 = rs.take p.2 := by
    intro p hp
    exact List.take_append_of_le_length (Nat.le_of_lt (List.snd_lt_of_mem_zipIdx hp))
  have hlast : (rs ++ [r]).take rs.length = rs := by simp
  have hold : rs.zipIdx.filter (fun p => decide (IsNew ((rs ++ [r]).take p.2) p.1)) =
      rs.zipIdx.filter fun p => decide (IsNew (rs.take p.2) p.1) :=
    List.filter_congr fun p hp => by rw [hbefore p hp]
  rw [firsts, List.zipIdx_append, List.filter_append, hold, List.map_append, firsts]
  congr 1
  by_cases hnew : IsNew rs r
  · simp [hlast, hnew]
  · simp [hlast, hnew]

theorem firsts_take_succ {rs : List Registration} {i : Nat} {r : Registration}
    (h : rs[i]? = some r) :
    firsts (rs.take (i + 1)) = firsts (rs.take i) ++ if IsNew (rs.take i) r then [r] else [] := by
  rw [List.take_add_one, h, Option.toList_some, firsts_concat]

/-- Every name that is asked for has a first registration, unless it is empty. -/
theorem mem_names_firsts {rs : List Registration} {name : String} :
    name ∈ (firsts rs).map (·.name) ↔ name ≠ "" ∧ ∃ q ∈ rs, q.name = name := by
  induction rs using List.reverseRecOn with
  | nil => simp
  | append_singleton rs r ih =>
    rw [firsts_concat, List.map_append, List.mem_append, ih]
    by_cases hnew : IsNew rs r
    · have := hnew.1
      grind
    · -- the name of the last one is empty, or was there before
      have hold : r.name ≠ "" → ∃ q ∈ rs, q.name = r.name := by
        intro hne
        by_contra hnone
        exact hnew ⟨hne, fun q hq heq => hnone ⟨q, hq, heq⟩⟩
      grind

theorem nodup_names_firsts (rs : List Registration) : ((firsts rs).map (·.name)).Nodup := by
  induction rs using List.reverseRecOn with
  | nil => exact List.nodup_nil
  | append_singleton rs r ih =>
    rw [firsts_concat]
    split
    · next hnew =>
      rw [List.map_append, List.nodup_append]
      refine ⟨ih, by simp, ?_⟩
      intro name hname name' hname' heq
      obtain rfl : name' = r.name := by simpa using hname'
      obtain ⟨-, q, hq, hqname⟩ := mem_names_firsts.1 hname
      exact hnew.2 q hq (hqname.trans heq)
    · simpa using ih

theorem firsts_take_isPrefix (rs : List Registration) (i : Nat) :
    firsts (rs.take i) <+: firsts rs := by
  induction rs using List.reverseRecOn with
  | nil => simp
  | append_singleton rs r ih =>
    by_cases hi : i ≤ rs.length
    · rw [List.take_append_of_le_length hi, firsts_concat]
      exact ih.trans (List.prefix_append _ _)
    · have hall : (rs ++ [r]).take i = rs ++ [r] := List.take_of_length_le (by simp; omega)
      exact ⟨[], by rw [hall, List.append_nil]⟩

end Registration

namespace Engine
open Registration

/-! ## What an engine does -/

def perform (e : Engine) (r : Registration) : Except EngineError Unit × Engine :=
  match e.register r.name r.level with
  | (.ok (), e) => (.ok (), r.servers.elim e e.setServers)
  | (.error refusal, e) => (.error refusal, e)

def run (e : Engine) (rs : List Registration) : Engine := rs.foldl (fun e r => (e.perform r).2) e

def answers (e : Engine) : List Registration → List (Except EngineError Unit)
  | [] => []
  | r :: rs => (e.perform r).1 :: (e.perform r).2.answers rs

section
variable {e : Engine} {r : Registration}

theorem perform_of_empty (h : r.name = "") : e.perform r = (.error .emptyName, e) := by
  simp [perform, register, h]

theorem perform_of_has (hne : r.name ≠ "") (h : e.has r.name = true) :
    e.perform r = (.error (.duplicate r.name), e) := by
  simp [perform, register, hne, h]

/-- The servers go to the repository that was just registered. -/
theorem perform_of_new (hne : r.name ≠ "") (h : e.has r.name = false) :
    e.perform r = (.ok (), { e with sources := e.sources ++ [r.source] }) := by
  rw [perform, register_of_new hne h]
  cases hs : r.servers with
  | none => simp [Registration.source, hs]
  | some servers => simp [Registration.source, hs]

end

theorem run_concat (e : Engine) (rs : List Registration) (r : Registration) :
    e.run (rs ++ [r]) = ((e.run rs).perform r).2 := by
  simp [run]

theorem length_answers (e : Engine) (rs : List Registration) :
    (e.answers rs).length = rs.length := by
  induction rs generalizing e with
  | nil => rfl
  | cons r rs ih => simp [answers, ih]

theorem getElem?_answers (e : Engine) (rs : List Registration) (i : Nat) :
    (e.answers rs)[i]? = rs[i]?.map fun r => ((e.run (rs.take i)).perform r).1 := by
  induction rs generalizing e i with
  | nil => rfl
  | cons r rs ih =>
    cases i with
    | zero => rfl
    | succ i => exact ih (e.perform r).2 i

/-! ## What an engine holds -/

/-- An engine that holds the first registrations of the names. -/
def holding (root dbPath : String) (rs : List Registration) : Engine :=
  { root, dbPath, sources := (firsts rs).map source }

section
variable (root dbPath : String) (rs : List Registration)

theorem has_holding {name : String} (h : name ≠ "") :
    (holding root dbPath rs).has name = true ↔ ∃ q ∈ rs, q.name = name := by
  have hnames : (holding root dbPath rs).has name = true ↔ name ∈ (firsts rs).map (·.name) := by
    simp [has, holding, source]
  rw [hnames, mem_names_firsts]
  exact and_iff_right h

/-- The engine takes what is new and refuses the rest, and holds the new one with the others. -/
theorem perform_holding (r : Registration) :
    (holding root dbPath rs).perform r = (verdict rs r, holding root dbPath (rs ++ [r])) := by
  by_cases hempty : r.name = ""
  · have hold : ¬ IsNew rs r := fun hnew => hnew.1 hempty
    rw [perform_of_empty hempty, verdict, if_pos hempty, holding, holding, firsts_concat,
      if_neg hold, List.append_nil]
  by_cases hdup : ∃ q ∈ rs, q.name = r.name
  · have hold : ¬ IsNew rs r := fun hnew => by
      obtain ⟨q, hq, heq⟩ := hdup
      exact hnew.2 q hq heq
    rw [perform_of_has hempty ((has_holding root dbPath rs hempty).2 hdup), verdict, if_neg hempty,
      if_pos hdup, holding, holding, firsts_concat, if_neg hold, List.append_nil]
  · have hnew : IsNew rs r := ⟨hempty, fun q hq heq => hdup ⟨q, hq, heq⟩⟩
    have hhas : (holding root dbPath rs).has r.name = false :=
      Bool.eq_false_iff.2 (mt (has_holding root dbPath rs hempty).1 hdup)
    rw [perform_of_new hempty hhas, verdict_eq_ok_iff.2 hnew, holding, holding, firsts_concat,
      if_pos hnew, List.map_append]
    rfl

theorem run_holding : (holding root dbPath []).run rs = holding root dbPath rs := by
  induction rs using List.reverseRecOn with
  | nil => rfl
  | append_singleton rs r ih => rw [run_concat, ih, perform_holding]

theorem getElem?_answers_holding (i : Nat) :
    ((holding root dbPath []).answers rs)[i]? = rs[i]?.map (verdict (rs.take i)) := by
  simp only [getElem?_answers, run_holding, perform_holding]

end

theorem eq_holding_of_start {root dbPath : String} {e : Engine} (h : start root dbPath = .ok e) :
    e = holding root dbPath [] := by
  unfold start at h
  split at h
  · cases h
  · exact (Except.ok.inj h).symm

/-- **What an engine holds** after any registrations are the first ones of the names that are not
empty, in order: each with its level and the servers given to it then, whatever came later. A
registration is refused exactly if it has no name or one that was asked for before, and then the
engine is left as it was; any other is held behind those that were there. -/
theorem registrations_of_start {root dbPath : String} {e : Engine}
    (h : start root dbPath = .ok e) (rs : List Registration) :
    e.run rs = { root, dbPath, sources := (firsts rs).map source } ∧
    (∀ s ∈ (e.run rs).sources, s.name ≠ "") ∧ ((e.run rs).sources.map (·.name)).Nodup ∧
    (∀ i, (e.run (rs.take i)).sources <+: (e.run rs).sources) ∧
    (e.answers rs).length = rs.length ∧
    (∀ i r, rs[i]? = some r →
      ((e.answers rs)[i]? = some (.error .emptyName) ↔ r.name = "") ∧
      (∀ name, (e.answers rs)[i]? = some (.error (.duplicate name)) ↔
        name = r.name ∧ name ≠ "" ∧ ∃ q ∈ rs.take i, q.name = name) ∧
      ((e.answers rs)[i]? = some (.ok ()) ↔ IsNew (rs.take i) r) ∧
      ((e.answers rs)[i]? = some (.ok ()) →
        (e.run (rs.take (i + 1))).sources = (e.run (rs.take i)).sources ++ [r.source])) ∧
    ∀ i refusal, (e.answers rs)[i]? = some (.error refusal) →
      e.run (rs.take (i + 1)) = e.run (rs.take i) := by
  obtain rfl := eq_holding_of_start h
  simp only [getElem?_answers_holding, run_holding]
  have hsources (rs : List Registration) :
      (holding root dbPath rs).sources = (firsts rs).map source := rfl
  have hnames : ((firsts rs).map source).map (·.name) = (firsts rs).map (·.name) :=
    List.map_map
  refine ⟨rfl, ?_, ?_, ?_, length_answers _ rs, ?_, ?_⟩
  · intro s hs
    have hmem : s.name ∈ ((firsts rs).map source).map (·.name) := List.mem_map_of_mem hs
    rw [hnames] at hmem
    exact (mem_names_firsts.1 hmem).1
  · rw [hsources, hnames]
    exact nodup_names_firsts rs
  · exact fun i => (firsts_take_isPrefix rs i).map source
  · intro i r hr
    simp only [hr, Option.map_some, Option.some.injEq]
    refine ⟨verdict_eq_emptyName_iff, fun _ => verdict_eq_duplicate_iff, verdict_eq_ok_iff, ?_⟩
    intro hok
    rw [hsources, hsources, firsts_take_succ hr, if_pos (verdict_eq_ok_iff.1 hok), List.map_append]
    rfl
  · intro i refusal hrefused
    obtain ⟨r, hr, hverdict⟩ := Option.map_eq_some_iff.1 hrefused
    have hold : ¬ IsNew (rs.take i) r := by
      rw [← verdict_eq_ok_iff, hverdict]
      nofun
    rw [holding, holding, firsts_take_succ hr, if_neg hold, List.append_nil]

/-- A name that is asked for twice, a name that is empty, and another one. -/
def namesTwice : List Registration :=
  [⟨"core", .useDefault, some ["a"]⟩, ⟨"", .empty, some ["b"]⟩, ⟨"core", .empty, some ["c"]⟩,
    ⟨"extra", .empty, none⟩]

/-- The servers of the registrations that are refused go nowhere. -/
theorem registrations_of_start_namesTwice :
    let e : Engine := { root := "/", dbPath := "/db" }
    start "/" "/db" = .ok e ∧
    e.run namesTwice = { e with sources := [⟨"core", .useDefault, ["a"]⟩, ⟨"extra", .empty, []⟩] } ∧
    namesTwice[2]? = some ⟨"core", .empty, some ["c"]⟩ ∧
    (e.answers namesTwice)[2]? = some (.error (.duplicate "core")) ∧
    e.run (namesTwice.take 3) = e.run (namesTwice.take 2) := by
  intro e
  have hstart : start "/" "/db" = .ok e := rfl
  obtain ⟨hrun, -, -, -, -, hanswers, hrefused⟩ := registrations_of_start hstart namesTwice
  have hthird : namesTwice[2]? = some ⟨"core", .empty, some ["c"]⟩ := rfl
  have hdup := ((hanswers 2 _ hthird).2.1 "core").2 ⟨rfl, by decide, by decide⟩
  exact ⟨hstart, hrun.trans (by decide), hthird, hdup, hrefused 2 _ hdup⟩

end Engine
end PackageConf
