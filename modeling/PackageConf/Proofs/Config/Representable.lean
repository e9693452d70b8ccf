import PackageConf.Proofs.Config.Assign
import PackageConf.Proofs.SigLevel.Scope
import PackageConf.Proofs.Text.Words
/-!
# What a file can hold

A value in a file is a word: it is not empty, has neither a space nor a line feed in it, and does
not begin or end with a blank. A `Representable` configuration is made of such words, its section
names can stand in brackets, its flags have names and its signature levels are canonical. The
empty configuration is one, and what well-formed lines give keeps it so (`of_takes`).
-/
namespace PackageConf

/-- A word on one line. -/
def IsValue (s : String) : Prop := Text.IsWord s.toList ∧ '\n' ∉ s.toList

theorem isValue_of_all {s : String} (hne : s.toList ≠ [])
    (h : (s.toList.all fun c => !Text.isBlank c) = true) : IsValue s := by
  have hblank : ∀ c ∈ s.toList, Text.isBlank c = false := by simpa using h
  refine ⟨⟨hne, fun hmem => ?_, fun c hc => ?_, fun c hc => ?_⟩, fun hmem => ?_⟩
  · exact absurd (hblank ' ' hmem) (by decide)
  · exact hblank c (List.mem_of_head? hc)
  · exact hblank c (List.mem_of_getLast? hc)
  · exact absurd (hblank '\n' hmem) (by decide)

/-- Nothing, or words with single spaces between them. -/
def IsJoined (s : String) : Prop :=
  ∃ values : List String, (∀ v ∈ values, IsValue v) ∧ s = " ".intercalate values

/-- A repository that a section can hold. -/
structure Repository.Representable (r : Repository) : Prop where
  closed : ']' ∉ r.name.toList
  one_line : '\n' ∉ r.name.toList
  not_options : r.name ≠ Draft.optionsName
  server : ∀ s ∈ r.servers, IsValue s
  level : r.sigLevel.Canonical

/-- A configuration that a file can hold. -/
structure Config.Representable (c : Config) : Prop where
  scalar : ∀ f, IsJoined (c.scalar f)
  list : ∀ f, ∀ v ∈ c.list f, IsValue v
  flag : ∀ i, c.options.bits.getLsbD i = true → ∃ f : Flag, f.index = i
  level : ∀ f, (c.level f).Canonical
  repo : ∀ r ∈ c.repos, r.Representable

/-- A token that a line can have: a header without brackets in its name, or a key with words. -/
def Token.WellFormed : Token → Prop
  | .comment => True
  | .header name => ']' ∉ name.toList ∧ '\n' ∉ name.toList
  | .key _ values => ∀ v ∈ values, IsValue v

theorem isValue_of_given {name : String} {ts : List Token} (h : ∀ t ∈ ts, t.WellFormed)
    {values : List String} (hv : values ∈ given name ts) : ∀ v ∈ values, IsValue v := by
  obtain ⟨t, ht, hvalues⟩ := List.mem_filterMap.1 hv
  have hwf := h t ht
  cases t with
  | comment => cases hvalues
  | header n => cases hvalues
  | key n vs =>
    simp only [Token.values?] at hvalues
    split at hvalues
    · obtain rfl := Option.some.inj hvalues
      exact hwf
    · cases hvalues

theorem SigLevel.canonical_useDefault : useDefault.Canonical := .inl rfl

theorem SigLevel.canonical_empty : empty.Canonical :=
  canonical_iff.2 (.inr ⟨{}, {}, by decide⟩)

namespace Config

theorem representable_default : default.Representable where
  scalar f := by
    have hroot : ∀ v ∈ ["/"], IsValue v :=
      List.forall_mem_singleton.2 (isValue_of_all (by decide) (by decide))
    have hdb : ∀ v ∈ ["/var/lib/pacman"], IsValue v :=
      List.forall_mem_singleton.2 (isValue_of_all (by decide) (by decide))
    cases f with
    | rootDir => exact ⟨["/"], hroot, rfl⟩
    | dbPath => exact ⟨["/var/lib/pacman"], hdb, rfl⟩
    | gpgDir => exact ⟨[], by simp, rfl⟩
    | logFile => exact ⟨[], by simp, rfl⟩
    | architecture => exact ⟨[], by simp, rfl⟩
    | xferCommand => exact ⟨[], by simp, rfl⟩
    | cleanMethod => exact ⟨[], by simp, rfl⟩
  list f v hv := by cases f <;> cases hv
  flag i hi := by
    have hzero : default.options.bits = 0 := rfl
    simp [hzero] at hi
  level f := by
    cases f with
    | sigLevel => exact SigLevel.canonical_empty
    | localFileSigLevel => exact SigLevel.canonical_useDefault
    | remoteFileSigLevel => exact SigLevel.canonical_useDefault
  repo r hr := by cases hr

/-- Well-formed lines keep a configuration representable. -/
theorem Representable.of_takes {c c' : Config} {ts : List Token} (h : c.Representable)
    (ht : c.Takes ts c') (hts : ∀ t ∈ ts, t.WellFormed) (hrepo : ∀ r ∈ c'.repos, r.Representable) :
    c'.Representable where
  scalar f := by
    cases hlast : (given f.name ts).getLast? with
    | none =>
      rw [ht.scalar_kept f (List.getLast?_eq_none_iff.1 hlast)]
      exact h.scalar f
    | some values =>
      exact ⟨values, isValue_of_given hts (List.mem_of_getLast? hlast),
        ht.scalar_last f values hlast⟩
  list f v hv := by
    rw [ht.list, List.mem_append, List.mem_flatten] at hv
    rcases hv with hv | ⟨values, hvalues, hv⟩
    · exact h.list f v hv
    · exact isValue_of_given hts hvalues v hv
  flag i hi := by
    rcases (ht.flag i).1 hi with hi | ⟨f, hf, -⟩
    · exact h.flag i hi
    · exact ⟨f, hf⟩
  level f := by
    cases hlast : (given f.name ts).getLast? with
    | none =>
      rw [ht.level_kept f (List.getLast?_eq_none_iff.1 hlast)]
      exact h.level f
    | some values => exact SigLevel.canonical_of_resolve (ht.level_last f values hlast)
  repo := hrepo

end Config

/-- Well-formed lines keep a repository representable. -/
theorem Repository.Representable.of_takes {r r' : Repository} {ts : List Token}
    (h : r.Representable) (ht : r.Takes ts r') (hts : ∀ t ∈ ts, t.WellFormed) :
    r'.Representable where
  closed := ht.name ▸ h.closed
  one_line := ht.name ▸ h.one_line
  not_options := ht.name ▸ h.not_options
  server s hs := by
    rw [ht.servers, List.mem_append, List.mem_flatten] at hs
    rcases hs with hs | ⟨values, hvalues, hs⟩
    · exact h.server s hs
    · exact isValue_of_given hts hvalues s hs
  level := by
    cases hlast : (given "SigLevel" ts).getLast? with
    | none =>
      rw [ht.level_kept (List.getLast?_eq_none_iff.1 hlast)]
      exact h.level
    | some values => exact SigLevel.canonical_of_resolve (ht.level_last values hlast)

end PackageConf
