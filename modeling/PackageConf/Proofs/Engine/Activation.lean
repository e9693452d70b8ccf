import Mathlib
import PackageConf.Finalize
import PackageConf.Proofs.Engine.Registration
import PackageConf.Proofs.Server.Template
/-!
# Putting a configuration to use

An engine is asked for the repositories of a configuration in order, and takes those that are new in
their place: they have a name, and none before them has the same. So enrolling is a run of
registrations, each with the servers expanded, and what the engine then holds is known from the run
(`enroll_holding`); of the repositories those are expanded that the engine took. Whatever can fail
fails before the first registration, and nothing has been changed by then (`activate_outcome`).
-/
namespace PackageConf

namespace Repository

/-- There is a name, and none of those before has the same. -/
def IsNew (before : List Repository) (r : Repository) : Prop :=
  r.name ≠ "" ∧ ∀ q ∈ before, q.name ≠ r.name

instance (before : List Repository) (r : Repository) : Decidable (IsNew before r) :=
  inferInstanceAs (Decidable (_ ∧ _))

/-- The repositories that are new in their place. -/
def registered (rs : List Repository) : List Repository :=
  (rs.zipIdx.filter fun p => IsNew (rs.take p.2) p.1).map (·.1)

def expand (arch : String) (r : Repository) : Repository :=
  { r with servers := r.servers.map fun url => expandServer url r.name arch }

/-- The repositories, those expanded that are new in their place. -/
def enrolled (arch : String) (rs : List Repository) : List Repository :=
  rs.mapIdx fun i r => if IsNew (rs.take i) r then r.expand arch else r

def registration (r : Repository) : Registration := ⟨r.name, r.sigLevel, some r.servers⟩

@[simp] theorem expand_name (arch : String) (r : Repository) : (r.expand arch).name = r.name := rfl

/-! ## New in their place -/

theorem isNew_congr {before before' : List Repository} {r r' : Repository}
    (hbefore : before.map (·.name) = before'.map (·.name)) (hname : r.name = r'.name) :
    IsNew before r ↔ IsNew before' r' := by
  have hmem (rs : List Repository) (name : String) :
      (∀ q ∈ rs, q.name ≠ name) ↔ name ∉ rs.map (·.name) := by
    simp
  rw [IsNew, IsNew, hmem, hmem, hbefore, hname]

theorem isNew_registration (before : List Repository) (r : Repository) :
    Registration.IsNew (before.map registration) r.registration ↔ IsNew before r := by
  simp [Registration.IsNew, IsNew, registration]

theorem firsts_map_registration (rs : List Repository) :
    Registration.firsts (rs.map registration) = (registered rs).map registration := by
  rw [Registration.firsts, List.zipIdx_map, List.filter_map, registered, List.map_map, List.map_map]
  congr 1
  apply List.filter_congr
  intro p _
  simp [← List.map_take, isNew_registration]

theorem map_name_mapIdx {f : Nat → Repository → Repository} (hf : ∀ i r, (f i r).name = r.name)
    (rs : List Repository) : (rs.mapIdx f).map (·.name) = rs.map (·.name) := by
  apply List.ext_getElem?
  intro i
  cases h : rs[i]? <;> simp [h, hf]

/-- Which repositories are new is not changed by what leaves the names alone. -/
theorem registered_mapIdx {f : Nat → Repository → Repository} (hf : ∀ i r, (f i r).name = r.name)
    (rs : List Repository) :
    registered (rs.mapIdx f) =
      (rs.zipIdx.filter fun p => IsNew (rs.take p.2) p.1).map fun p => f p.2 p.1 := by
  have hzip : (rs.mapIdx f).zipIdx = rs.zipIdx.map fun p => (f p.2 p.1, p.2) := by
    apply List.ext_getElem?
    intro i
    cases h : rs[i]? <;> simp [h]
  rw [registered, hzip, List.filter_map, List.map_map]
  congr 1
  apply List.filter_congr
  intro p _
  have htake : ((rs.mapIdx f).take p.2).map (·.name) = (rs.take p.2).map (·.name) := by
    rw [List.map_take, List.map_take, map_name_mapIdx hf]
  simp only [Function.comp_apply, decide_eq_decide]
  exact isNew_congr htake (hf p.2 p.1)

theorem registered_map_expand (arch : String) (rs : List Repository) :
    registered (rs.map (expand arch)) = (registered rs).map (expand arch) := by
  have hidx : rs.map (expand arch) = rs.mapIdx fun _ r => r.expand arch := by
    apply List.ext_getElem?
    intro i
    cases h : rs[i]? <;> simp [h]
  rw [hidx, registered_mapIdx (f := fun _ r => r.expand arch) (fun _ _ => rfl), registered,
    List.map_map]
  rfl

end Repository

namespace Engine
open Repository Registration

/-! ## Enrolling is a run of registrations -/

/-- What an engine is asked for, one repository after the other. -/
def asked (arch : String) (rs : List Repository) : List Registration :=
  (rs.map (expand arch)).map registration

theorem asked_concat (arch : String) (rs : List Repository) (r : Repository) :
    asked arch (rs ++ [r]) = asked arch rs ++ [(r.expand arch).registration] := by
  simp [asked]

theorem isNew_asked (arch : String) (before : List Repository) (r : Repository) :
    Registration.IsNew (asked arch before) (r.expand arch).registration ↔ IsNew before r := by
  rw [asked, isNew_registration]
  apply isNew_congr
  · simp
  · rfl

theorem sources_holding_asked (root dbPath arch : String) (rs : List Repository) :
    (holding root dbPath (asked arch rs)).sources = (registered rs).map (expand arch) := by
  rw [holding, asked, firsts_map_registration, registered_map_expand, List.map_map, List.map_map]
  rfl

/-- A repository that the engine takes is expanded, and the engine goes on with it. -/
theorem enroll_of_taken {e e' : Engine} {arch : String} {r : Repository}
    (h : e.perform (r.expand arch).registration = (.ok (), e')) (rs : List Repository) :
    e.enroll arch (r :: rs) = ((e'.enroll arch rs).1, r.expand arch :: (e'.enroll arch rs).2) := by
  rw [enroll]
  rcases hreg : e.register r.name r.sigLevel with ⟨refusal | taken, after⟩
  · simp [perform, registration, expand, hreg] at h
  · simp only [perform, registration, expand, hreg, Option.elim_some, Prod.mk.injEq] at h
    obtain ⟨-, rfl⟩ := h
    rfl

theorem enroll_of_refused {e e' : Engine} {arch : String} {r : Repository} {refusal : EngineError}
    (h : e.perform (r.expand arch).registration = (.error refusal, e')) (rs : List Repository) :
    e.enroll arch (r :: rs) = ((e'.enroll arch rs).1, r :: (e'.enroll arch rs).2) := by
  rw [enroll]
  rcases hreg : e.register r.name r.sigLevel with ⟨refusal' | taken, after⟩
  · simp only [perform, registration, expand, hreg, Prod.mk.injEq] at h
    obtain ⟨-, rfl⟩ := h
    rfl
  · simp [perform, registration, expand, hreg] at h

/-- **Enrolling is a run of registrations.** The engine holds what it was asked for before and what
it is asked for now, and the repositories are expanded that it takes now. -/
theorem enroll_holding (root dbPath arch : String) (before rs : List Repository) :
    (holding root dbPath (asked arch before)).enroll arch rs =
      (holding root dbPath (asked arch (before ++ rs)),
        rs.mapIdx fun i r => if IsNew (before ++ rs.take i) r then r.expand arch else r) := by
  induction rs generalizing before with
  | nil => simp [enroll]
  | cons r rs ih =>
    have hstep := perform_holding root dbPath (asked arch before) (r.expand arch).registration
    rw [← asked_concat] at hstep
    have hplace (i : Nat) (q : Repository) :
        (if IsNew (before ++ [r] ++ rs.take i) q then q.expand arch else q) =
          if IsNew (before ++ (r :: rs).take (i + 1)) q then q.expand arch else q := by
      rw [List.append_assoc]
      rfl
    have hrest := ih (before ++ [r])
    simp only [hplace] at hrest
    rw [List.append_assoc, List.singleton_append] at hrest
    rw [List.mapIdx_cons, List.take_zero, List.append_nil]
    by_cases hnew : IsNew before r
    · have hverdict : verdict (asked arch before) (r.expand arch).registration = .ok () :=
        verdict_eq_ok_iff.2 ((isNew_asked arch before r).2 hnew)
      rw [hverdict] at hstep
      rw [enroll_of_taken hstep, hrest, if_pos hnew]
    · have hold : verdict (asked arch before) (r.expand arch).registration ≠ .ok () := by
        rw [Ne, verdict_eq_ok_iff, isNew_asked]
        exact hnew
      cases hverdict : verdict (asked arch before) (r.expand arch).registration with
      | ok taken => exact absurd hverdict hold
      | error refusal =>
        rw [hverdict] at hstep
        rw [enroll_of_refused hstep, hrest, if_neg hnew]

/-- What comes of enrolling the repositories of a configuration. -/
theorem enroll_eq {root dbPath : String} {e : Engine} (h : start root dbPath = .ok e)
    (arch : String) (rs : List Repository) :
    e.enroll arch rs =
      ({ root, dbPath, sources := (registered rs).map (expand arch) }, enrolled arch rs) := by
  have hall := enroll_holding root dbPath arch [] rs
  rw [List.nil_append] at hall
  rw [eq_holding_of_start h, ← sources_holding_asked root dbPath]
  exact hall

end Engine

namespace Config
open Repository

/-! ## The outcome -/

/-- The architecture with which a configuration is put to use: its own, or that of the host. -/
def effectiveArchitecture (c : Config) (host : Except FileError String) :
    Except FileError String :=
  if c.architecture = autoArchitecture then host else .ok c.architecture

section
variable {c : Config} {host : Except FileError String}

theorem resolveArchitecture_of_error {cause : FileError}
    (h : c.effectiveArchitecture host = .error cause) :
    c.resolveArchitecture host = (.error (.architecture cause), c) := by
  unfold effectiveArchitecture at h
  unfold resolveArchitecture
  split at h
  · next hauto =>
    rw [if_pos hauto]
    simp [h]
  · cases h

theorem resolveArchitecture_of_ok {arch : String} (h : c.effectiveArchitecture host = .ok arch) :
    c.resolveArchitecture host = (.ok (), { c with architecture := arch }) := by
  unfold effectiveArchitecture at h
  unfold resolveArchitecture
  split at h
  · next hauto =>
    rw [if_pos hauto]
    simp [h]
  · next hown =>
    obtain rfl := Except.ok.inj h
    rw [if_neg hown]

theorem activate_of_emptyRoot (hroot : c.rootDir = "") (host : Except FileError String) :
    c.activate host = (.error (.engine .emptyRoot), c) := by
  simp [activate, Engine.start, hroot]

theorem start_of_ne (hroot : c.rootDir ≠ "") :
    Engine.start c.rootDir c.dbPath = .ok { root := c.rootDir, dbPath := c.dbPath } :=
  if_neg hroot

theorem activate_of_error (hroot : c.rootDir ≠ "") {cause : FileError}
    (h : c.effectiveArchitecture host = .error cause) :
    c.activate host = (.error (.architecture cause), c) := by
  rw [activate, start_of_ne hroot, resolveArchitecture_of_error h]

theorem activate_of_ok (hroot : c.rootDir ≠ "") {arch : String}
    (h : c.effectiveArchitecture host = .ok arch) :
    c.activate host =
      (.ok { root := c.rootDir, dbPath := c.dbPath,
             sources := (registered c.repos).map (expand arch) },
        { c with architecture := arch, repos := enrolled arch c.repos }) := by
  rw [activate, start_of_ne hroot, resolveArchitecture_of_ok h]
  simp only [Engine.enroll_eq (start_of_ne hroot)]

end

/-- **All or nothing.** Without a root directory no engine starts, whatever the host; with one, the
architecture `auto` has to be known. In both cases the configuration is as it was. Otherwise there
is an engine with the directories of the configuration, and it holds the repositories that are new
in their place, in order, with their levels and their servers expanded. The configuration has the
same servers in the same repositories, and the architecture they were expanded with, and is as it
was in all else. A host is asked for nothing if the architecture is not `auto`. -/
theorem activate_outcome (c : Config) (host : Except FileError String) :
    (c.rootDir = "" → c.activate host = (.error (.engine .emptyRoot), c)) ∧
    (c.rootDir ≠ "" → ∀ cause, c.effectiveArchitecture host = .error cause →
      c.activate host = (.error (.architecture cause), c)) ∧
    (c.rootDir ≠ "" → ∀ arch, c.effectiveArchitecture host = .ok arch →
      c.activate host =
        (.ok { root := c.rootDir, dbPath := c.dbPath,
               sources := (registered c.repos).map (expand arch) },
          { c with architecture := arch, repos := enrolled arch c.repos })) ∧
    (c.architecture ≠ autoArchitecture → ∀ host', c.activate host' = c.activate host) := by
  refine ⟨fun hroot => activate_of_emptyRoot hroot host, fun hroot _ h => activate_of_error hroot h,
    fun hroot _ h => activate_of_ok hroot h, ?_⟩
  intro hown host'
  have heffective (host : Except FileError String) :
      c.effectiveArchitecture host = .ok c.architecture := if_neg hown
  by_cases hroot : c.rootDir = ""
  · rw [activate_of_emptyRoot hroot, activate_of_emptyRoot hroot]
  · rw [activate_of_ok hroot (heffective host'), activate_of_ok hroot (heffective host)]

/-- Two repositories of one name, one without a name and another one. -/
def coreTwice : Config :=
  { architecture := "auto"
    repos := [⟨"core", .useDefault, ["a/$repo/$arch"]⟩, ⟨"", .empty, ["b/$arch"]⟩,
      ⟨"core", .empty, ["c/$repo"]⟩, ⟨"extra", .empty, []⟩] }

/-- What is refused keeps its servers; and where no engine starts it does not matter that the
architecture is not known either. -/
theorem activate_outcome_coreTwice :
    let e : Engine := { root := "/", dbPath := "/var/lib/pacman" }
    coreTwice.activate (.ok "x86") =
      (.ok { e with sources := [⟨"core", .useDefault, ["a/core/x86"]⟩, ⟨"extra", .empty, []⟩] },
        { coreTwice with
          architecture := "x86"
          repos := [⟨"core", .useDefault, ["a/core/x86"]⟩, ⟨"", .empty, ["b/$arch"]⟩,
            ⟨"core", .empty, ["c/$repo"]⟩, ⟨"extra", .empty, []⟩] }) ∧
    coreTwice.activate (.error (.other "no answer")) =
      (.error (.architecture (.other "no answer")), coreTwice) ∧
    { coreTwice with rootDir := "" }.activate (.error (.other "no answer")) =
      (.error (.engine .emptyRoot), { coreTwice with rootDir := "" }) ∧
    { coreTwice with architecture := "any" }.activate (.error (.other "no answer")) =
      { coreTwice with architecture := "any" }.activate (.ok "x86") := by
  intro e
  obtain ⟨-, -, hstarts, -⟩ := activate_outcome coreTwice (.ok "x86")
  obtain ⟨-, hfails, -, -⟩ := activate_outcome coreTwice (.error (.other "no answer"))
  obtain ⟨hempty, -, -, -⟩ :=
    activate_outcome { coreTwice with rootDir := "" } (.error (.other "no answer"))
  obtain ⟨-, -, -, hown⟩ := activate_outcome { coreTwice with architecture := "any" } (.ok "x86")
  have hroot : coreTwice.rootDir ≠ "" := by decide
  refine ⟨(hstarts hroot "x86" rfl).trans ?_, hfails hroot _ rfl, hempty rfl, hown (by decide) _⟩
  cbv

end Config

namespace Repository

/-! ## Once more -/

section
variable (arch : String) (rs : List Repository)

theorem enrolled_name (i : Nat) (r : Repository) :
    (if IsNew (rs.take i) r then r.expand arch else r).name = r.name := by
  split <;> rfl

/-- What is new in its place is so among the repositories as they then are. -/
theorem isNew_take_enrolled (i : Nat) {q r : Repository}
    (hname : q.name = r.name) : IsNew ((enrolled arch rs).take i) q ↔ IsNew (rs.take i) r := by
  apply isNew_congr _ hname
  rw [List.map_take, List.map_take, enrolled, map_name_mapIdx (enrolled_name arch rs)]

theorem registered_enrolled :
    registered (enrolled arch rs) = (registered rs).map (expand arch) := by
  rw [enrolled, registered_mapIdx (enrolled_name arch rs), registered, List.map_map]
  apply List.map_congr_left
  intro p hp
  have hnew : IsNew (rs.take p.2) p.1 := of_decide_eq_true (List.mem_filter.1 hp).2
  exact if_pos hnew

end

section
variable {arch : String} {rs : List Repository}

theorem mem_of_mem_registered {r : Repository} (h : r ∈ registered rs) : r ∈ rs := by
  obtain ⟨p, hp, rfl⟩ := List.mem_map.1 h
  exact List.fst_mem_of_mem_zipIdx (List.mem_of_mem_filter hp)

/-- Repositories that have been expanded are not expanded again. -/
theorem enrolled_enrolled
    (h : ∀ r ∈ rs, (r.expand arch).expand arch = r.expand arch) :
    enrolled arch (enrolled arch rs) = enrolled arch rs := by
  apply List.ext_getElem?
  intro i
  rw [enrolled, List.getElem?_mapIdx, enrolled, List.getElem?_mapIdx, Option.map_map]
  apply Option.map_congr
  intro r hr
  by_cases hnew : IsNew (rs.take i) r
  · have hagain := (isNew_take_enrolled arch rs i (r.expand_name arch)).2 hnew
    simp only [Function.comp_apply, if_pos hnew]
    rw [← enrolled, if_pos hagain]
    exact h r (List.mem_of_getElem? hr)
  · have hagain := mt (isNew_take_enrolled arch rs i (rfl : r.name = r.name)).1 hnew
    simp only [Function.comp_apply, if_neg hnew]
    rw [← enrolled, if_neg hagain]

/-- A repository whose servers are templates has none left when it has been expanded. -/
theorem expand_expand {r : Repository} (hname : '$' ∉ r.name.toList)
    (hservers : ∀ url ∈ r.servers, IsTemplate url) (harch : '$' ∉ arch.toList) :
    (r.expand arch).expand arch = r.expand arch := by
  simp only [expand, List.map_map, Repository.mk.injEq, true_and]
  apply List.map_congr_left
  intro url hurl
  exact expandServer_expandServer (hservers url hurl) hname harch r.name arch

end

end Repository

namespace Config
open Repository

/-- The architecture of the host is asked for again only if it was `auto` itself. -/
theorem effectiveArchitecture_again {c : Config} {host : Except FileError String} {arch : String}
    (h : c.effectiveArchitecture host = .ok arch) (rs : List Repository) :
    { c with architecture := arch, repos := rs }.effectiveArchitecture host = .ok arch := by
  unfold effectiveArchitecture at h ⊢
  by_cases hauto : c.architecture = autoArchitecture
  · rw [if_pos hauto] at h
    rw [h]
    split <;> rfl
  · rw [if_neg hauto] at h
    obtain rfl := Except.ok.inj h
    exact if_neg hauto

/-- **Putting a configuration to use once more changes nothing.** If no name of a repository and not
the architecture has a dollar sign in it, and all servers are templates, then the configuration that
an engine has been made of makes the same engine again, and stays as it then is; also if some
repositories were refused, and if the architecture came out as `auto`. -/
theorem activate_again {c c' : Config} {host : Except FileError String} {e : Engine}
    (hnames : ∀ r ∈ c.repos, '$' ∉ r.name.toList)
    (hservers : ∀ r ∈ c.repos, ∀ url ∈ r.servers, IsTemplate url)
    (harch : ∀ arch, c.effectiveArchitecture host = .ok arch → '$' ∉ arch.toList)
    (h : c.activate host = (.ok e, c')) : c'.activate host = (.ok e, c') := by
  have hroot : c.rootDir ≠ "" := by
    intro hempty
    rw [activate_of_emptyRoot hempty] at h
    cases h
  cases heffective : c.effectiveArchitecture host with
  | error cause =>
    rw [activate_of_error hroot heffective] at h
    cases h
  | ok arch =>
    have hexpand : ∀ r ∈ c.repos, (r.expand arch).expand arch = r.expand arch := fun r hr =>
      expand_expand (hnames r hr) (hservers r hr) (harch arch heffective)
    rw [activate_of_ok hroot heffective] at h
    obtain ⟨he, rfl⟩ := Prod.mk.inj h
    obtain rfl := Except.ok.inj he
    have hagain := effectiveArchitecture_again heffective (enrolled arch c.repos)
    have hregistered : ((registered c.repos).map (expand arch)).map (expand arch) =
        (registered c.repos).map (expand arch) := by
      rw [List.map_map]
      apply List.map_congr_left
      intro r hr
      exact hexpand r (mem_of_mem_registered hr)
    have hactivate := activate_of_ok (c := { c with
      architecture := arch
      repos := enrolled arch c.repos }) hroot hagain
    rw [hactivate]
    simp only [registered_enrolled, hregistered, enrolled_enrolled hexpand]

theorem isTemplate_coreTwice : ∀ r ∈ coreTwice.repos, ∀ url ∈ r.servers, IsTemplate url := by
  have hboth : IsTemplate "a/$repo/$arch" :=
    ⟨[.text "a/" (by decide), .hole .repo, .text "/" (by decide), .hole .arch], rfl⟩
  have harch : IsTemplate "b/$arch" := ⟨[.text "b/" (by decide), .hole .arch], rfl⟩
  have hrepo : IsTemplate "c/$repo" := ⟨[.text "c/" (by decide), .hole .repo], rfl⟩
  simp [coreTwice, hboth, harch, hrepo]

/-- The host is asked both times, and what was refused is refused again with its holes open. -/
theorem activate_again_coreTwice :
    let e : Engine :=
      { root := "/", dbPath := "/var/lib/pacman"
        sources := [⟨"core", .useDefault, ["a/core/auto"]⟩, ⟨"extra", .empty, []⟩] }
    let c' : Config :=
      { coreTwice with
        repos := [⟨"core", .useDefault, ["a/core/auto"]⟩, ⟨"", .empty, ["b/$arch"]⟩,
          ⟨"core", .empty, ["c/$repo"]⟩, ⟨"extra", .empty, []⟩] }
    (∀ r ∈ coreTwice.repos, '$' ∉ r.name.toList) ∧
    (∀ r ∈ coreTwice.repos, ∀ url ∈ r.servers, IsTemplate url) ∧
    (∀ arch, coreTwice.effectiveArchitecture (.ok "auto") = .ok arch → '$' ∉ arch.toList) ∧
    coreTwice.activate (.ok "auto") = (.ok e, c') ∧ c'.activate (.ok "auto") = (.ok e, c') := by
  intro e c'
  have hnames : ∀ r ∈ coreTwice.repos, '$' ∉ r.name.toList := by decide
  have harch : ∀ arch, coreTwice.effectiveArchitecture (.ok "auto") = .ok arch →
      '$' ∉ arch.toList := by
    intro arch h
    obtain rfl : "auto" = arch := Except.ok.inj h
    decide
  have hfirst : coreTwice.activate (.ok "auto") = (.ok e, c') := by cbv
  exact ⟨hnames, isTemplate_coreTwice, harch, hfirst,
    activate_again hnames isTemplate_coreTwice harch hfirst⟩

end Config
end PackageConf
