import Mathlib
import PackageConf.Proofs.Config.Assign
import PackageConf.Proofs.Line.Grammar
import PackageConf.Proofs.Parse.Follow
/-!
# The first error

`Offence` lists what can be wrong with a line, each cause with its error. It looks at the line, at
its place among the visits and at the section that is open there, and it does not look at what the
lines before have made of the configuration. `act_eq_error_iff` says that a visit fails in no other
way, and `parse_eq_error_iff` that reading fails exactly where the first offence is.
-/
namespace PackageConf

/-! ## The open section -/

def Visit.header? : Visit → Option String
  | .line _ _ bytes => (Line.token? bytes).bind Token.header?
  | .unreadable _ => none

def repository? (name : String) : Option String :=
  if name = Draft.optionsName then none else some name

/-- The repository whose section is open behind some visits: that of the latest header. -/
def openRepository? (before : List Visit) : Option String :=
  (before.filterMap Visit.header?).getLast?.bind repository?

def Draft.currentName? (d : Draft) : Option String := d.current.map (·.name)

theorem Draft.currentName?_header (d : Draft) (name : String) :
    (d.header name).currentName? = repository? name := by
  unfold Draft.header repository?
  split <;> rfl

theorem Draft.currentName?_key {d d' : Draft} {line : Nat} {name : String} {values : List String}
    (h : d.key line name values = .ok d') : d'.currentName? = d.currentName? := by
  rcases cases_key h with ⟨c, hc, -, rfl⟩ | ⟨r, r', hr, ha, rfl⟩
  · rfl
  · rw [currentName?, currentName?, hr, Option.map_some, Option.map_some,
      (Repository.takes_assign ha).name]

/-- A header opens its section, and any other line leaves the section open. -/
theorem Visit.currentName?_act {fs : FileSystem} {limit : Nat} {v : Visit} {d d' : Draft}
    (h : v.act fs limit d = .ok d') :
    d'.currentName? = match v.header? with
      | some name => repository? name
      | none => d.currentName? := by
  cases v with
  | unreadable cause => cases h
  | line depth number bytes =>
    cases ht : Line.token bytes number with
    | error e => simp [act, ht] at h
    | ok t =>
      have htok := (Line.token?_eq_some_iff number).2 ht
      simp only [act, ht] at h
      simp only [header?, htok, Option.bind_some]
      cases t with
      | comment =>
        rw [← Except.ok.inj h]
        rfl
      | header name =>
        rw [← Except.ok.inj h, Draft.currentName?_header]
        rfl
      | key name values =>
        rw [Draft.take] at h
        split at h
        · obtain ⟨-, -, rfl⟩ := Except.map_eq_ok_iff.1 h
          rfl
        · exact Draft.currentName?_key h

/-- The open section depends on the headers alone. -/
theorem Draft.currentName?_follow {fs : FileSystem} {limit : Nat} {before : List Visit} {d : Draft}
    (h : ({} : Draft).follow fs limit before = .ok d) :
    d.currentName? = openRepository? before := by
  induction before using List.reverseRecOn generalizing d with
  | nil =>
    rw [← Except.ok.inj h]
    rfl
  | append_singleton before v ih =>
    obtain ⟨d₁, d₂, hbefore, hv, hd⟩ := exists_act_of_follow h
    obtain rfl := Except.ok.inj hd
    have hcur := Visit.currentName?_act hv
    rw [hcur, openRepository?, List.filterMap_append]
    cases hh : v.header? with
    | none =>
      rw [List.filterMap_cons, hh, List.filterMap_nil, List.append_nil]
      exact ih hbefore
    | some name => simp [hh]

/-! ## What can be wrong -/

/-- What is wrong with a visit, and the error it comes to; `repo` is the repository whose section
is open, or none among the options. -/
inductive Offence (fs : FileSystem) (limit : Nat) (repo : Option String) :
    Visit → ConfigError → Prop
  | lineTooLong {depth number : Nat} {line : Bytes} :
      Line.maxLength < (Line.content line).length →
      Offence fs limit repo (.line depth number line) (.lineTooLong number)
  | missingBracket {depth number : Nat} {line : Bytes} {rest : List Char} :
      Line.Reads line ('[' :: rest) → ']' ∉ rest →
      Offence fs limit repo (.line depth number line) (.missingBracket number)
  | trailingCharacters {depth number : Nat} {line : Bytes} {name after : List Char} :
      Line.Reads line ('[' :: (name ++ ']' :: after)) → ']' ∉ name → Text.trim after ≠ [] →
      Offence fs limit repo (.line depth number line)
        (.trailingCharacters number (String.ofList (Text.trim after)) (String.ofList name))
  | missingInclude {depth number : Nat} {line : Bytes} :
      Line.IsKey line "Include" [] →
      Offence fs limit repo (.line depth number line) (.missingInclude number)
  | includeDepth {depth number : Nat} {line : Bytes} {path : String} {values : List String} :
      Line.IsKey line "Include" (path :: values) → limit ≤ depth →
      Offence fs limit repo (.line depth number line) (.includeDepth number limit)
  | includeFailed {depth number : Nat} {line : Bytes} {path : String} {values : List String}
      {cause : FileError} :
      Line.IsKey line "Include" (path :: values) → depth < limit → fs.access path = .error cause →
      Offence fs limit repo (.line depth number line) (.includeFailed number path cause)
  | unknownOption {depth number : Nat} {line : Bytes} {name : String} {values : List String} :
      Line.IsKey line name values → name ≠ "Include" → repo = none →
      (∀ x : Setting, name ≠ x.name) →
      Offence fs limit repo (.line depth number line) (.unknownOption number name)
  | invalidValue {depth number : Nat} {line : Bytes} {f : LevelField} {values : List String}
      {bad : String} :
      Line.IsKey line f.name values → repo = none → SigLevel.FirstInvalid values bad →
      Offence fs limit repo (.line depth number line) (.invalidValue number ⟨bad⟩)
  | outsideOptions {depth number : Nat} {line : Bytes} {name r : String} {values : List String} :
      Line.IsKey line name values → repo = some r →
      name ∉ ["Include", "SigLevel", "Server", "Usage"] →
      Offence fs limit repo (.line depth number line) (.outsideOptions number name)
  | repoSigLevel {depth number : Nat} {line : Bytes} {r : String} {values : List String}
      {bad : String} :
      Line.IsKey line "SigLevel" values → repo = some r → SigLevel.FirstInvalid values bad →
      Offence fs limit repo (.line depth number line) (.repoSigLevel r ⟨bad⟩)
  | unreadable {cause : FileError} : Offence fs limit repo (.unreadable cause) (.io cause)

/-! ## What fails -/

/-- A key fails where it fails among the options, or in the repository that is open. -/
theorem Draft.key_eq_error_iff {d : Draft} {line : Nat} {name : String} {values : List String}
    {e : ConfigError} :
    d.key line name values = .error e ↔
      (d.current = none ∧ d.config.assign line name values = .error e) ∨
      ∃ r, d.current = some r ∧ r.assign line name values = .error e := by
  unfold key
  cases d.current with
  | none => cases d.config.assign line name values <;> simp [Except.map]
  | some r =>
    cases hr : r.assign line name values <;> simp [Except.map, hr]

theorem checkInclude_eq_error_iff {fs : FileSystem} {limit depth number : Nat}
    {values : List String} {e : ConfigError} :
    checkInclude fs limit depth number values = .error e ↔
      (values = [] ∧ e = .missingInclude number) ∨
      ∃ path rest, values = path :: rest ∧
        ((limit ≤ depth ∧ e = .includeDepth number limit) ∨
          ∃ cause, depth < limit ∧ fs.access path = .error cause ∧
            e = .includeFailed number path cause) := by
  cases values with
  | nil => simp [checkInclude, eq_comm]
  | cons path rest =>
    by_cases hd : limit ≤ depth
    · simp [checkInclude, hd, Nat.not_lt.2 hd, eq_comm]
    · cases hacc : fs.access path <;>
        simp [checkInclude, hd, Nat.lt_of_not_le hd, hacc, eq_comm]

namespace Visit

theorem act_key {fs : FileSystem} {limit depth number : Nat} {line : Bytes} {name : String}
    {values : List String} (h : Line.IsKey line name values) (d : Draft) :
    (Visit.line depth number line).act fs limit d =
      if name = "Include" then (checkInclude fs limit depth number values).map fun _ => d
      else d.key number name values := by
  rw [act, Line.token_eq_key_iff.2 h]
  rfl

theorem offence_of_token {fs : FileSystem} {limit depth number : Nat} {repo : Option String}
    {line : Bytes} {e : ConfigError} (h : Line.token line number = .error e) :
    Offence fs limit repo (.line depth number line) e := by
  rcases Line.token_eq_error_iff.1 h with ⟨hlong, rfl⟩ | ⟨rest, hr, hopen, rfl⟩ |
    ⟨name, after, hr, hname, hafter, rfl⟩
  · exact .lineTooLong hlong
  · exact .missingBracket hr hopen
  · exact .trailingCharacters hr hname hafter

theorem offence_of_include {fs : FileSystem} {limit depth number : Nat} {repo : Option String}
    {line : Bytes} {values : List String} {e : ConfigError}
    (hkey : Line.IsKey line "Include" values)
    (h : checkInclude fs limit depth number values = .error e) :
    Offence fs limit repo (.line depth number line) e := by
  rcases checkInclude_eq_error_iff.1 h with ⟨rfl, rfl⟩ | ⟨path, rest, rfl, hpath⟩
  · exact .missingInclude hkey
  · rcases hpath with ⟨hd, rfl⟩ | ⟨cause, hd, hacc, rfl⟩
    · exact .includeDepth hkey hd
    · exact .includeFailed hkey hd hacc

/-- Something is wrong with an assignment that fails in the section that is open. -/
theorem offence_of_key {fs : FileSystem} {limit depth number : Nat} {line : Bytes}
    {name : String} {values : List String} {d : Draft} {e : ConfigError}
    (hkey : Line.IsKey line name values) (hname : name ≠ "Include")
    (h : d.key number name values = .error e) :
    Offence fs limit d.currentName? (.line depth number line) e := by
  rcases Draft.key_eq_error_iff.1 h with ⟨hcur, h⟩ | ⟨r, hcur, h⟩
  · have hrepo : d.currentName? = none := by rw [Draft.currentName?, hcur, Option.map_none]
    rcases Config.assign_eq_error_iff.1 h with ⟨hnone, rfl⟩ | ⟨f, bad, rfl, hbad, rfl⟩
    · exact .unknownOption hkey hname hrepo hnone
    · exact .invalidValue hkey hrepo hbad
  · have hrepo : d.currentName? = some r.name := by
      rw [Draft.currentName?, hcur, Option.map_some]
    rcases Repository.assign_eq_error_iff.1 h with ⟨hnot, rfl⟩ | ⟨rfl, bad, hbad, rfl⟩
    · exact .outsideOptions hkey hrepo (by simpa [hname] using hnot)
    · exact .repoSigLevel hkey hrepo hbad

theorem offence_of_act {fs : FileSystem} {limit : Nat} {v : Visit} {d : Draft} {e : ConfigError}
    (h : v.act fs limit d = .error e) : Offence fs limit d.currentName? v e := by
  cases v with
  | unreadable cause =>
    obtain rfl := Except.error.inj h
    exact .unreadable
  | line depth number line =>
    cases ht : Line.token line number with
    | error e' =>
      simp only [act, ht, Except.error.injEq] at h
      subst h
      exact offence_of_token ht
    | ok t =>
      cases t with
      | comment => simp [act, ht, Draft.take] at h
      | header name => simp [act, ht, Draft.take] at h
      | key name values =>
        have hkey := Line.token_eq_key_iff.1 ht
        rw [act_key hkey] at h
        split at h
        · next hname =>
          subst hname
          exact offence_of_include hkey (Except.map_eq_error_iff.1 h)
        · next hname => exact offence_of_key hkey hname h

theorem act_of_offence {fs : FileSystem} {limit : Nat} {v : Visit} {d : Draft} {e : ConfigError}
    (h : Offence fs limit d.currentName? v e) : v.act fs limit d = .error e := by
  cases h with
  | lineTooLong hlong =>
    simp [act, Line.token_eq_error_iff.2 (.inl ⟨hlong, rfl⟩)]
  | missingBracket hr hopen =>
    simp [act, Line.token_eq_error_iff.2 (.inr (.inl ⟨_, hr, hopen, rfl⟩))]
  | trailingCharacters hr hname hafter =>
    simp [act, Line.token_eq_error_iff.2 (.inr (.inr ⟨_, _, hr, hname, hafter, rfl⟩))]
  | missingInclude hkey =>
    rw [act_key hkey, if_pos rfl]
    rfl
  | includeDepth hkey hd =>
    rw [act_key hkey, if_pos rfl,
      checkInclude_eq_error_iff.2 (.inr ⟨_, _, rfl, .inl ⟨hd, rfl⟩⟩)]
    rfl
  | includeFailed hkey hd hacc =>
    rw [act_key hkey, if_pos rfl,
      checkInclude_eq_error_iff.2 (.inr ⟨_, _, rfl, .inr ⟨_, hd, hacc, rfl⟩⟩)]
    rfl
  | unknownOption hkey hname hrepo hnone =>
    rw [act_key hkey, if_neg hname, Draft.key_eq_error_iff]
    exact .inl ⟨Option.map_eq_none_iff.1 hrepo, Config.assign_eq_error_iff.2 (.inl ⟨hnone, rfl⟩)⟩
  | @invalidValue _ _ _ f _ _ hkey hrepo hbad =>
    have hname : f.name ≠ "Include" := by cases f <;> decide
    rw [act_key hkey, if_neg hname, Draft.key_eq_error_iff]
    exact .inl ⟨Option.map_eq_none_iff.1 hrepo,
      Config.assign_eq_error_iff.2 (.inr ⟨f, _, rfl, hbad, rfl⟩)⟩
  | outsideOptions hkey hrepo hnot =>
    obtain ⟨r, hcur, rfl⟩ := Option.map_eq_some_iff.1 hrepo
    obtain ⟨hname, hnot⟩ := not_or.1 (mt List.mem_cons.2 hnot)
    rw [act_key hkey, if_neg hname, Draft.key_eq_error_iff]
    exact .inr ⟨r, hcur, Repository.assign_eq_error_iff.2 (.inl ⟨hnot, rfl⟩)⟩
  | repoSigLevel hkey hrepo hbad =>
    obtain ⟨r, hcur, rfl⟩ := Option.map_eq_some_iff.1 hrepo
    rw [act_key hkey, if_neg (by decide), Draft.key_eq_error_iff]
    exact .inr ⟨r, hcur, Repository.assign_eq_error_iff.2 (.inr ⟨rfl, _, hbad, rfl⟩)⟩
  | unreadable => rfl

/-- **A visit fails** if something is wrong with it, in the section that is open. -/
theorem act_eq_error_iff {fs : FileSystem} {limit : Nat} {v : Visit} {d : Draft}
    {e : ConfigError} :
    v.act fs limit d = .error e ↔ Offence fs limit d.currentName? v e :=
  ⟨offence_of_act, act_of_offence⟩

end Visit

/-! ## Runs -/

def Faultless (fs : FileSystem) (limit : Nat) (vs : List Visit) : Prop :=
  ∀ before v after, vs = before ++ v :: after →
    ∀ e, ¬ Offence fs limit (openRepository? before) v e

/-- An offence behind visits that go through is an error. -/
theorem Draft.act_eq_error_iff_of_follow {fs : FileSystem} {limit : Nat} {before : List Visit}
    {v : Visit} {d : Draft} {e : ConfigError} (h : ({} : Draft).follow fs limit before = .ok d) :
    v.act fs limit d = .error e ↔ Offence fs limit (openRepository? before) v e := by
  rw [Visit.act_eq_error_iff, currentName?_follow h]

theorem Draft.exists_follow_iff {fs : FileSystem} {limit : Nat} {vs : List Visit} :
    (∃ d, ({} : Draft).follow fs limit vs = .ok d) ↔ Faultless fs limit vs := by
  constructor
  · rintro ⟨d, h⟩ before v after rfl e hoff
    obtain ⟨d₁, d₂, hbefore, hv, -⟩ := exists_act_of_follow h
    rw [(act_eq_error_iff_of_follow hbefore).2 hoff] at hv
    cases hv
  · intro h
    cases hf : ({} : Draft).follow fs limit vs with
    | ok d => exact ⟨d, rfl⟩
    | error e =>
      obtain ⟨before, v, after, d, hsplit, hbefore, hv⟩ := follow_eq_error_iff.1 hf
      exact absurd ((act_eq_error_iff_of_follow hbefore).1 hv) (h before v after hsplit e)

/-- **The first offence is the error.** Reading fails with an error exactly if that error is what
is wrong with one of the lines, depth first, and nothing is wrong with the lines before it. So it
fails if anything is wrong anywhere. Every line is counted within the file that holds it. -/
theorem parse_eq_error_iff (fs : FileSystem) (limit : Nat) (bytes : Bytes) :
    (∀ e, parse fs bytes limit = .error e ↔
      ∃ before v after, visits fs limit 0 0 (Line.lines bytes) = before ++ v :: after ∧
        Faultless fs limit before ∧ Offence fs limit (openRepository? before) v e) ∧
    ((∃ e, parse fs bytes limit = .error e) ↔
      ∃ before v after e, visits fs limit 0 0 (Line.lines bytes) = before ++ v :: after ∧
        Offence fs limit (openRepository? before) v e) ∧
    ∀ v ∈ visits fs limit 0 0 (Line.lines bytes), v.Located fs limit bytes := by
  have hfirst : ∀ e, parse fs bytes limit = .error e ↔
      ∃ before v after, visits fs limit 0 0 (Line.lines bytes) = before ++ v :: after ∧
        Faultless fs limit before ∧ Offence fs limit (openRepository? before) v e := by
    intro e
    rw [parse_eq_follow, Except.map_eq_error_iff, Draft.follow_eq_error_iff]
    constructor
    · rintro ⟨before, v, after, d, hsplit, hbefore, hv⟩
      exact ⟨before, v, after, hsplit, Draft.exists_follow_iff.1 ⟨d, hbefore⟩,
        (Draft.act_eq_error_iff_of_follow hbefore).1 hv⟩
    · rintro ⟨before, v, after, hsplit, hclean, hoff⟩
      obtain ⟨d, hbefore⟩ := Draft.exists_follow_iff.2 hclean
      exact ⟨before, v, after, d, hsplit, hbefore,
        (Draft.act_eq_error_iff_of_follow hbefore).2 hoff⟩
  refine ⟨hfirst, ?_, fun v hv => located_of_mem_visits hv⟩
  constructor
  · rintro ⟨e, he⟩
    obtain ⟨before, v, after, hsplit, -, hoff⟩ := (hfirst e).1 he
    exact ⟨before, v, after, e, hsplit, hoff⟩
  · rintro ⟨before, v, after, e, hsplit, hoff⟩
    rw [parse_eq_follow]
    cases hf : ({} : Draft).follow fs limit (visits fs limit 0 0 (Line.lines bytes)) with
    | error e' => exact ⟨e', rfl⟩
    | ok d => exact absurd hoff (Draft.exists_follow_iff.1 ⟨d, hf⟩ before v after hsplit e)

/-- A text that includes a file and then turns a flag on. -/
def colorText : Bytes := Text.encode "Include = m\nColor\n".toList

/-- A file that opens a section in which there are no flags. -/
def sectionFiles : FileSystem := .ofList [("m", .ok (.bytes (Text.encode "[c]\nColor\n".toList)))]

/-- The same line is an offence in the included file, and is not reached behind it. -/
theorem parse_error_colorText :
    parse sectionFiles colorText 1 = .error (.outsideOptions 2 "Color") ∧
    ∃ before v after, visits sectionFiles 1 0 0 (Line.lines colorText) = before ++ v :: after ∧
      Faultless sectionFiles 1 before ∧
      Offence sectionFiles 1 (openRepository? before) v (.outsideOptions 2 "Color") ∧
      v.Located sectionFiles 1 colorText := by
  have herror : parse sectionFiles colorText 1 = .error (.outsideOptions 2 "Color") := by cbv
  obtain ⟨hfirst, -, hlocated⟩ := parse_eq_error_iff sectionFiles 1 colorText
  obtain ⟨before, v, after, hsplit, hclean, hoff⟩ := (hfirst _).1 herror
  refine ⟨herror, before, v, after, hsplit, hclean, hoff, hlocated v ?_⟩
  rw [hsplit]
  exact List.mem_append_right before List.mem_cons_self

end PackageConf
