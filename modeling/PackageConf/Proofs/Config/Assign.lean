import Mathlib.Data.List.Basic
import PackageConf.Draft
import PackageConf.Proofs.SigLevel.Resolve
/-!
# Keys and what they are given to

`Config.Takes` says what a configuration becomes by the keys of some lines, as questions to all
these lines at once: a scalar is what its last line gives, a list grows by what all its lines
give, a flag is on if any line names it, and a signature level is what its last line resolves to.
`Repository.Takes` says the same of a section. Both hold of one assignment (`takes_assign`) and of
one after another (`trans`), and `assign_eq_error_iff` says when an assignment fails.
-/
namespace PackageConf

namespace Setting

theorem name_injective : Function.Injective name := by
  intro x y h
  have hx := ofName?_name x
  rw [h, ofName?_name] at hx
  exact (Option.some.inj hx).symm

theorem ofName?_eq_none_iff {s : String} : ofName? s = none ↔ ∀ x : Setting, s ≠ x.name := by
  constructor
  · intro h x hx
    rw [ofName?_eq_some_iff.2 hx] at h
    cases h
  · intro h
    cases hs : ofName? s with
    | none => rfl
    | some x => exact absurd (ofName?_eq_some_iff.1 hs) (h x)

end Setting

/-! ## When an assignment fails -/

/-- A key among the options fails if no setting has its name, or by its signature level. -/
theorem Config.assign_eq_error_iff {c : Config} {line : Nat} {name : String}
    {values : List String} {e : ConfigError} :
    c.assign line name values = .error e ↔
      ((∀ x : Setting, name ≠ x.name) ∧ e = .unknownOption line name) ∨
      ∃ (f : LevelField) (bad : String), name = f.name ∧ SigLevel.FirstInvalid values bad ∧
        e = .invalidValue line ⟨bad⟩ := by
  cases hname : Setting.ofName? name with
  | none =>
    have hnone := Setting.ofName?_eq_none_iff.1 hname
    have hlevel : ∀ f : LevelField, name ≠ f.name := fun f => hnone (.level f)
    simp [assign, hname, hnone, hlevel, eq_comm]
  | some x =>
    obtain rfl := Setting.ofName?_eq_some_iff.1 hname
    have hnot : ¬ ∀ y : Setting, x.name ≠ y.name := fun h => h x rfl
    have hinj (f : LevelField) : x.name = f.name ↔ x = .level f :=
      Setting.name_injective.eq_iff (b := .level f)
    simp only [hnot, hinj, false_and, false_or]
    cases x with
    | flag f => simp [assign, hname]
    | scalar f => simp [assign, hname]
    | list f => simp [assign, hname]
    | level f =>
      rcases SigLevel.resolve_cases .useDefault values with ⟨l, hr, hvalid⟩ | ⟨bad, hr, hbad⟩
      · simp [assign, hname, hr, hvalid]
      · simp [assign, hname, hr, hbad, eq_comm]

/-- A key of a repository fails if it is none of the three, or by its signature level. -/
theorem Repository.assign_eq_error_iff {r : Repository} {line : Nat} {name : String}
    {values : List String} {e : ConfigError} :
    r.assign line name values = .error e ↔
      (name ∉ ["SigLevel", "Server", "Usage"] ∧ e = .outsideOptions line name) ∨
      (name = "SigLevel" ∧ ∃ bad, SigLevel.FirstInvalid values bad ∧
        e = .repoSigLevel r.name ⟨bad⟩) := by
  unfold assign
  by_cases hlevel : name = "SigLevel"
  · subst hlevel
    rcases SigLevel.resolve_cases .useDefault values with ⟨l, hr, hvalid⟩ | ⟨bad, hr, hbad⟩
    · simp [hr, hvalid]
    · simp [hr, hbad, eq_comm]
  · by_cases hserver : name = "Server"
    · simp [hserver]
    · by_cases husage : name = "Usage"
      · simp [husage]
      · simp [hlevel, hserver, husage, eq_comm]

/-! ## What lines give -/

/-- The values that a line gives to a name. -/
def Token.values? (name : String) : Token → Option (List String)
  | .key n values => if n = name then some values else none
  | _ => none

/-- The values that some lines give to a name, line by line. -/
def given (name : String) (ts : List Token) : List (List String) :=
  ts.filterMap (Token.values? name)

@[simp] theorem given_nil (name : String) : given name [] = [] := rfl

theorem given_append (name : String) (ts us : List Token) :
    given name (ts ++ us) = given name ts ++ given name us := List.filterMap_append

theorem given_key (name n : String) (values : List String) :
    given name [.key n values] = if n = name then [values] else [] := by
  unfold given
  by_cases h : n = name <;> simp [Token.values?, h]

theorem given_setting (x y : Setting) (values : List String) :
    given y.name [.key x.name values] = if x = y then [values] else [] := by
  simp only [given_key, Setting.name_injective.eq_iff]

theorem given_kinds (x : Setting) (values : List String) :
    (∀ f : Flag, given f.name [.key x.name values] = if x = .flag f then [values] else []) ∧
    (∀ f : ScalarField, given f.name [.key x.name values] =
      if x = .scalar f then [values] else []) ∧
    (∀ f : ListField, given f.name [.key x.name values] = if x = .list f then [values] else []) ∧
    ∀ f : LevelField, given f.name [.key x.name values] = if x = .level f then [values] else [] :=
  ⟨fun f => given_setting x (.flag f) values, fun f => given_setting x (.scalar f) values,
    fun f => given_setting x (.list f) values, fun f => given_setting x (.level f) values⟩

/-- The last of some lines is the last of the later ones, if there are any. -/
theorem last_given_append {name : String} {ts us : List Token} {values : List String}
    (h : (given name (ts ++ us)).getLast? = some values) :
    (given name us).getLast? = some values ∨
      (given name us = [] ∧ (given name ts).getLast? = some values) := by
  rw [given_append, List.getLast?_append] at h
  cases hu : (given name us).getLast? with
  | none =>
    rw [hu, Option.none_or] at h
    exact .inr ⟨List.getLast?_eq_none_iff.1 hu, h⟩
  | some v =>
    rw [hu, Option.some_or] at h
    exact .inl h

/-! ## Among the options -/

theorem Flag.getLsbD_bit (f : Flag) (i : Nat) : f.bit.getLsbD i = true ↔ f.index = i := by
  have hlt : f.index < 32 := by cases f <;> decide
  rw [bit, ← BitVec.twoPow_eq, BitVec.getLsbD_twoPow]
  simp [hlt]

namespace Config

/-- What a configuration `c` becomes by the lines `ts` among the options. -/
structure Takes (c : Config) (ts : List Token) (c' : Config) : Prop where
  scalar_last : ∀ (f : ScalarField) values, (given f.name ts).getLast? = some values →
    c'.scalar f = " ".intercalate values
  scalar_kept : ∀ f : ScalarField, given f.name ts = [] → c'.scalar f = c.scalar f
  list : ∀ f : ListField, c'.list f = c.list f ++ (given f.name ts).flatten
  flag : ∀ i, c'.options.bits.getLsbD i = true ↔
    c.options.bits.getLsbD i = true ∨ ∃ f : Flag, f.index = i ∧ given f.name ts ≠ []
  level_last : ∀ (f : LevelField) values, (given f.name ts).getLast? = some values →
    SigLevel.resolve .useDefault values = .ok (c'.level f)
  level_kept : ∀ f : LevelField, given f.name ts = [] → c'.level f = c.level f

theorem Takes.of_given_eq_nil {c : Config} {ts : List Token} (h : ∀ name, given name ts = []) :
    Takes c ts c where
  scalar_last f values hv := by simp [h] at hv
  scalar_kept f _ := rfl
  list f := by simp [h]
  flag i := by simp [h]
  level_last f values hv := by simp [h] at hv
  level_kept f _ := rfl

theorem Takes.trans {c c₁ c₂ : Config} {ts us : List Token} (h₁ : Takes c ts c₁)
    (h₂ : Takes c₁ us c₂) : Takes c (ts ++ us) c₂ where
  scalar_last f values hv := by
    rcases last_given_append hv with hv | ⟨hnil, hv⟩
    · exact h₂.scalar_last f values hv
    · rw [h₂.scalar_kept f hnil]
      exact h₁.scalar_last f values hv
  scalar_kept f hnil := by
    rw [given_append, List.append_eq_nil_iff] at hnil
    rw [h₂.scalar_kept f hnil.2, h₁.scalar_kept f hnil.1]
  list f := by
    rw [h₂.list, h₁.list, given_append, List.flatten_append, List.append_assoc]
  flag i := by
    rw [h₂.flag, h₁.flag, or_assoc, ← exists_or]
    simp only [given_append, ne_eq, List.append_eq_nil_iff, not_and_or, and_or_left]
  level_last f values hv := by
    rcases last_given_append hv with hv | ⟨hnil, hv⟩
    · exact h₂.level_last f values hv
    · rw [h₂.level_kept f hnil]
      exact h₁.level_last f values hv
  level_kept f hnil := by
    rw [given_append, List.append_eq_nil_iff] at hnil
    rw [h₂.level_kept f hnil.2, h₁.level_kept f hnil.1]

/-! ### What an assignment leaves alone -/

theorem frame_setFlag (c : Config) (f : Flag) (on : Bool) :
    (c.setFlag f on).scalar = c.scalar ∧ (c.setFlag f on).list = c.list ∧
      (c.setFlag f on).level = c.level ∧ (c.setFlag f on).repos = c.repos :=
  ⟨rfl, rfl, rfl, rfl⟩

theorem frame_setScalar (c : Config) (f : ScalarField) (v : String) :
    (c.setScalar f v).list = c.list ∧ (c.setScalar f v).level = c.level ∧
      (c.setScalar f v).options = c.options ∧ (c.setScalar f v).repos = c.repos := by
  cases f <;> exact ⟨rfl, rfl, rfl, rfl⟩

theorem frame_setList (c : Config) (f : ListField) (v : List String) :
    (c.setList f v).scalar = c.scalar ∧ (c.setList f v).level = c.level ∧
      (c.setList f v).options = c.options ∧ (c.setList f v).repos = c.repos := by
  cases f <;> exact ⟨rfl, rfl, rfl, rfl⟩

theorem frame_setLevel (c : Config) (f : LevelField) (v : SigLevel) :
    (c.setLevel f v).scalar = c.scalar ∧ (c.setLevel f v).list = c.list ∧
      (c.setLevel f v).options = c.options ∧ (c.setLevel f v).repos = c.repos := by
  cases f <;> exact ⟨rfl, rfl, rfl, rfl⟩

/-! ### Each kind of setting -/

theorem assign_flag (c : Config) (line : Nat) (f : Flag) (values : List String) :
    c.assign line f.name values = .ok (c.setFlag f true) := by
  have h : Setting.ofName? f.name = some (.flag f) := Setting.ofName?_name (.flag f)
  rw [assign, h]

theorem assign_scalar (c : Config) (line : Nat) (f : ScalarField) (values : List String) :
    c.assign line f.name values = .ok (c.setScalar f (" ".intercalate values)) := by
  have h : Setting.ofName? f.name = some (.scalar f) := Setting.ofName?_name (.scalar f)
  rw [assign, h]

theorem assign_list (c : Config) (line : Nat) (f : ListField) (values : List String) :
    c.assign line f.name values = .ok (c.setList f (c.list f ++ values)) := by
  have h : Setting.ofName? f.name = some (.list f) := Setting.ofName?_name (.list f)
  rw [assign, h]

theorem assign_level_iff {c c' : Config} {line : Nat} {f : LevelField} {values : List String} :
    c.assign line f.name values = .ok c' ↔
      ∃ l, SigLevel.resolve .useDefault values = .ok l ∧ c' = c.setLevel f l := by
  have h : Setting.ofName? f.name = some (.level f) := Setting.ofName?_name (.level f)
  rw [assign, h]
  cases SigLevel.resolve .useDefault values <;> simp [eq_comm]

/-- An assignment that goes well is that of a setting, each kind in its own way. -/
theorem cases_assign {c c' : Config} {line : Nat} {name : String} {values : List String}
    (h : c.assign line name values = .ok c') :
    (∃ f : Flag, name = f.name ∧ c' = c.setFlag f true) ∨
      (∃ f : ScalarField, name = f.name ∧ c' = c.setScalar f (" ".intercalate values)) ∨
      (∃ f : ListField, name = f.name ∧ c' = c.setList f (c.list f ++ values)) ∨
      ∃ (f : LevelField) (l : SigLevel), name = f.name ∧
        SigLevel.resolve .useDefault values = .ok l ∧ c' = c.setLevel f l := by
  cases hname : Setting.ofName? name with
  | none => simp [assign, hname] at h
  | some x =>
    obtain rfl := Setting.ofName?_eq_some_iff.1 hname
    cases x with
    | flag f =>
      have hset : c.setFlag f true = c' :=
        Except.ok.inj ((assign_flag c line f values).symm.trans h)
      exact .inl ⟨f, rfl, hset.symm⟩
    | scalar f =>
      exact .inr (.inl ⟨f, rfl,
        (Except.ok.inj ((assign_scalar c line f values).symm.trans h)).symm⟩)
    | list f =>
      exact .inr (.inr (.inl ⟨f, rfl,
        (Except.ok.inj ((assign_list c line f values).symm.trans h)).symm⟩))
    | level f =>
      obtain ⟨l, hl, rfl⟩ := assign_level_iff.1 h
      exact .inr (.inr (.inr ⟨f, l, rfl, hl, rfl⟩))

theorem assign_repos {c c' : Config} {line : Nat} {name : String} {values : List String}
    (h : c.assign line name values = .ok c') : c'.repos = c.repos := by
  rcases cases_assign h with ⟨f, -, rfl⟩ | ⟨f, -, rfl⟩ | ⟨f, -, rfl⟩ | ⟨f, l, -, -, rfl⟩
  · rfl
  · exact (frame_setScalar c f _).2.2.2
  · exact (frame_setList c f _).2.2.2
  · exact (frame_setLevel c f l).2.2.2

/-! ### An assignment takes its line -/

theorem takes_setFlag (c : Config) (f : Flag) (values : List String) :
    c.Takes [.key (Setting.flag f).name values] (c.setFlag f true) := by
  obtain ⟨hflag, hscalar, hlist, hlevel⟩ := given_kinds (.flag f) values
  constructor
  · intro g v hv
    simp [hscalar] at hv
  · intro g _
    rfl
  · intro g
    simp [hlist, (frame_setFlag c f true).2.1]
  · intro i
    have hbits : (c.setFlag f true).options.bits = c.options.bits ||| f.bit := rfl
    rw [hbits, BitVec.getLsbD_or, Bool.or_eq_true, Flag.getLsbD_bit]
    simp [hflag]
  · intro g v hv
    simp [hlevel] at hv
  · intro g _
    rfl

theorem takes_setScalar (c : Config) (f : ScalarField) (values : List String) :
    c.Takes [.key (Setting.scalar f).name values] (c.setScalar f (" ".intercalate values)) := by
  obtain ⟨hflag, hscalar, hlist, hlevel⟩ := given_kinds (.scalar f) values
  obtain ⟨fl, fv, fo, -⟩ := frame_setScalar c f (" ".intercalate values)
  constructor
  · intro g v hv
    by_cases hfg : f = g
    · subst hfg
      obtain rfl : values = v := by simpa [hscalar] using hv
      simp
    · simp [hscalar, hfg] at hv
  · intro g hnil
    have hfg : g ≠ f := by
      rintro rfl
      simp [hscalar] at hnil
    rw [scalar_setScalar, if_neg hfg]
  · intro g
    simp [hlist, fl]
  · intro i
    simp [hflag, fo]
  · intro g v hv
    simp [hlevel] at hv
  · intro g _
    rw [fv]

theorem takes_setList (c : Config) (f : ListField) (values : List String) :
    c.Takes [.key (Setting.list f).name values] (c.setList f (c.list f ++ values)) := by
  obtain ⟨hflag, hscalar, hlist, hlevel⟩ := given_kinds (.list f) values
  obtain ⟨fs, fv, fo, -⟩ := frame_setList c f (c.list f ++ values)
  constructor
  · intro g v hv
    simp [hscalar] at hv
  · intro g _
    rw [fs]
  · intro g
    by_cases hfg : f = g
    · subst hfg
      simp [hlist]
    · simp [hlist, hfg, Ne.symm hfg]
  · intro i
    simp [hflag, fo]
  · intro g v hv
    simp [hlevel] at hv
  · intro g _
    rw [fv]

theorem takes_setLevel (c : Config) (f : LevelField) {l : SigLevel} {values : List String}
    (h : SigLevel.resolve .useDefault values = .ok l) :
    c.Takes [.key (Setting.level f).name values] (c.setLevel f l) := by
  obtain ⟨hflag, hscalar, hlist, hlevel⟩ := given_kinds (.level f) values
  obtain ⟨fs, fl, fo, -⟩ := frame_setLevel c f l
  constructor
  · intro g v hv
    simp [hscalar] at hv
  · intro g _
    rw [fs]
  · intro g
    simp [hlist, fl]
  · intro i
    simp [hflag, fo]
  · intro g v hv
    by_cases hfg : f = g
    · subst hfg
      obtain rfl : values = v := by simpa [hlevel] using hv
      simpa using h
    · simp [hlevel, hfg] at hv
  · intro g hnil
    have hfg : g ≠ f := by
      rintro rfl
      simp [hlevel] at hnil
    rw [level_setLevel, if_neg hfg]

theorem takes_assign {c c' : Config} {line : Nat} {name : String} {values : List String}
    (h : c.assign line name values = .ok c') : c.Takes [.key name values] c' := by
  rcases cases_assign h with ⟨f, rfl, rfl⟩ | ⟨f, rfl, rfl⟩ | ⟨f, rfl, rfl⟩ | ⟨f, l, rfl, hl, rfl⟩
  · exact takes_setFlag c f values
  · exact takes_setScalar c f values
  · exact takes_setList c f values
  · exact takes_setLevel c f hl

end Config

/-! ## In the section of a repository -/

namespace Repository

/-- What a repository `r` becomes by the lines `ts` of its section. -/
structure Takes (r : Repository) (ts : List Token) (r' : Repository) : Prop where
  name : r'.name = r.name
  servers : r'.servers = r.servers ++ (given "Server" ts).flatten
  level_last : ∀ values, (given "SigLevel" ts).getLast? = some values →
    SigLevel.resolve .useDefault values = .ok r'.sigLevel
  level_kept : given "SigLevel" ts = [] → r'.sigLevel = r.sigLevel

theorem Takes.of_given_eq_nil {r : Repository} {ts : List Token}
    (h : ∀ name, given name ts = []) : Takes r ts r where
  name := rfl
  servers := by simp [h]
  level_last values hv := by simp [h] at hv
  level_kept _ := rfl

theorem Takes.trans {r r₁ r₂ : Repository} {ts us : List Token} (h₁ : Takes r ts r₁)
    (h₂ : Takes r₁ us r₂) : Takes r (ts ++ us) r₂ where
  name := h₂.name.trans h₁.name
  servers := by
    rw [h₂.servers, h₁.servers, given_append, List.flatten_append, List.append_assoc]
  level_last values hv := by
    rcases last_given_append hv with hv | ⟨hnil, hv⟩
    · exact h₂.level_last values hv
    · rw [h₂.level_kept hnil]
      exact h₁.level_last values hv
  level_kept hnil := by
    rw [given_append, List.append_eq_nil_iff] at hnil
    rw [h₂.level_kept hnil.2, h₁.level_kept hnil.1]

/-- An assignment in a section that goes well. -/
theorem cases_assign {r r' : Repository} {line : Nat} {name : String} {values : List String}
    (h : r.assign line name values = .ok r') :
    (name = "SigLevel" ∧ ∃ l, SigLevel.resolve .useDefault values = .ok l ∧
        r' = { r with sigLevel := l }) ∨
      (name = "Server" ∧ r' = { r with servers := r.servers ++ values }) ∨
      (name = "Usage" ∧ r' = r) := by
  unfold assign at h
  split at h
  · next hname =>
    cases hr : SigLevel.resolve .useDefault values with
    | ok l =>
      simp only [hr, Except.ok.injEq] at h
      exact .inl ⟨hname, l, rfl, h.symm⟩
    | error e => simp [hr] at h
  · split at h
    · next hname => exact .inr (.inl ⟨hname, (Except.ok.inj h).symm⟩)
    · split at h
      · next hname => exact .inr (.inr ⟨hname, (Except.ok.inj h).symm⟩)
      · cases h

theorem takes_assign {r r' : Repository} {line : Nat} {name : String} {values : List String}
    (h : r.assign line name values = .ok r') : r.Takes [.key name values] r' := by
  rcases cases_assign h with ⟨rfl, l, hl, rfl⟩ | ⟨rfl, rfl⟩ | ⟨rfl, rfl⟩
  · refine ⟨rfl, by simp [given_key], fun v hv => ?_, fun hnil => by simp [given_key] at hnil⟩
    obtain rfl : values = v := by simpa [given_key] using hv
    exact hl
  · exact ⟨rfl, by simp [given_key], fun v hv => by simp [given_key] at hv, fun _ => rfl⟩
  · exact ⟨rfl, by simp [given_key], fun v hv => by simp [given_key] at hv, fun _ => rfl⟩

end Repository

/-- A key that goes well is an assignment among the options, or in the repository that is open. -/
theorem Draft.cases_key {d d' : Draft} {line : Nat} {name : String} {values : List String}
    (h : d.key line name values = .ok d') :
    (∃ c, d.current = none ∧ d.config.assign line name values = .ok c ∧
        d' = { d with config := c }) ∨
      ∃ r r', d.current = some r ∧ r.assign line name values = .ok r' ∧
        d' = { d with current := some r' } := by
  unfold key at h
  cases hc : d.current with
  | none =>
    cases ha : d.config.assign line name values with
    | error e => simp [hc, ha, Except.map] at h
    | ok c =>
      simp only [hc, ha, Except.map, Except.ok.injEq] at h
      exact .inl ⟨c, rfl, rfl, h.symm⟩
  | some r =>
    cases ha : r.assign line name values with
    | error e => simp [hc, ha, Except.map] at h
    | ok r' =>
      simp only [hc, ha, Except.map, Except.ok.injEq] at h
      exact .inr ⟨r, r', rfl, ha, h.symm⟩

end PackageConf
