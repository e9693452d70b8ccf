import Mathlib
import PackageConf.Proofs.Config.Assign
import PackageConf.Proofs.Parse.Follow
/-!
# What a text without includes says

A text is read line by line, with a section that changes on the way. What comes out can be asked
for without going through the lines in order: `optionLines` are the lines that have no header, or
the header of the options, as the latest header before them, and `repoSections` gives each other
header with the lines up to the next one. The configuration takes the former and has one
repository for each of the latter (`takes_of_parse`).

The invariant of the walk (`Draft.Becomes`) splits what is to come at the section that is open:
its lines belong to the repository that is open, if there is one.
-/
namespace PackageConf

/-! ## Lines and their headers -/

/-- The header that is in force behind some lines. -/
def latestHeader? (before : List Token) : Option String :=
  (before.filterMap Token.header?).getLast?

/-- Lines behind these are about the options: there is no header, or it is that of the options. -/
def AmongOptions (before : List Token) : Prop :=
  latestHeader? before = none ∨ latestHeader? before = some Draft.optionsName

instance : DecidablePred AmongOptions := fun before =>
  inferInstanceAs (Decidable (latestHeader? before = none ∨
    latestHeader? before = some Draft.optionsName))

/-- The lines about the options among those that follow `before`. -/
def optionLinesAfter (before : List Token) : List Token → List Token
  | [] => []
  | t :: ts =>
    (if AmongOptions before then [t] else []) ++ optionLinesAfter (before ++ [t]) ts

def optionLines (ts : List Token) : List Token := optionLinesAfter [] ts

/-- The lines up to the next header. -/
def sectionLines (ts : List Token) : List Token := ts.takeWhile fun t => t.header?.isNone

/-- The sections of the repositories, each with its name and its lines. -/
def repoSections : List Token → List (String × List Token)
  | [] => []
  | .header name :: ts =>
    if name = Draft.optionsName then repoSections ts
    else (name, sectionLines ts) :: repoSections ts
  | _ :: ts => repoSections ts

theorem amongOptions_header (before : List Token) (name : String) :
    AmongOptions (before ++ [.header name]) ↔ name = Draft.optionsName := by
  simp [AmongOptions, latestHeader?, Token.header?]

theorem amongOptions_plain (before : List Token) {t : Token} (h : t.header? = none) :
    AmongOptions (before ++ [t]) ↔ AmongOptions before := by
  simp [AmongOptions, latestHeader?, h]

theorem sectionLines_plain {t : Token} (h : t.header? = none) (ts : List Token) :
    sectionLines (t :: ts) = t :: sectionLines ts := by
  rw [sectionLines, List.takeWhile_cons_of_pos (by simp [h]), sectionLines]

theorem repoSections_plain {t : Token} (h : t.header? = none) (ts : List Token) :
    repoSections (t :: ts) = repoSections ts := by
  cases t with
  | header name => cases h
  | comment => rfl
  | key name values => rfl

/-! ## One line -/

theorem Config.Takes.of_repos {c c' : Config} {ts : List Token} (h : c.Takes ts c')
    (rs rs' : List Repository) : Takes { c with repos := rs } ts { c' with repos := rs' } where
  scalar_last := h.scalar_last
  scalar_kept := h.scalar_kept
  list := h.list
  flag := h.flag
  level_last := h.level_last
  level_kept := h.level_kept

theorem Draft.finish_eq (d : Draft) :
    d.finish = { d.config with repos := d.config.repos ++ d.current.toList } := by
  unfold finish
  cases d.current with
  | none => simp
  | some r => rfl

/-- A line that is no header is taken by the options, or by the repository that is open. -/
theorem Draft.cases_hear {d d' : Draft} {t : Token} (ht : t.header? = none)
    (h : d.hear (some t) = some d') :
    (d.current = none ∧ d'.current = none ∧ d'.config.repos = d.config.repos ∧
        d.config.Takes [t] d'.config) ∨
      ∃ r r', d.current = some r ∧ d'.current = some r' ∧ d'.config = d.config ∧
        r.Takes [t] r' := by
  cases t with
  | header name => cases ht
  | comment =>
    obtain rfl := Option.some.inj h
    cases hc : d.current with
    | none => exact .inl ⟨rfl, rfl, rfl, .of_given_eq_nil fun _ => rfl⟩
    | some r => exact .inr ⟨r, r, rfl, rfl, rfl, .of_given_eq_nil fun _ => rfl⟩
  | key name values =>
    have hk : d.key 0 name values = .ok d' := Except.toOption_eq_some_iff.1 h
    rcases Draft.cases_key hk with ⟨c, hc, ha, rfl⟩ | ⟨r, r', hr, ha, rfl⟩
    · exact .inl ⟨hc, hc, Config.assign_repos ha, Config.takes_assign ha⟩
    · exact .inr ⟨r, r', hr, rfl, rfl, Repository.takes_assign ha⟩

/-! ## All lines -/

/-- A repository is what a section says. -/
def Repository.OfSection (s : String × List Token) (r : Repository) : Prop :=
  ({ name := s.1 } : Repository).Takes s.2 r

/-- Behind a header the configuration is complete up to the section that it opens. -/
theorem Draft.config_header (d : Draft) (name : String) : (d.header name).config = d.finish := by
  unfold header
  split <;> rfl

theorem Draft.current_header (d : Draft) (name : String) :
    (d.header name).current = if name = optionsName then none else some { name } := by
  unfold header
  split <;> rfl

/-- What a draft `d` has become at `d'`, if `ts` is heard behind `before`: the options have taken
their lines, the repository that was open the lines of its section, and each section that came has
made a repository. -/
structure Draft.Becomes (d : Draft) (before ts : List Token) (d' : Draft) : Prop where
  options : d.config.Takes (optionLinesAfter before ts) d'.finish
  repos : ∃ opened rs,
    List.Forall₂ (fun r r' => r.Takes (sectionLines ts) r') d.current.toList opened ∧
      List.Forall₂ Repository.OfSection (repoSections ts) rs ∧
      d'.finish.repos = d.config.repos ++ opened ++ rs

namespace Draft.Becomes

variable {d d₁ d' : Draft} {before ts : List Token} {t : Token}

theorem nil (d : Draft) (before : List Token) : d.Becomes before [] d where
  options := by
    rw [Draft.finish_eq]
    exact (Config.Takes.of_given_eq_nil fun _ => rfl).of_repos d.config.repos _
  repos := by
    refine ⟨d.current.toList, [], ?_, .nil, by rw [Draft.finish_eq, List.append_nil]⟩
    exact List.forall₂_same.2 fun r _ => .of_given_eq_nil fun _ => rfl

/-- A header ends the section that was open without another line of it. -/
theorem header {name : String}
    (h : (d.header name).Becomes (before ++ [.header name]) ts d') :
    d.Becomes before (.header name :: ts) d' where
  options := by
    have hoptions := h.options
    rw [Draft.config_header] at hoptions
    refine .trans ?_ hoptions
    rw [Draft.finish_eq]
    exact (Config.Takes.of_given_eq_nil fun _ => by split <;> rfl).of_repos d.config.repos _
  repos := by
    obtain ⟨opened, rs, hopen, hrs, heq⟩ := h.repos
    have hended : List.Forall₂ (fun r r' => r.Takes (sectionLines (.header name :: ts)) r')
        d.current.toList d.current.toList :=
      List.forall₂_same.2 fun r _ => .of_given_eq_nil fun _ => rfl
    have hrepos : d'.finish.repos = d.config.repos ++ d.current.toList ++ (opened ++ rs) := by
      rw [heq, Draft.config_header, Draft.finish_eq, List.append_assoc]
    refine ⟨d.current.toList, opened ++ rs, hended, ?_, hrepos⟩
    rw [Draft.current_header] at hopen
    rw [repoSections]
    split
    · next hname =>
      rw [if_pos hname] at hopen
      cases hopen
      exact hrs
    · next hname =>
      rw [if_neg hname] at hopen
      obtain ⟨r', opened', hr', hnil, rfl⟩ := List.forall₂_cons_left_iff.1 hopen
      cases hnil
      exact .cons hr' hrs

theorem option_line (ht : t.header? = none) (hamong : AmongOptions before)
    (hnone : d.current = none) (hnone₁ : d₁.current = none)
    (hrepos : d₁.config.repos = d.config.repos) (htakes : d.config.Takes [t] d₁.config)
    (h : d₁.Becomes (before ++ [t]) ts d') : d.Becomes before (t :: ts) d' where
  options := by
    rw [optionLinesAfter, if_pos hamong]
    exact htakes.trans h.options
  repos := by
    obtain ⟨opened, rs, hopen, hrs, heq⟩ := h.repos
    rw [hnone₁] at hopen
    cases hopen
    rw [hrepos] at heq
    rw [sectionLines_plain ht, repoSections_plain ht, hnone]
    exact ⟨[], rs, .nil, hrs, heq⟩

theorem section_line {r r₁ : Repository} (ht : t.header? = none)
    (hamong : ¬ AmongOptions before) (hr : d.current = some r) (hr₁ : d₁.current = some r₁)
    (hconf : d₁.config = d.config) (htakes : r.Takes [t] r₁)
    (h : d₁.Becomes (before ++ [t]) ts d') : d.Becomes before (t :: ts) d' where
  options := by
    rw [optionLinesAfter, if_neg hamong, ← hconf]
    exact h.options
  repos := by
    obtain ⟨opened, rs, hopen, hrs, heq⟩ := h.repos
    rw [hr₁] at hopen
    obtain ⟨r', opened', hr', hnil, rfl⟩ := List.forall₂_cons_left_iff.1 hopen
    cases hnil
    rw [hconf] at heq
    rw [sectionLines_plain ht, repoSections_plain ht, hr]
    exact ⟨[r'], rs, .cons (htakes.trans hr') .nil, hrs, heq⟩

end Draft.Becomes

theorem Draft.becomes_of_foldlM {ts before : List Token} {d d' : Draft}
    (h : (ts.map some).foldlM Draft.hear d = some d')
    (hcur : d.current = none ↔ AmongOptions before) : d.Becomes before ts d' := by
  induction ts generalizing before d with
  | nil =>
    obtain rfl := Option.some.inj h
    exact .nil d before
  | cons t ts ih =>
    rw [List.map_cons, List.foldlM_cons] at h
    obtain ⟨d₁, h₁, h⟩ := Option.bind_eq_some_iff.1 h
    cases ht : t.header? with
    | some name =>
      obtain rfl := Token.header?_eq_some_iff.1 ht
      obtain rfl : d.header name = d₁ := Option.some.inj h₁
      have hcur₁ : (d.header name).current = none ↔ AmongOptions (before ++ [.header name]) := by
        rw [amongOptions_header, Draft.current_header]
        split <;> simp [*]
      exact .header (ih h hcur₁)
    | none =>
      have hopt := amongOptions_plain before ht
      rcases Draft.cases_hear ht h₁ with ⟨hnone, hnone₁, hrepos, htakes⟩ |
        ⟨r, r₁, hr, hr₁, hconf, htakes⟩
      · have hamong : AmongOptions before := hcur.1 hnone
        have hcur₁ : d₁.current = none ↔ AmongOptions (before ++ [t]) :=
          iff_of_true hnone₁ (hopt.2 hamong)
        exact .option_line ht hamong hnone hnone₁ hrepos htakes (ih h hcur₁)
      · have hamong : ¬ AmongOptions before := fun ha => by
          rw [hcur.2 ha] at hr
          cases hr
        have hcur₁ : d₁.current = none ↔ AmongOptions (before ++ [t]) :=
          iff_of_false (by simp [hr₁]) (mt hopt.1 hamong)
        exact .section_line ht hamong hr hr₁ hconf htakes (ih h hcur₁)

/-- **The meaning of a text without includes.** If it is read, every line has a token; the options
are what the lines about them give, from the default values on; and the repositories are the
sections with other headers, in order, each with what its lines give. -/
theorem takes_of_parse (fs : FileSystem) (limit : Nat) {bytes : Bytes} {c : Config}
    (hplain : ∀ line ∈ Line.lines bytes, Line.includeValues? line = none)
    (h : parse fs bytes limit = .ok c) :
    ∃ ts, (Line.lines bytes).map Line.token? = ts.map some ∧
      Config.default.Takes (optionLines ts) c ∧
      List.Forall₂ Repository.OfSection (repoSections ts) c.repos := by
  obtain ⟨d, hheard, rfl⟩ := (parse_eq_ok_iff_of_plain fs limit hplain c).1 h
  obtain ⟨ts, hts⟩ := exists_tokens_of_foldlM hheard
  rw [hts] at hheard
  have hstart : ({} : Draft).current = none ↔ AmongOptions [] := iff_of_true rfl (.inl rfl)
  obtain ⟨htakes, opened, rs, hopen, hrs, heq⟩ := Draft.becomes_of_foldlM hheard hstart
  cases hopen
  exact ⟨ts, hts, htakes, heq ▸ hrs⟩

/-- A list that is continued behind another section. -/
def holdText : Bytes := Text.encode "HoldPkg = a\n[c]\n[options]\nHoldPkg = b\n".toList

theorem token?_holdText : (Line.lines holdText).map Line.token? =
    [some (.key "HoldPkg" ["a"]), some (.header "c"), some (.header "options"),
      some (.key "HoldPkg" ["b"])] := by
  have hlines : Line.lines holdText =
      [Text.encode "HoldPkg = a\n".toList, Text.encode "[c]\n".toList,
        Text.encode "[options]\n".toList, Text.encode "HoldPkg = b\n".toList] := by decide
  have ha : Line.token? (Text.encode "HoldPkg = a\n".toList) = some (.key "HoldPkg" ["a"]) := by
    cbv
  have hc : Line.token? (Text.encode "[c]\n".toList) = some (.header "c") := by cbv
  have ho : Line.token? (Text.encode "[options]\n".toList) = some (.header "options") := by cbv
  have hb : Line.token? (Text.encode "HoldPkg = b\n".toList) = some (.key "HoldPkg" ["b"]) := by
    cbv
  rw [hlines, List.map_cons, List.map_cons, List.map_cons, List.map_cons, ha, hc, ho, hb]
  rfl

theorem includeValues?_holdText :
    ∀ line ∈ Line.lines holdText, Line.includeValues? line = none := by
  intro line hline
  rw [Line.includeValues?_eq_none_iff]
  intro values ht
  have hmem : some (.key ParseState.includeName values) ∈ (Line.lines holdText).map Line.token? :=
    List.mem_map.2 ⟨line, hline, ht⟩
  rw [token?_holdText] at hmem
  simp [ParseState.includeName] at hmem

/-- Both values of the list are there, and so is the section between them. -/
theorem takes_of_parse_holdText :
    (∀ line ∈ Line.lines holdText, Line.includeValues? line = none) ∧
    parse (.ofList []) holdText 0 = .ok { holdPkg := ["a", "b"], repos := [{ name := "c" }] } ∧
    ∃ ts, (Line.lines holdText).map Line.token? = ts.map some ∧
      Config.default.Takes (optionLines ts)
        { holdPkg := ["a", "b"], repos := [{ name := "c" }] } ∧
      List.Forall₂ Repository.OfSection (repoSections ts) [{ name := "c" }] := by
  have hread : parse (.ofList []) holdText 0 =
      .ok { holdPkg := ["a", "b"], repos := [{ name := "c" }] } := by
    rw [parse_eq_ok_iff_of_plain _ 0 includeValues?_holdText, token?_holdText]
    exact ⟨_, rfl, rfl⟩
  exact ⟨includeValues?_holdText, hread, takes_of_parse _ 0 includeValues?_holdText hread⟩

end PackageConf
