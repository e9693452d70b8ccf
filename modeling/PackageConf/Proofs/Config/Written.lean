import PackageConf.Proofs.Line.Written
import PackageConf.Proofs.Parse.Reading
/-!
# Reading what was written

`Config.tokens` are the tokens of the lines in which a configuration is written. If it is
representable, each of its lines is written as its token (`writtenAs_lines`), and hearing the
tokens from the empty draft on makes the configuration again (`foldlM_tokens`): every scalar and
every level is overwritten, every list grows from the empty one, and only flags that are off and
lists that are empty are not mentioned.
-/
namespace PackageConf

def valuesOf (s : String) : List String := (Text.words s.toList).map String.ofList

theorem valuesOf_join {values : List String} (h : ∀ v ∈ values, IsValue v) :
    valuesOf (" ".intercalate values) = values := by
  have hwords : ∀ w ∈ values.map String.toList, Text.IsWord w := by
    intro w hw
    obtain ⟨v, hv, rfl⟩ := List.mem_map.1 hw
    exact (h v hv).1
  have hsep : " ".toList = [' '] := rfl
  rw [valuesOf, String.toList_intercalate, hsep, Text.words_join hwords]
  simp [List.map_map, Function.comp_def]

theorem IsJoined.valuesOf {s : String} (h : IsJoined s) :
    (∀ v ∈ valuesOf s, IsValue v) ∧ " ".intercalate (PackageConf.valuesOf s) = s := by
  obtain ⟨values, hvalues, rfl⟩ := h
  rw [valuesOf_join hvalues]
  exact ⟨hvalues, rfl⟩

/-! ## The tokens of the lines -/

def Repository.tokens (r : Repository) : List Token :=
  Token.header r.name ::
    (if r.sigLevel = .useDefault then [] else [Token.key "SigLevel" r.sigLevel.toTokens]) ++
    r.servers.map fun s => Token.key "Server" [s]

def Config.optionTokens (c : Config) : List Token :=
  Token.header Draft.optionsName ::
    ScalarField.all.map (fun f => Token.key f.name (valuesOf (c.scalar f))) ++
    (ListField.all.filter (fun f => c.list f ≠ [])).map (fun f => Token.key f.name (c.list f)) ++
    (Flag.all.filter c.flag).map (fun f => Token.key f.name []) ++
    LevelField.all.map (fun f => Token.key f.name (c.level f).toTokens)

/-- The tokens of a file that holds the configuration. -/
def Config.tokens (c : Config) : List Token :=
  c.optionTokens ++ c.repos.flatMap fun r => .comment :: r.tokens

theorem isValue_of_mem_toTokens {l : SigLevel} : ∀ v ∈ l.toTokens, IsValue v := by
  intro v hv
  obtain ⟨c, -, rfl⟩ := List.mem_map.1 hv
  exact isValue_of_isName (isName_token c)

open Line (WrittenAs)

theorem forall₂_writtenAs_map {α : Type} (fs : List α) (line : α → String) (token : α → Token)
    (h : ∀ f ∈ fs, WrittenAs (line f) (token f)) :
    List.Forall₂ WrittenAs (fs.map line) (fs.map token) := by
  rw [List.forall₂_map_left_iff, List.forall₂_map_right_iff]
  exact List.forall₂_same.2 h

theorem Repository.writtenAs_lines {r : Repository} (h : r.Representable) :
    List.Forall₂ WrittenAs r.lines r.tokens := by
  have hservers : List.Forall₂ WrittenAs (r.servers.map (assignment "Server"))
      (r.servers.map fun s => .key "Server" [s]) := by
    refine forall₂_writtenAs_map _ _ _ fun s hs => ?_
    have hone : WrittenAs (assignment "Server" (" ".intercalate [s])) (.key "Server" [s]) :=
      Line.writtenAs_assignment (by decide) (List.forall_mem_singleton.2 (h.server s hs))
    rwa [String.intercalate_singleton] at hone
  refine List.rel_append (.cons (Line.writtenAs_header h.closed h.one_line) ?_) hservers
  split
  · exact .nil
  · exact .cons (Line.writtenAs_assignment (by decide) isValue_of_mem_toTokens) .nil

theorem Config.writtenAs_lines {c : Config} (h : c.Representable) :
    List.Forall₂ WrittenAs c.lines c.tokens := by
  refine List.rel_append (List.rel_append (List.rel_append (List.rel_append
    (.cons ?_ ?_) ?_) ?_) ?_) ?_
  · have hclosed : ']' ∉ Draft.optionsName.toList := by decide
    exact Line.writtenAs_header hclosed (by decide)
  · refine forall₂_writtenAs_map _ _ _ fun f _ => ?_
    obtain ⟨hvalues, hjoin⟩ := (h.scalar f).valuesOf
    have hline := Line.writtenAs_assignment (isName_setting (.scalar f)) hvalues
    rwa [hjoin] at hline
  · exact forall₂_writtenAs_map _ _ _ fun f _ =>
      Line.writtenAs_assignment (isName_setting (.list f)) (h.list f)
  · exact forall₂_writtenAs_map _ _ _ fun f _ => Line.writtenAs_name (isName_setting (.flag f))
  · exact forall₂_writtenAs_map _ _ _ fun f _ =>
      Line.writtenAs_assignment (isName_setting (.level f)) isValue_of_mem_toTokens
  · have hsame : List.Forall₂ (fun r r' : Repository => r = r' ∧ r.Representable) c.repos c.repos :=
      List.forall₂_same.2 fun r hr => ⟨rfl, h.repo r hr⟩
    refine List.rel_flatMap hsame ?_
    rintro r _ ⟨rfl, hr⟩
    exact .cons Line.writtenAs_blank (Repository.writtenAs_lines hr)

/-! ## Hearing the tokens -/

/-- Keys among the options act on the settings one after the other. -/
theorem foldlM_keys {α : Type} (fs : List α) (token : α → Token) (set : Config → α → Config)
    (h : ∀ f ∈ fs, ∀ c, Draft.hear { config := c } (some (token f)) = some { config := set c f })
    (c : Config) :
    ((fs.map token).map some).foldlM Draft.hear { config := c } =
      some { config := fs.foldl set c } := by
  induction fs generalizing c with
  | nil => rfl
  | cons f fs ih =>
    obtain ⟨hf, hfs⟩ := List.forall_mem_cons.1 h
    rw [List.map_cons, List.map_cons, List.foldlM_cons, hf c]
    exact ih hfs (set c f)

theorem hear_of_assign {c c' : Config} {name : String} {values : List String}
    (h : c.assign 0 name values = .ok c') :
    Draft.hear { config := c } (some (.key name values)) = some { config := c' } := by
  rw [Draft.hear, Draft.key, h]
  rfl

namespace Config

theorem foldlM_scalars {c : Config} (h : ∀ f, IsJoined (c.scalar f)) (c₀ : Config) :
    ((ScalarField.all.map fun f => Token.key f.name (valuesOf (c.scalar f))).map some).foldlM
        Draft.hear { config := c₀ } =
      some { config := ScalarField.all.foldl (fun c₀ f => c₀.setScalar f (c.scalar f)) c₀ } := by
  refine foldlM_keys _ _ _ (fun f _ c₀ => ?_) c₀
  rw [hear_of_assign (assign_scalar c₀ 0 f _), (h f).valuesOf.2]

theorem foldlM_lists (c c₀ : Config) :
    (((ListField.all.filter fun f => c.list f ≠ []).map fun f =>
        Token.key f.name (c.list f)).map some).foldlM Draft.hear { config := c₀ } =
      some { config := ((ListField.all.filter fun f => c.list f ≠ []).foldl
        (fun c₀ f => c₀.setList f (c₀.list f ++ c.list f)) c₀) } :=
  foldlM_keys _ _ _ (fun f _ c₀ => hear_of_assign (assign_list c₀ 0 f _)) c₀

theorem foldlM_flags (c c₀ : Config) :
    (((Flag.all.filter c.flag).map fun f => Token.key f.name []).map some).foldlM Draft.hear
        { config := c₀ } =
      some { config := (Flag.all.filter c.flag).foldl (fun c₀ f => c₀.setFlag f true) c₀ } :=
  foldlM_keys _ _ _ (fun f _ c₀ => hear_of_assign (assign_flag c₀ 0 f _)) c₀

theorem foldlM_levels {c : Config} (h : ∀ f, (c.level f).Canonical) (c₀ : Config) :
    ((LevelField.all.map fun f => Token.key f.name (c.level f).toTokens).map some).foldlM
        Draft.hear { config := c₀ } =
      some { config := LevelField.all.foldl (fun c₀ f => c₀.setLevel f (c.level f)) c₀ } := by
  refine foldlM_keys _ _ _ (fun f _ c₀ => hear_of_assign ?_) c₀
  exact assign_level_iff.2 ⟨c.level f, SigLevel.resolve_toTokens (h f), rfl⟩

/-! ### What they make of the default configuration -/

/-- A configuration is what its settings and its repositories are. -/
theorem ext_settings {a b : Config} (hscalar : a.scalar = b.scalar) (hlist : a.list = b.list)
    (hlevel : a.level = b.level) (hoptions : a.options = b.options) (hrepos : a.repos = b.repos) :
    a = b := by
  have hs (f : ScalarField) : a.scalar f = b.scalar f := congrFun hscalar f
  have hl (f : ListField) : a.list f = b.list f := congrFun hlist f
  have hv (f : LevelField) : a.level f = b.level f := congrFun hlevel f
  cases a
  cases b
  congr
  · exact hl .cacheDir
  · exact hl .holdPkg
  · exact hl .syncFirst
  · exact hl .ignoreGroup
  · exact hl .ignorePkg
  · exact hl .noExtract
  · exact hl .noUpgrade
  · exact hs .rootDir
  · exact hs .dbPath
  · exact hs .gpgDir
  · exact hs .logFile
  · exact hs .architecture
  · exact hs .xferCommand
  · exact hs .cleanMethod
  · exact hv .sigLevel
  · exact hv .localFileSigLevel
  · exact hv .remoteFileSigLevel

theorem foldl_keeps {α β : Type} (view : Config → β) {set : Config → α → Config}
    (h : ∀ c f, view (set c f) = view c) (fs : List α) (c : Config) :
    view (fs.foldl set c) = view c := by
  induction fs generalizing c with
  | nil => rfl
  | cons f fs ih => rw [List.foldl_cons, ih, h]

theorem scalar_foldl_setScalar (v : ScalarField → String) (fs : List ScalarField) (c : Config)
    (g : ScalarField) :
    (fs.foldl (fun c f => c.setScalar f (v f)) c).scalar g =
      if g ∈ fs then v g else c.scalar g := by
  induction fs generalizing c with
  | nil => simp
  | cons f fs ih =>
    rw [List.foldl_cons, ih, scalar_setScalar]
    by_cases hg : g ∈ fs
    · simp [hg]
    · by_cases hgf : g = f <;> simp [hg, hgf]

theorem level_foldl_setLevel (v : LevelField → SigLevel) (fs : List LevelField) (c : Config)
    (g : LevelField) :
    (fs.foldl (fun c f => c.setLevel f (v f)) c).level g = if g ∈ fs then v g else c.level g := by
  induction fs generalizing c with
  | nil => simp
  | cons f fs ih =>
    rw [List.foldl_cons, ih, level_setLevel]
    by_cases hg : g ∈ fs
    · simp [hg]
    · by_cases hgf : g = f <;> simp [hg, hgf]

theorem list_foldl_setList (v : ListField → List String) {fs : List ListField} (hfs : fs.Nodup)
    (c : Config) (g : ListField) :
    (fs.foldl (fun c f => c.setList f (c.list f ++ v f)) c).list g =
      if g ∈ fs then c.list g ++ v g else c.list g := by
  induction fs generalizing c with
  | nil => simp
  | cons f fs ih =>
    obtain ⟨hf, hfs⟩ := List.nodup_cons.1 hfs
    rw [List.foldl_cons, ih hfs, list_setList]
    by_cases hgf : g = f
    · subst hgf
      simp [hf]
    · simp [hgf]

theorem getLsbD_foldl_setFlag (fs : List Flag) (c : Config) (i : Nat) :
    (fs.foldl (fun c f => c.setFlag f true) c).options.bits.getLsbD i = true ↔
      c.options.bits.getLsbD i = true ∨ ∃ f ∈ fs, f.index = i := by
  induction fs generalizing c with
  | nil => simp
  | cons f fs ih =>
    have hbits : (c.setFlag f true).options.bits = c.options.bits ||| f.bit := rfl
    rw [List.foldl_cons, ih, hbits, BitVec.getLsbD_or, Bool.or_eq_true, Flag.getLsbD_bit, or_assoc]
    simp

theorem flag_iff {c : Config} {f : Flag} :
    c.flag f = true ↔ c.options.bits.getLsbD f.index = true := by
  rw [flag, OptionFlags.has, Mask.has_iff]
  constructor
  · intro h
    exact h _ ((Flag.getLsbD_bit f _).2 rfl)
  · intro h i hi
    rwa [← (Flag.getLsbD_bit f i).1 hi]

/-- Turning on the flags that are on makes all bits, if every bit has a flag. -/
theorem options_foldl_setFlag {c c₀ : Config}
    (h : ∀ i, c.options.bits.getLsbD i = true → ∃ f : Flag, f.index = i)
    (h₀ : c₀.options.bits = 0) :
    ((Flag.all.filter c.flag).foldl (fun c₀ f => c₀.setFlag f true) c₀).options = c.options := by
  refine congrArg OptionFlags.mk (BitVec.eq_of_getLsbD_eq fun i _ => Bool.eq_iff_iff.2 ?_)
  rw [getLsbD_foldl_setFlag, h₀]
  constructor
  · rintro (hz | ⟨f, hf, rfl⟩)
    · simp at hz
    · exact flag_iff.1 (List.mem_filter.1 hf).2
  · intro hi
    obtain ⟨f, rfl⟩ := h i hi
    have hall : f ∈ Flag.all := by cases f <;> decide
    exact .inr ⟨f, List.mem_filter.2 ⟨hall, flag_iff.2 hi⟩, rfl⟩

/-- The tokens of the settings make all of a configuration but its repositories. -/
theorem foldlM_optionTokens {c : Config} (h : c.Representable) :
    (c.optionTokens.map some).foldlM Draft.hear {} = some { config := { c with repos := [] } } := by
  have hheader : Draft.hear {} (some (.header Draft.optionsName)) =
      some { config := Config.default } := rfl
  simp only [optionTokens, List.map_cons, List.map_append, List.cons_append, List.foldlM_cons,
    List.foldlM_append, hheader, foldlM_scalars h.scalar, foldlM_lists, foldlM_flags,
    foldlM_levels h.level, Option.bind_eq_bind, Option.bind_some]
  congr 2
  -- A stage sets its own kind of setting and leaves the other kinds to the other stages.
  refine ext_settings (funext fun f => ?_) (funext fun f => ?_) (funext fun f => ?_) ?_ ?_
  · have hf : f ∈ ScalarField.all := by cases f <;> decide
    rw [foldl_keeps scalar fun c f => (frame_setLevel c f _).1,
      foldl_keeps scalar fun c f => (frame_setFlag c f _).1,
      foldl_keeps scalar fun c f => (frame_setList c f _).1,
      scalar_foldl_setScalar, if_pos hf]
    rfl
  · have hf : f ∈ ListField.all := by cases f <;> decide
    have hnodup : (ListField.all.filter fun f => c.list f ≠ []).Nodup :=
      List.Pairwise.filter _ (by decide)
    have hempty : (default : Config).list f = [] := by cases f <;> rfl
    rw [foldl_keeps list fun c f => (frame_setLevel c f _).2.1,
      foldl_keeps list fun c f => (frame_setFlag c f _).2.1, list_foldl_setList c.list hnodup,
      foldl_keeps list fun c f => (frame_setScalar c f _).1, hempty]
    change _ = c.list f
    by_cases hnil : c.list f = [] <;> simp [hf, hnil]
  · have hf : f ∈ LevelField.all := by cases f <;> decide
    rw [level_foldl_setLevel, if_pos hf]
    rfl
  · rw [foldl_keeps options fun c f => (frame_setLevel c f _).2.2.1, options_foldl_setFlag h.flag]
    rw [foldl_keeps options fun c f => (frame_setList c f _).2.2.1,
      foldl_keeps options fun c f => (frame_setScalar c f _).2.2.1]
    rfl
  · rw [foldl_keeps repos fun c f => (frame_setLevel c f _).2.2.2,
      foldl_keeps repos fun c f => (frame_setFlag c f _).2.2.2,
      foldl_keeps repos fun c f => (frame_setList c f _).2.2.2,
      foldl_keeps repos fun c f => (frame_setScalar c f _).2.2.2]
    rfl

end Config

/-! ### The sections -/

/-- A section makes its repository. -/
theorem Repository.foldlM_tokens {r : Repository} (h : r.Representable) (d : Draft) :
    ((Token.comment :: r.tokens).map some).foldlM Draft.hear d =
      some { config := d.finish, current := some r } := by
  have hheader : d.hear (some (.header r.name)) =
      some { config := d.finish, current := some { name := r.name } } := by
    rw [Draft.hear, Draft.header, if_neg h.not_options]
  have hlevel : (((if r.sigLevel = .useDefault then [] else
      [Token.key "SigLevel" r.sigLevel.toTokens]).map some).foldlM Draft.hear
        { config := d.finish, current := some { name := r.name } }) =
      some { config := d.finish, current := some { name := r.name, sigLevel := r.sigLevel } } := by
    split
    · next hdefault =>
      rw [hdefault]
      rfl
    · have hresolve := SigLevel.resolve_toTokens h.level
      simp [Draft.hear, Draft.key, Repository.assign, hresolve, Except.map, Except.toOption]
  have hservers (ss : List String) (q : Repository) :
      ((ss.map fun s => Token.key "Server" [s]).map some).foldlM Draft.hear
        { config := d.finish, current := some q } =
      some { config := d.finish, current := some { q with servers := q.servers ++ ss } } := by
    induction ss generalizing q with
    | nil => simp
    | cons s ss ih =>
      have hserver : Draft.hear { config := d.finish, current := some q }
          (some (.key "Server" [s])) =
          some { config := d.finish, current := some { q with servers := q.servers ++ [s] } } := by
        simp [Draft.hear, Draft.key, Repository.assign, Except.map, Except.toOption]
      rw [List.map_cons, List.map_cons, List.foldlM_cons, hserver, Option.bind_eq_bind,
        Option.bind_some, ih, List.append_assoc]
      rfl
  have hcomment : d.hear (some .comment) = some d := rfl
  simp only [tokens, List.map_cons, List.map_append, List.cons_append, List.foldlM_cons,
    List.foldlM_append, hcomment, hheader, hlevel, Option.bind_eq_bind, Option.bind_some]
  rw [hservers]
  rfl

/-- The sections make their repositories behind those that are there. -/
theorem exists_foldlM_repos {rs : List Repository} (h : ∀ r ∈ rs, r.Representable) (d : Draft) :
    ∃ d', ((rs.flatMap fun r => Token.comment :: r.tokens).map some).foldlM Draft.hear d =
        some d' ∧ d'.finish = { d.finish with repos := d.finish.repos ++ rs } := by
  induction rs generalizing d with
  | nil => exact ⟨d, rfl, by rw [List.append_nil]⟩
  | cons r rs ih =>
    obtain ⟨hr, hrs⟩ := List.forall_mem_cons.1 h
    obtain ⟨d', hd', hfinish⟩ := ih hrs { config := d.finish, current := some r }
    refine ⟨d', ?_, ?_⟩
    · rw [List.flatMap_cons, List.map_append, List.foldlM_append, Repository.foldlM_tokens hr]
      exact hd'
    · rw [hfinish, Draft.finish_eq]
      simp

/-- **A representable configuration is what its tokens say.** -/
theorem Config.exists_foldlM_tokens {c : Config} (h : c.Representable) :
    ∃ d : Draft, (c.tokens.map some).foldlM Draft.hear {} = some d ∧ d.finish = c := by
  obtain ⟨d, hd, hfinish⟩ := exists_foldlM_repos h.repo { config := { c with repos := [] } }
  refine ⟨d, ?_, ?_⟩
  · rw [tokens, List.map_append, List.foldlM_append, foldlM_optionTokens h]
    exact hd
  · rw [hfinish]
    rfl

end PackageConf
