import PackageConf.Proofs.Config.Written
import PackageConf.Proofs.Parse.Output
/-!
# Reading a configuration that was written

A configuration that is written and read again comes out unchanged exactly if it is representable
and none of its lines is too long (`parse_render_iff`). No two defects make up for each other: what
is read is representable, whatever was written, so a configuration that is not is read as another
one or not at all.
-/
namespace PackageConf

theorem name_ne_include (x : Setting) : ParseState.includeName ≠ x.name := by
  rcases x with f | f | f | f <;> cases f <;> decide

/-- No draft takes an `Include`. -/
theorem Draft.hear_include (d : Draft) (values : List String) :
    d.hear (some (.key ParseState.includeName values)) = none := by
  have hconfig (c : Config) : c.assign 0 ParseState.includeName values =
      .error (.unknownOption 0 ParseState.includeName) :=
    Config.assign_eq_error_iff.2 (.inl ⟨name_ne_include, rfl⟩)
  have hrepo (r : Repository) : r.assign 0 ParseState.includeName values =
      .error (.outsideOptions 0 ParseState.includeName) :=
    Repository.assign_eq_error_iff.2 (.inl ⟨by decide, rfl⟩)
  rw [hear, key]
  cases d.current with
  | none => simp [hconfig, Except.map, Except.toOption]
  | some r => simp [hrepo, Except.map, Except.toOption]

theorem not_mem_of_foldlM {ts : List Token} {d d' : Draft}
    (h : (ts.map some).foldlM Draft.hear d = some d') (values : List String) :
    .key ParseState.includeName values ∉ ts := by
  induction ts generalizing d with
  | nil => simp
  | cons t ts ih =>
    rw [List.map_cons, List.foldlM_cons] at h
    obtain ⟨d₁, ht, hts⟩ := Option.bind_eq_some_iff.1 h
    intro hmem
    rcases List.mem_cons.1 hmem with rfl | hmem
    · rw [Draft.hear_include] at ht
      cases ht
    · exact ih hts hmem

namespace Config

theorem ends_of_mem_lines {c : Config} (h : c.Representable) :
    ∀ l ∈ c.lines, '\n' ∉ l.toList ∧ l.toList.getLast? ≠ some '\r' := by
  have hboth := (writtenAs_lines h).imp fun _ _ hw =>
    And.intro (And.intro hw.one_line hw.not_return) hw
  exact ((List.forall₂_and_left _ _).1 hboth).1

theorem lines_render {c : Config} (h : c.Representable) :
    Line.lines (Text.encode c.render.toList) = c.lines.map Line.written :=
  Line.lines_unlines fun l hl => (ends_of_mem_lines h l hl).1

theorem length_le_iff {c : Config} (h : c.Representable) :
    (∀ l ∈ Text.pieces '\n' c.render.toList, (Text.encode l).length ≤ Line.maxLength) ↔
      ∀ l ∈ c.lines, (Text.encode l.toList).length ≤ Line.maxLength := by
  have hpieces : Text.pieces '\n' c.render.toList = c.lines.map String.toList ++ [[]] :=
    Line.pieces_unlines fun l hl => (ends_of_mem_lines h l hl).1
  rw [hpieces, List.forall_mem_append, List.forall_mem_map]
  exact and_iff_left (List.forall_mem_singleton.2 (Nat.zero_le _))

/-- The lines of a text are read as its tokens, unless they are too long. -/
theorem token?_lines {c : Config} (h : c.Representable)
    (hlen : ∀ l ∈ c.lines, (Text.encode l.toList).length ≤ Line.maxLength) :
    (Line.lines (Text.encode c.render.toList)).map Line.token? = c.tokens.map some := by
  have hwritten := (List.forall₂_and_left _ _).2 ⟨hlen, writtenAs_lines h⟩
  rw [lines_render h]
  generalize c.lines = ls at hwritten
  generalize c.tokens = ts at hwritten
  induction hwritten with
  | nil => rfl
  | cons hl _ ih => rw [List.map_cons, List.map_cons, List.map_cons, ih, hl.2.token hl.1]

end Config

/-- **The domain of the round trip.** A configuration is read back from its text exactly if it is
representable and every line of the text is short enough. -/
theorem parse_render_iff (fs : FileSystem) (c : Config) :
    parse fs (Text.encode c.render.toList) = .ok c ↔
      c.Representable ∧
        ∀ l ∈ Text.pieces '\n' c.render.toList, (Text.encode l).length ≤ Line.maxLength := by
  constructor
  · intro hp
    obtain ⟨d, hf, rfl⟩ := parse_eq_ok_iff.1 hp
    have hrep := (Draft.representable_of_follow hf).finish
    refine ⟨hrep, (Config.length_le_iff hrep).2 fun l hl => ?_⟩
    have hreturn := (Config.ends_of_mem_lines hrep l hl).2
    have hline : Line.written l ∈ Line.lines (Text.encode d.finish.render.toList) := by
      rw [Config.lines_render hrep]
      exact List.mem_map_of_mem hl
    obtain ⟨n, hn⟩ := exists_visit_of_mem fs defaultIncludeLimit 0 0 hline
    obtain ⟨t, ht⟩ := Draft.exists_token_of_follow hf hn
    have hlen := Line.length_le_of_token? ht
    rwa [Line.content_written hreturn] at hlen
  · rintro ⟨hrep, hlen⟩
    have htokens := Config.token?_lines hrep ((Config.length_le_iff hrep).1 hlen)
    obtain ⟨d, hd, hfinish⟩ := Config.exists_foldlM_tokens hrep
    have hplain : ∀ line ∈ Line.lines (Text.encode c.render.toList),
        Line.includeValues? line = none := by
      intro line hline
      refine Line.includeValues?_eq_none_iff.2 fun values ht => ?_
      have hmem : some (.key ParseState.includeName values) ∈ c.tokens.map some := by
        rw [← htokens]
        exact List.mem_map.2 ⟨line, hline, ht⟩
      obtain ⟨t, hmem, htok⟩ := List.mem_map.1 hmem
      obtain rfl := Option.some.inj htok
      exact not_mem_of_foldlM hd values hmem
    rw [parse_eq_ok_iff_of_plain fs defaultIncludeLimit hplain, htokens]
    exact ⟨d, hd, hfinish⟩

/-- A configuration with a section whose name begins like a comment. -/
def hashConfig : Config := { repos := [{ name := " #c", servers := ["s"] }] }

theorem representable_hashConfig : hashConfig.Representable where
  scalar := Config.representable_default.scalar
  list := Config.representable_default.list
  flag := Config.representable_default.flag
  level := Config.representable_default.level
  repo := by
    refine List.forall_mem_singleton.2 ⟨by decide, by decide, by decide, ?_, .inl rfl⟩
    exact List.forall_mem_singleton.2 (isValue_of_all (by decide) (by decide))

theorem length_le_hashConfig : ∀ l ∈ Text.pieces '\n' hashConfig.render.toList,
    (Text.encode l).length ≤ Line.maxLength := by
  rw [Config.length_le_iff representable_hashConfig]
  decide +kernel

/-- The blank in front of the name comes back. -/
theorem parse_render_hashConfig :
    hashConfig.Representable ∧
    (∀ l ∈ Text.pieces '\n' hashConfig.render.toList,
      (Text.encode l).length ≤ Line.maxLength) ∧
    parse (.ofList []) (Text.encode hashConfig.render.toList) = .ok hashConfig :=
  ⟨representable_hashConfig, length_le_hashConfig, (parse_render_iff (.ofList []) hashConfig).2
    ⟨representable_hashConfig, length_le_hashConfig⟩⟩

end PackageConf
