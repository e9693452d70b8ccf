import Mathlib
import PackageConf.CommandLine.Standard
import PackageConf.Proofs.Parse.Layout
import PackageConf.Proofs.Parse.Rereading
/-!
# Printing what was printed

A configuration is printed without the blanks at its end. Only the line end of the last line goes,
and the blank behind the sign of a signature level that is the default, if that line is the last
one. So what is printed is still lines that are written as the tokens of the configuration
(`exists_lines_dump`), and a configuration printed from its own print is the same text, unless a
line of it is too long to be read (`run_dump_again`). This is so with any `Libraries`: the reader of
arguments is only asked what it makes of them.
-/
namespace PackageConf

/-! ## Loading a file -/

/-- A source is read from an empty draft, whatever its label is. -/
theorem ParseState.run_start (fs : FileSystem) (limit : Nat) (label : String) (source : Source) :
    (start { label, rest := source }).run fs limit =
      (({} : Draft).follow fs limit (source.visits fs limit 0)).map Draft.finish := by
  rw [run_eq_follow]
  cases source <;> simp [visits, ReaderStack.visits, readersVisits, Reader.visits, start,
    Source.visits]

theorem parseFile_of_access {fs : FileSystem} {path : String} {bytes : Bytes}
    (h : fs.access path = .ok (.bytes bytes)) (limit : Nat) :
    parseFile fs path limit = parse fs bytes limit := by
  rw [parseFile, Reader.ofPath, h]
  exact (ParseState.run_start fs limit path _).trans (parse_eq_follow fs limit bytes).symm

/-- Only a file can be read. -/
theorem exists_bytes_of_parseFile {fs : FileSystem} {path : String} {limit : Nat} {c : Config}
    (h : parseFile fs path limit = .ok c) : ∃ bytes, fs.access path = .ok (.bytes bytes) := by
  rw [parseFile, Reader.ofPath] at h
  cases hacc : fs.access path with
  | error e =>
    rw [hacc] at h
    cases e <;> cases h
  | ok source =>
    cases source with
    | bytes bytes => exact ⟨bytes, rfl⟩
    | unreadable cause =>
      rw [hacc] at h
      cases (ParseState.run_start fs limit path (.unreadable cause)).symm.trans h

namespace Loader

theorem load_of_access {l : Loader} {fs : FileSystem} {bytes : Bytes}
    (h : fs.access l.path = .ok (.bytes bytes)) : l.load fs = parse fs bytes l.includeLimit := by
  rw [load, if_pos (fs.has_of_access _ _ h), parseFile_of_access h]

theorem exists_bytes_of_load {l : Loader} {fs : FileSystem} {c : Config}
    (hdefaults : l.useDefaults = false) (h : l.load fs = .ok c) :
    ∃ bytes, fs.access l.path = .ok (.bytes bytes) ∧ parse fs bytes l.includeLimit = .ok c := by
  have hfile : parseFile fs l.path l.includeLimit = .ok c := by
    rw [load, hdefaults] at h
    split at h
    · exact h
    · cases h
  obtain ⟨bytes, hbytes⟩ := exists_bytes_of_parseFile hfile
  exact ⟨bytes, hbytes, (parseFile_of_access hbytes _).symm.trans hfile⟩

end Loader

/-! ## Trimming the last line -/

namespace Line

/-- A line whose blanks at the end may go: something is left of it, and if it does not stay as it
is then it is not too long. -/
structure Trimmable (l : String) : Prop where
  ne_nil : Text.trimEnd l.toList ≠ []
  short : Text.trimEnd l.toList ≠ l.toList → (Text.encode l.toList).length ≤ maxLength

theorem trimmable_of_last {l : String} {c : Char} (hlast : l.toList.getLast? = some c)
    (hc : Text.isBlank c = false) : Trimmable l := by
  have hself : Text.trimEnd l.toList = l.toList := Text.trimEnd_eq_self fun c' hc' => by
    obtain rfl := Option.some.inj (hlast.symm.trans hc')
    exact hc
  refine ⟨fun hnil => ?_, fun hne => absurd hself hne⟩
  rw [← hself, hnil] at hlast
  cases hlast

theorem trimmable_header (name : String) : Trimmable ("[" ++ name ++ "]") :=
  trimmable_of_last (c := ']') (by simp [String.toList_append, List.getLast?_cons]) (by decide)

/-- An assignment ends with its last word, or with the blank behind the sign. -/
theorem trimmable_assignment {name : String} {values : List String}
    (hvalues : ∀ v ∈ values, IsValue v)
    (hshort : (Text.encode (assignment name "").toList).length ≤ maxLength) :
    Trimmable (assignment name (" ".intercalate values)) := by
  have htext := toList_assignment name values
  by_cases hnil : values = []
  · subst hnil
    refine ⟨fun hblank => ?_, fun _ => hshort⟩
    have hsign := Text.trimEnd_eq_nil_iff.1 hblank '=' (by rw [htext]; simp)
    revert hsign
    decide
  · have hwords : ∀ w ∈ values.map String.toList, Text.IsWord w :=
      List.forall_mem_map.2 fun v hv => (hvalues v hv).1
    have hjoin := Text.join_ne_nil hwords (by simpa using hnil)
    have hlast := List.getLast?_eq_some_getLast hjoin
    refine trimmable_of_last (c := ([' '].intercalate (values.map String.toList)).getLast hjoin)
      ?_ (Text.isBlank_last_join hwords _ hlast)
    rw [htext]
    simp [List.getLast?_append, List.getLast?_cons, hlast]

theorem Trimmable.writtenAs {l : String} (h : Trimmable l) {t : Token} (hl : WrittenAs l t) :
    WrittenAs (String.ofList (Text.trimEnd l.toList)) t := by
  by_cases hself : Text.trimEnd l.toList = l.toList
  · rwa [hself, String.ofList_toList]
  have hreturn : (String.ofList (Text.trimEnd l.toList)).toList.getLast? ≠ some '\r' := by
    intro hlast
    rw [String.toList_ofList] at hlast
    have hblank := Text.isBlank_getLast?_trimEnd l.toList '\r' hlast
    revert hblank
    decide
  refine ⟨fun hmem => hl.one_line ?_, hreturn, fun hlen => ?_⟩
  · rw [String.toList_ofList] at hmem
    exact (Text.trimEnd_isPrefix l.toList).subset hmem
  · have htoken := (token?_eq_some_iff 0).1 (hl.token (h.short hself))
    rw [token_written hl.not_return (h.short hself)] at htoken
    rw [token?_eq_some_iff 0, token_written hreturn hlen, String.toList_ofList, ← htoken]
    exact Token.ofLine_congr (Text.trim_trimEnd l.toList) 0

end Line

/-- Without the blanks at its end a text ends with its last line, unless that is blank. -/
theorem trimEnd_unlines (ls : List String) {l : String} (h : Text.trimEnd l.toList ≠ []) :
    String.ofList (Text.trimEnd (Text.unlines (ls ++ [l])).toList) ++ "\n" =
      Text.unlines (ls ++ [String.ofList (Text.trimEnd l.toList)]) := by
  have hfeed : ∀ c ∈ ['\n'], Text.isBlank c = true := List.forall_mem_singleton.2 rfl
  have htext : (Text.unlines (ls ++ [l])).toList =
      (Text.unlines ls).toList ++ l.toList ++ ['\n'] := by
    simp [Text.unlines]
  rw [htext, Text.trimEnd_append_blank _ hfeed, Text.trimEnd_append _ h, ← String.toList_inj]
  simp [Text.unlines]

/-! ## The last line of a configuration -/

theorem Repository.trimmable_of_mem_lines {r : Repository} (h : r.Representable) :
    ∀ l ∈ r.lines, Line.Trimmable l := by
  intro l hl
  rw [lines, List.mem_append, List.mem_cons] at hl
  rcases hl with (rfl | hl) | hl
  · exact Line.trimmable_header r.name
  · split at hl
    · cases hl
    · obtain rfl := List.mem_singleton.1 hl
      exact Line.trimmable_assignment isValue_of_mem_toTokens (by decide)
  · obtain ⟨s, hs, rfl⟩ := List.mem_map.1 hl
    have hline : Line.Trimmable (assignment "Server" (" ".intercalate [s])) :=
      Line.trimmable_assignment (List.forall_mem_singleton.2 (h.server s hs)) (by decide)
    rwa [String.intercalate_singleton] at hline

/-- The last line is one of a section, or a signature level. -/
theorem Config.trimmable_last_line {c : Config} (h : c.Representable) :
    ∀ l ∈ c.lines.getLast?, Line.Trimmable l := by
  intro l hl
  rw [Option.mem_def, lines, List.getLast?_append, Option.or_eq_some_iff] at hl
  rcases hl with hl | ⟨-, hl⟩
  · rw [List.getLast?_flatMap] at hl
    obtain ⟨r, hr, hlast⟩ := List.exists_of_findSome?_eq_some hl
    have hlines : ("" :: r.lines).getLast? = r.lines.getLast? := rfl
    rw [hlines] at hlast
    exact Repository.trimmable_of_mem_lines (h.repo r (List.mem_reverse.1 hr)) l
      (List.mem_of_getLast? hlast)
  · have hlevel : l ∈ LevelField.all.map fun f => assignment f.name (c.level f).text := by
      rw [List.getLast?_append, Option.or_eq_some_iff] at hl
      rcases hl with hl | ⟨hnone, -⟩
      · exact List.mem_of_getLast? hl
      · cases hnone
    obtain ⟨f, -, rfl⟩ := List.mem_map.1 hlevel
    exact Line.trimmable_assignment isValue_of_mem_toTokens (by cases f <;> decide)

/-- The last of some related things may be replaced by another that is related to all it was. -/
theorem forall₂_concat_of_imp {α β : Type} {R : α → β → Prop} {xs : List α} {x x' : α} {ys : List β}
    (h : List.Forall₂ R (xs ++ [x]) ys) (hx : ∀ y, R x y → R x' y) :
    List.Forall₂ R (xs ++ [x']) ys := by
  induction xs generalizing ys with
  | nil =>
    cases h with
    | cons hxy hnil =>
      cases hnil
      exact .cons (hx _ hxy) .nil
  | cons a xs ih =>
    cases h with
    | cons ha hxs => exact .cons ha (ih hxs)

open CommandLine

/-- What is printed of a representable configuration is lines that are written as its tokens. -/
theorem Config.exists_lines_dump (L : Libraries) {c : Config} (h : c.Representable) :
    ∃ ls, dump L c .conf = Text.unlines ls ∧ List.Forall₂ Line.WrittenAs ls c.tokens := by
  have hwritten := writtenAs_lines h
  rcases List.eq_nil_or_concat c.lines with hnil | ⟨ls, l, hlines⟩
  · cases hnil
  rw [List.concat_eq_append] at hlines
  have hlast := trimmable_last_line h l (by rw [hlines]; simp)
  rw [hlines] at hwritten
  refine ⟨ls ++ [String.ofList (Text.trimEnd l.toList)], ?_,
    forall₂_concat_of_imp hwritten fun _ => hlast.writtenAs⟩
  rw [dump, format, render, hlines]
  exact trimEnd_unlines ls hlast.ne_nil

/-- What is printed of a representable configuration is read as the configuration, or fails at the
first line that is too long. -/
theorem Config.parse_dump (L : Libraries) (fs : FileSystem) (limit : Nat) {c : Config}
    (h : c.Representable) :
    parse fs (Text.encode (dump L c .conf).toList) limit =
      (firstOverlong? (dump L c .conf)).elim (.ok c) fun i => .error (.lineTooLong (i + 1)) := by
  obtain ⟨ls, hdump, hwritten⟩ := exists_lines_dump L h
  rw [hdump, parse_of_writtenAs fs limit h hwritten]

theorem firstOverlong?_eq_none_iff {text : String} :
    firstOverlong? text = none ↔
      ∀ l ∈ Text.pieces '\n' text.toList, (Text.encode l).length ≤ Line.maxLength := by
  simp [firstOverlong?, Line.isOverlong]

namespace CommandLine

theorem withConfig_of_access (L : Libraries) {i : Invocation} {fs : FileSystem} {bytes : Bytes}
    (h : fs.access i.configPath = .ok (.bytes bytes)) (act : Config → Outcome) :
    withConfig L i fs act =
      match parse fs bytes i.includeLimit with
      | .ok c => act c
      | .error e => .ofError L ("Failed to load " ++ i.configPath) e := by
  have hload : Loader.load { path := i.configPath, includeLimit := i.includeLimit } fs =
      parse fs bytes i.includeLimit := Loader.load_of_access h
  cases hparse : parse fs bytes i.includeLimit with
  | ok c => rw [withConfig, hload, hparse]
  | error e => rw [withConfig, hload, hparse]

/-- What goes well began with a file that could be read. -/
theorem exists_config_of_withConfig {L : Libraries} {i : Invocation} {fs : FileSystem}
    {act : Config → Outcome} (h : (withConfig L i fs act).status = 0) :
    ∃ bytes c, fs.access i.configPath = .ok (.bytes bytes) ∧
      parse fs bytes i.includeLimit = .ok c ∧ withConfig L i fs act = act c := by
  rw [withConfig] at h ⊢
  cases hload : Loader.load { path := i.configPath, includeLimit := i.includeLimit } fs with
  | error e =>
    rw [hload] at h
    cases h
  | ok c =>
    obtain ⟨bytes, hbytes, hparse⟩ := Loader.exists_bytes_of_load rfl hload
    exact ⟨bytes, c, hbytes, hparse, rfl⟩

/-- **Dumping a dump.** A file that is dumped as a file is printed without the blanks at its end. To
dump what was printed, wherever it is stored and whatever else is there, prints it once more; unless
a line of it is too long, and then the first such line is the error. -/
theorem run_dump_again {L : Libraries} {fs : FileSystem} {host : Except FileError String}
    {environment : Option String} {args : List String} {i : Invocation}
    (hrequest : L.arguments environment args = .run i) (hcommand : i.command = .dump .conf)
    (hstatus : (run L fs host environment args).status = 0) :
    ∃ bytes c text, fs.access i.configPath = .ok (.bytes bytes) ∧
      parse fs bytes i.includeLimit = .ok c ∧
      text = String.ofList (Text.trimEnd c.render.toList) ++ "\n" ∧
      run L fs host environment args = { output := text } ∧
      ∀ (fs' : FileSystem) (host' : Except FileError String) (environment' : Option String)
        (args' : List String) (i' : Invocation),
        L.arguments environment' args' = .run i' → i'.command = .dump .conf →
        fs'.access i'.configPath = .ok (.bytes (Text.encode text.toList)) →
        run L fs' host' environment' args' =
            ((firstOverlong? text).elim { output := text } fun k =>
              .ofError L ("Failed to load " ++ i'.configPath) (.lineTooLong (k + 1))) ∧
          ((run L fs' host' environment' args').status = 0 ↔
            ∀ l ∈ Text.pieces '\n' text.toList, (Text.encode l).length ≤ Line.maxLength) := by
  have hrun {fs : FileSystem} {host : Except FileError String} {environment : Option String}
      {args : List String} {i : Invocation} (hr : L.arguments environment args = .run i)
      (hc : i.command = .dump .conf) : run L fs host environment args =
        withConfig L i fs fun c => { output := dump L c .conf } := by
    rw [run, hr, answer, execute, hc]
  rw [hrun hrequest hcommand] at hstatus ⊢
  obtain ⟨bytes, c, hbytes, hparse, hout⟩ := exists_config_of_withConfig hstatus
  refine ⟨bytes, c, dump L c .conf, hbytes, hparse, rfl, hout, ?_⟩
  intro fs' host' environment' args' i' hrequest' hcommand' hbytes'
  obtain ⟨d, hd, rfl⟩ := parse_eq_ok_iff.1 hparse
  have hrep := (Draft.representable_of_follow hd).finish
  rw [hrun hrequest' hcommand', withConfig_of_access L hbytes', Config.parse_dump L fs' _ hrep,
    ← firstOverlong?_eq_none_iff]
  cases firstOverlong? (dump L d.finish .conf) with
  | none => exact ⟨rfl, iff_of_true rfl rfl⟩
  | some k => exact ⟨rfl, iff_of_false Nat.one_ne_zero nofun⟩

def emptyFiles : FileSystem := .ofList [("p", .ok (.bytes []))]

/-- A file that holds what is printed of an empty one. -/
def dumpedFiles : FileSystem :=
  .ofList [("q", .ok (.bytes (Text.encode (dump .standard .default .conf).toList)))]

theorem arguments_dump : Libraries.standard.arguments none ["-c", "p", "dump", "-f", "conf"] =
    .run { configPath := "p", includeLimit := 32, command := .dump .conf } := by cbv

theorem arguments_dumped : Libraries.standard.arguments (some "q") ["dump", "--format=conf"] =
    .run { configPath := "q", includeLimit := 32, command := .dump .conf } := by cbv

theorem parse_emptyFiles : parse emptyFiles [] 32 = .ok .default := by cbv

theorem length_le_dump_default : ∀ l ∈ Text.pieces '\n' (dump .standard .default .conf).toList,
    (Text.encode l).length ≤ Line.maxLength := by
  have htext : (dump .standard .default .conf).toList =
      Text.trimEnd (Config.default.lines.flatMap fun l => l.toList ++ ['\n']) ++ ['\n'] := by
    simp [dump, Config.format, Config.render, Text.unlines]
  rw [htext]
  decide +kernel

/-- The blank behind the last sign is not printed, and is not missed. -/
theorem run_dump_again_dumpedFiles :
    Libraries.standard.arguments none ["-c", "p", "dump", "-f", "conf"] =
      .run { configPath := "p", includeLimit := 32, command := .dump .conf } ∧
    Libraries.standard.arguments (some "q") ["dump", "--format=conf"] =
      .run { configPath := "q", includeLimit := 32, command := .dump .conf } ∧
    run .standard emptyFiles (.ok "x86_64") none ["-c", "p", "dump", "-f", "conf"] =
      { output := dump .standard .default .conf } ∧
    run .standard dumpedFiles (.ok "x86_64") (some "q") ["dump", "--format=conf"] =
      { output := dump .standard .default .conf } := by
  have hfirst : run .standard emptyFiles (.ok "x86_64") none ["-c", "p", "dump", "-f", "conf"] =
      { output := dump .standard .default .conf } := by
    have hempty : emptyFiles.access "p" = .ok (.bytes []) := rfl
    rw [run, arguments_dump, answer, execute]
    dsimp only
    rw [withConfig_of_access _ hempty, parse_emptyFiles]
  obtain ⟨bytes, c, text, -, -, -, hout, hagain⟩ := run_dump_again arguments_dump rfl
    (by rw [hfirst])
  have hsame := hfirst.symm.trans hout
  rw [Outcome.mk.injEq] at hsame
  obtain ⟨-, rfl, -⟩ := hsame
  obtain ⟨hsecond, -⟩ := hagain dumpedFiles (.ok "x86_64") (some "q") ["dump", "--format=conf"]
    { configPath := "q", includeLimit := 32, command := .dump .conf } arguments_dumped rfl rfl
  rw [firstOverlong?_eq_none_iff.2 length_le_dump_default] at hsecond
  exact ⟨arguments_dump, arguments_dumped, hfirst, hsecond⟩

end CommandLine
end PackageConf
