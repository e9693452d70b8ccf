import Mathlib
import PackageConf.CommandLine.Standard
import PackageConf.Proofs.Document.Json
import PackageConf.Proofs.Document.Toml
import PackageConf.Proofs.Mask.Describe
/-!
# Nothing is lost in printing

As a document a configuration is a table of its settings with the tables of its repositories behind
it. The names in these tables are always the same, so a text from which the document can be told
tells the configuration, masks and all. What printing takes from the end of such a text is at most
the last line feed.

The texts are written by libraries. `Libraries.Documented` is what they have to keep to, and every
statement here is about any libraries that do; `Libraries.standard` does (`documented_standard`).
-/
namespace PackageConf

/-- What is known of the writers: a document is laid out as its format is when it is made pretty,
and each of its strings is written in some way that the format has for it; a mask is written with
the names of its bits, and a hexadecimal number for the rest. -/
structure Libraries.Documented (L : Libraries) : Prop where
  mask : Mask.Described L.mask
  json : ∃ write, (∀ s, Json.Spelled s.toList (write s)) ∧ ∀ d, L.json d = Json.document write d
  toml : ∃ m : Toml.Manner, (∀ s, Toml.Spelled s.toList (m.string s)) ∧
    ∀ d, L.toml d = Toml.document m d

theorem Libraries.documented_standard : Libraries.standard.Documented where
  mask := Mask.described_hex
  json := ⟨Json.string, Json.spelled_string, fun _ => rfl⟩
  toml := ⟨.standard, Toml.spelled_string, fun _ => rfl⟩

/-! ## Configurations as documents -/

theorem Repository.table_injective {write : Mask.Writer} (hwrite : Mask.Described write) :
    Function.Injective (Repository.table write) := by
  rintro ⟨name, level, servers⟩ ⟨name', level', servers'⟩ h
  simp only [table, List.cons.injEq, Prod.mk.injEq, Leaf.text.injEq, Leaf.texts.injEq, true_and,
    and_true] at h
  obtain ⟨rfl, hlevel, rfl⟩ := h
  rw [SigLevel.describe_injective hwrite hlevel]

namespace Config

/-- Everything but the repositories, as a table. -/
def settings (write : Mask.Writer) (c : Config) : Table :=
  [("cache_dir", .texts c.cacheDir),
   ("hold_pkg", .texts c.holdPkg),
   ("sync_first", .texts c.syncFirst),
   ("ignore_group", .texts c.ignoreGroup),
   ("ignore_pkg", .texts c.ignorePkg),
   ("no_extract", .texts c.noExtract),
   ("no_upgrade", .texts c.noUpgrade),
   ("root_dir", .text c.rootDir),
   ("db_path", .text c.dbPath),
   ("gpg_dir", .text c.gpgDir),
   ("log_file", .text c.logFile),
   ("architecture", .text c.architecture),
   ("xfer_command", .text c.xferCommand),
   ("clean_method", .text c.cleanMethod),
   ("sig_level", .text (c.sigLevel.describe write)),
   ("local_file_sig_level", .text (c.localFileSigLevel.describe write)),
   ("remote_file_sig_level", .text (c.remoteFileSigLevel.describe write)),
   ("options", .text (c.options.describe write))]

theorem document_eq (write : Mask.Writer) (c : Config) :
    c.document write = (c.settings write).map (fun m => (m.1, .leaf m.2)) ++
      [("repos", .tables (c.repos.map (Repository.table write)))] := rfl

theorem eq_of_settings {write : Mask.Writer} (hwrite : Mask.Described write) {c c' : Config}
    (hsettings : c.settings write = c'.settings write) (hrepos : c.repos = c'.repos) : c = c' := by
  cases c
  cases c'
  simp only [settings, List.cons.injEq, Prod.mk.injEq, Leaf.text.injEq, Leaf.texts.injEq, true_and,
    and_true, (SigLevel.describe_injective hwrite).eq_iff,
    (OptionFlags.describe_injective hwrite).eq_iff] at hsettings
  simp_all

section
variable {L : Libraries} (hL : L.Documented)
include hL

/-! ## The text of a document -/

theorem eq_of_json {c c' : Config} (h : c.format L .json = c'.format L .json) : c = c' := by
  obtain ⟨write, hwrite, hdocument⟩ := hL.json
  rw [format, format, hdocument, hdocument] at h
  have hcontents := (Json.document_legible hwrite).injective trivial (congrArg String.toList h)
  rw [document_eq, document_eq, List.map_append, List.map_append] at hcontents
  obtain ⟨hsettings, htables⟩ := List.append_inj' hcontents rfl
  have hleaf : Function.Injective fun m : String × Leaf => (m.1, Json.contents (.leaf m.2)) := by
    rintro ⟨name, l⟩ ⟨name', l'⟩ hm
    obtain ⟨hname, hl⟩ := Prod.mk.inj hm
    exact Prod.ext hname (Json.eq_of_contents_leaf hl)
  rw [List.map_map, List.map_map] at hsettings
  have hrepos := Json.eq_of_contents_tables (Prod.mk.inj (List.singleton_inj.1 htables)).2
  exact eq_of_settings hL.mask (hleaf.list_map hsettings)
    ((Repository.table_injective hL.mask).list_map hrepos)

theorem eq_of_toml {c c' : Config} (h : c.format L .toml = c'.format L .toml) : c = c' := by
  obtain ⟨m, hm, hdocument⟩ := hL.toml
  have htext := congrArg String.toList h
  simp only [format, hdocument, document_eq, Toml.document_concat] at htext
  have hnames : (c.settings L.mask).map Prod.fst = (c'.settings L.mask).map Prod.fst := rfl
  obtain ⟨hsettings, htables⟩ := Toml.table_inj hm hnames htext
  have hrepos := Toml.tables_inj hm (fun _ _ => rfl) (by simp) htables
  exact eq_of_settings hL.mask hsettings
    ((Repository.table_injective hL.mask).list_map hrepos)

/-! ## The end of the text -/

/-- JSON ends with a brace, of which nothing is taken. -/
theorem trimEnd_json (c : Config) :
    Text.trimEnd (c.format L .json).toList = (c.format L .json).toList := by
  obtain ⟨write, -, hdocument⟩ := hL.json
  refine Text.trimEnd_eq_self fun d hd => ?_
  have hlast : (c.format L .json).toList.getLast? = some '\x7d' := by
    rw [format, hdocument]
    exact Json.getLast?_document write _
  obtain rfl := Option.some.inj (hlast.symm.trans hd)
  decide

/-- TOML ends with the bracket of a list and a line feed, which is taken. -/
theorem toList_toml (c : Config) :
    (c.format L .toml).toList = Text.trimEnd (c.format L .toml).toList ++ ['\n'] := by
  obtain ⟨m, -, hdocument⟩ := hL.toml
  have hsuffix : [']', '\n'] <:+ (c.format L .toml).toList := by
    simp only [format, hdocument, document_eq, Toml.document_concat]
    refine List.suffix_append_of_suffix (Toml.entry_tables_isSuffix m _ ?_)
    refine List.forall_mem_map.2 fun r _ => ?_
    exact Toml.table_isSuffix m
      [("name", .text r.name), ("sig_level", .text (r.sigLevel.describe L.mask))] "servers"
      r.servers
  obtain ⟨x, hx⟩ := hsuffix
  have hbracket : Text.trimEnd (x ++ [']']) = x ++ [']'] := Text.trimEnd_append x (by decide)
  have htrim : Text.trimEnd (x ++ [']'] ++ ['\n']) = x ++ [']'] := by
    rw [Text.trimEnd_append_blank _ (by simp [Text.isBlank]), hbracket]
  rw [← hx, show x ++ [']', '\n'] = x ++ [']'] ++ ['\n'] by simp, htrim]

end
end Config

namespace CommandLine

/-- **Dumps lose nothing.** Two configurations that are printed alike as JSON are the same, and so
are two that are printed alike as TOML, whatever their texts and masks are, and whichever of the
ways to write a string the libraries choose. -/
theorem dump_eq_dump_iff {L : Libraries} (hL : L.Documented) (c c' : Config) :
    (dump L c .json = dump L c' .json ↔ c = c') ∧ (dump L c .toml = dump L c' .toml ↔ c = c') := by
  have htrim {format : Format} (h : dump L c format = dump L c' format) :
      Text.trimEnd (c.format L format).toList = Text.trimEnd (c'.format L format).toList := by
    simpa [dump, String.ofList_inj] using h
  refine ⟨⟨fun h => ?_, congrArg (dump L · .json)⟩, fun h => ?_, congrArg (dump L · .toml)⟩
  · have htext := htrim h
    rw [Config.trimEnd_json hL, Config.trimEnd_json hL] at htext
    exact Config.eq_of_json hL (String.toList_inj.1 htext)
  · have htext := congrArg (· ++ ['\n']) (htrim h)
    rw [← Config.toList_toml hL, ← Config.toList_toml hL] at htext
    exact Config.eq_of_toml hL (String.toList_inj.1 htext)

/-- A repository, and a server that looks like the end of its table and the header of another one. -/
def headerInServer : Config :=
  { repos := [{ name := "core", servers := ["a\"\"\"]\n\n[[repos]]\nname = 'extra'"] }] }

/-- Two repositories, and a mask with a bit that has no name. -/
def twoRepositories : Config :=
  { repos := [{ name := "core", servers := ["a"] }, { name := "extra", sigLevel := ⟨0x80000001⟩ }] }

/-- Neither format takes one for the other. -/
theorem dump_ne_dump_twoRepositories :
    Libraries.standard.Documented ∧
    dump .standard headerInServer .json ≠ dump .standard twoRepositories .json ∧
    dump .standard headerInServer .toml ≠ dump .standard twoRepositories .toml := by
  have hne : headerInServer ≠ twoRepositories := by decide
  obtain ⟨hjson, htoml⟩ :=
    dump_eq_dump_iff Libraries.documented_standard headerInServer twoRepositories
  exact ⟨Libraries.documented_standard, mt hjson.1 hne, mt htoml.1 hne⟩

end CommandLine
end PackageConf
