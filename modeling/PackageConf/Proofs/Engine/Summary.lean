import Mathlib
import PackageConf.Proofs.Text.Legible
import PackageConf.Proofs.Parse.RoundTrip
import PackageConf.Proofs.SigLevel.Canon
import PackageConf.Proofs.Engine.Activation
/-!
# Reading a summary back

Nothing in a summary is quoted, and a name or an address can hold all that the summary itself is
made of: brackets, colons, the words in front of a value. Only line feeds cannot be held. So a
summary is read line by line: where each line stands says what it is about, and an empty line
begins the next repository (`sourceLines_legible`). Of a level the line tells the canonical part,
which for a level made of tokens is all of it. Hence engines whose texts are on one line each have
different summaries if they are different (`summary_eq_iff`).
-/
namespace PackageConf

namespace SigLevel

def summary (l : SigLevel) : String := if l.toTokens = [] then "(default)" else l.text

theorem valuesOf_text (l : SigLevel) : valuesOf l.text = l.toTokens :=
  valuesOf_join isValue_of_mem_toTokens

/-- The sign for the default level is no token. -/
theorem text_ne_default (l : SigLevel) : l.text ≠ "(default)" := by
  intro h
  have htokens : l.toTokens = ["(default)"] := by
    rw [← valuesOf_text, h]
    decide
  have hmem : "(default)" ∈ l.toTokens := by simp [htokens]
  obtain ⟨c, -, hc⟩ := List.mem_map.1 hmem
  have hname := isName_token c
  rw [hc] at hname
  exact hname.not_mem (d := '(') (by decide) (by decide)

theorem toTokens_eq_of_summary {l l' : SigLevel} (h : l.summary = l'.summary) :
    l.toTokens = l'.toTokens := by
  unfold summary at h
  split at h <;> split at h
  · next hl hl' => rw [hl, hl']
  · exact absurd h.symm l'.text_ne_default
  · exact absurd h l.text_ne_default
  · rw [← valuesOf_text, h, valuesOf_text]

/-- The tokens of a level tell its canonical part. -/
theorem canon_eq_of_toTokens {l l' : SigLevel} (h : l.toTokens = l'.toTokens) :
    l.canon = l'.canon := by
  have hresolve (l : SigLevel) : resolve .useDefault l.toTokens = .ok l.canon := by
    rw [← toTokens_canon]
    exact resolve_toTokens (canonical_canon l)
  have hcanon := hresolve l
  rw [h, hresolve l'] at hcanon
  exact (Except.ok.inj hcanon).symm

end SigLevel

def Repository.canon (r : Repository) : Repository := { r with sigLevel := r.sigLevel.canon }

namespace Engine

/-! ## The lines of a repository -/

theorem sourceLines_eq (r : Repository) :
    sourceLines r = "" :: ("[" ++ r.name ++ "]") :: ("  SigLevel: " ++ r.sigLevel.summary) ::
      r.servers.flatMap fun s => ["  Server: " ++ s] := by
  rw [sourceLines, SigLevel.summary, List.map_eq_flatMap]

/-- The first line, if there is one, is empty. -/
def BeginsEmpty (lines : List String) : Prop := ∀ l ∈ lines.head?, l = ""

theorem serverLines_legible :
    Legible BeginsEmpty (List.map id) (List.flatMap fun s : String => ["  Server: " ++ s]) := by
  refine Legible.flatMap (P := Anything) ?_ (fun _ _ => trivial) (fun _ _ => trivial) ?_
  · intro s s' r r' _ _ h
    obtain ⟨hs, hr⟩ := List.cons_eq_cons.1 h
    exact ⟨String.append_right_inj _ |>.1 hs, hr⟩
  · intro r hr s t h
    subst h
    have hempty := hr ("  Server: " ++ s) rfl
    simp at hempty

/-- **The lines of a repository** tell its name, the canonical part of its level and its servers,
and end where an empty line comes. -/
theorem sourceLines_legible : Legible BeginsEmpty Repository.canon sourceLines := by
  intro r r' t t' ht ht' h
  rw [sourceLines_eq, sourceLines_eq] at h
  simp only [List.cons_append, List.cons_eq_cons, true_and] at h
  obtain ⟨hname, hlevel, hservers⟩ := h
  obtain ⟨hs, htt'⟩ := serverLines_legible ht ht' hservers
  have hname : r.name = r'.name := by
    simpa using hname
  have hcanon : r.sigLevel.canon = r'.sigLevel.canon :=
    SigLevel.canon_eq_of_toTokens (SigLevel.toTokens_eq_of_summary (by simpa using hlevel))
  have hs : r.servers = r'.servers := by simpa using hs
  exact ⟨by rw [Repository.canon, Repository.canon, hname, hcanon, hs], htt'⟩

/-! ## Whole summaries -/

def canon (e : Engine) : Engine := { e with sources := e.sources.map Repository.canon }

/-- The lines of a summary tell the engine up to what is canonical of the levels. -/
theorem canon_eq_of_summaryLines {e e' : Engine} (h : e.summaryLines = e'.summaryLines) :
    e.canon = e'.canon := by
  unfold summaryLines at h
  simp only [List.cons_eq_cons] at h
  obtain ⟨hroot, hdbPath, hsources⟩ := h
  have hlegible : Legible (· = []) (List.map Repository.canon) (List.flatMap sourceLines) := by
    refine sourceLines_legible.flatMap ?_ ?_ ?_
    · intro r t l hl
      exact (Option.some.inj hl).symm
    · rintro _ rfl l hl
      cases hl
    · rintro _ rfl r t h
      simp [sourceLines] at h
  have hroot : e.root = e'.root := by simpa using hroot
  have hdbPath : e.dbPath = e'.dbPath := by simpa using hdbPath
  rw [canon, canon, hroot, hdbPath, hlegible.injective rfl hsources]

/-- An engine whose texts are on one line each, and whose levels are made of tokens. -/
structure OneLined (e : Engine) : Prop where
  root : '\n' ∉ e.root.toList
  dbPath : '\n' ∉ e.dbPath.toList
  name : ∀ r ∈ e.sources, '\n' ∉ r.name.toList
  server : ∀ r ∈ e.sources, ∀ s ∈ r.servers, '\n' ∉ s.toList
  level : ∀ r ∈ e.sources, ∃ tokens, SigLevel.resolve .useDefault tokens = .ok r.sigLevel

theorem feed_not_mem_levelSummary (l : SigLevel) : '\n' ∉ l.summary.toList := by
  unfold SigLevel.summary
  split
  · decide
  · rw [SigLevel.text, String.toList_intercalate]
    refine Text.not_mem_join (by decide) ?_
    exact List.forall_mem_map.2 fun v hv => (isValue_of_mem_toTokens v hv).2

theorem OneLined.feed_not_mem {e : Engine} (h : e.OneLined) :
    ∀ l ∈ e.summaryLines, '\n' ∉ l.toList := by
  unfold summaryLines
  refine List.forall_mem_cons.2 ⟨by simp [h.root], List.forall_mem_cons.2 ⟨by simp [h.dbPath], ?_⟩⟩
  intro l hl
  obtain ⟨r, hr, hl⟩ := List.mem_flatMap.1 hl
  rw [sourceLines_eq] at hl
  simp only [List.mem_cons, List.mem_flatMap, List.not_mem_nil, or_false] at hl
  rcases hl with rfl | rfl | rfl | ⟨s, hs, rfl⟩
  · simp
  · simp [h.name r hr]
  · simp [feed_not_mem_levelSummary]
  · simp [h.server r hr s hs]

theorem OneLined.canon_eq {e : Engine} (h : e.OneLined) : e.canon = e := by
  have hsource : ∀ r ∈ e.sources, Repository.canon r = r := by
    intro r hr
    have hcanonical := SigLevel.exists_resolve_iff.1 (h.level r hr)
    rw [Repository.canon, SigLevel.canon_eq_self_iff.2 hcanonical]
  rw [canon, List.map_congr_left hsource, List.map_id']

/-- A summary of lines without line feeds tells the lines. -/
theorem summaryLines_eq_of_summary {e e' : Engine} (h : e.OneLined) (h' : e'.OneLined)
    (hsummary : e.summary = e'.summary) : e.summaryLines = e'.summaryLines := by
  have hpieces := Line.pieces_unlines h.feed_not_mem
  have hpieces' := Line.pieces_unlines h'.feed_not_mem
  rw [← summary] at hpieces hpieces'
  rw [hsummary, hpieces'] at hpieces
  exact (List.map_injective_iff.2 (fun _ _ => String.toList_injective)
    (List.append_cancel_right hpieces)).symm

end Engine

/-! ## Engines of configurations -/

theorem IsJoined.feed_not_mem {s : String} (h : IsJoined s) : '\n' ∉ s.toList := by
  obtain ⟨values, hvalues, rfl⟩ := h
  rw [String.toList_intercalate]
  exact Text.not_mem_join (by decide) (List.forall_mem_map.2 fun v hv => (hvalues v hv).2)

theorem Text.not_mem_replace {d p : Char} {ps new s : List Char} (hnew : d ∉ new) (hs : d ∉ s) :
    d ∉ replace p ps new s := by
  fun_induction replace p ps new s with
  | case1 => simp
  | case2 c s _ ih =>
    have hdrop : d ∉ s.drop ps.length := fun hmem =>
      hs (List.mem_cons_of_mem c (List.mem_of_mem_drop hmem))
    simp [hnew, ih hdrop]
  | case3 c s _ ih =>
    obtain ⟨hc, hs⟩ := not_or.1 (mt List.mem_cons.2 hs)
    simp [hc, ih hs]

theorem feed_not_mem_expandServer {url repo arch : String} (hurl : '\n' ∉ url.toList)
    (hrepo : '\n' ∉ repo.toList) (harch : '\n' ∉ arch.toList) :
    '\n' ∉ (expandServer url repo arch).toList := by
  rw [expandServer, String.toList_ofList]
  exact Text.not_mem_replace harch (Text.not_mem_replace hrepo hurl)

open Repository in
/-- What an engine holds that a representable configuration makes is on one line each. -/
theorem Config.Representable.oneLined {c c' : Config} (hc : c.Representable)
    {host : Except FileError String} {e : Engine} (h : c.activate host = (.ok e, c'))
    (harch : '\n' ∉ c'.architecture.toList) : e.OneLined := by
  have hroot : c.rootDir ≠ "" := by
    intro hroot
    rw [activate_of_emptyRoot hroot] at h
    cases h
  cases heffective : c.effectiveArchitecture host with
  | error cause =>
    rw [activate_of_error hroot heffective] at h
    cases h
  | ok arch =>
    rw [activate_of_ok hroot heffective] at h
    obtain ⟨he, rfl⟩ := Prod.mk.inj h
    obtain rfl := Except.ok.inj he
    have hsource : ∀ r ∈ (registered c.repos).map (expand arch),
        ∃ q ∈ c.repos, r = q.expand arch := by
      intro r hr
      obtain ⟨q, hq, rfl⟩ := List.mem_map.1 hr
      exact ⟨q, mem_of_mem_registered hq, rfl⟩
    refine ⟨(hc.scalar .rootDir).feed_not_mem, (hc.scalar .dbPath).feed_not_mem, ?_, ?_, ?_⟩
    · intro r hr
      obtain ⟨q, hq, rfl⟩ := hsource r hr
      exact (hc.repo q hq).one_line
    · intro r hr s hs
      obtain ⟨q, hq, rfl⟩ := hsource r hr
      obtain ⟨url, hurl, rfl⟩ := List.mem_map.1 hs
      exact feed_not_mem_expandServer ((hc.repo q hq).server url hurl).2 (hc.repo q hq).one_line
        harch
    · intro r hr
      obtain ⟨q, hq, rfl⟩ := hsource r hr
      exact SigLevel.exists_resolve_iff.2 (hc.repo q hq).level

namespace Engine

/-- **No forged lines.** Engines whose texts are on one line each have the same summary only if they
are the same: whatever names, addresses and paths hold, no engine looks like another one. All
engines are such that a configuration makes that was read, if its architecture is on one line. -/
theorem summary_eq_iff :
    (∀ e e' : Engine, e.OneLined → e'.OneLined → (e.summary = e'.summary ↔ e = e')) ∧
    ∀ (fs : FileSystem) (limit : Nat) (bytes : Bytes) (c c' : Config)
      (host : Except FileError String) (e : Engine),
      parse fs bytes limit = .ok c → c.activate host = (.ok e, c') →
        '\n' ∉ c'.architecture.toList → e.OneLined := by
  constructor
  · intro e e' h h'
    refine ⟨fun hsummary => ?_, congrArg summary⟩
    have hcanon := canon_eq_of_summaryLines (summaryLines_eq_of_summary h h' hsummary)
    rw [← h.canon_eq, hcanon, h'.canon_eq]
  · intro fs limit bytes c c' host e hparse hactivate harch
    obtain ⟨d, hd, rfl⟩ := parse_eq_ok_iff.1 hparse
    exact (Draft.representable_of_follow hd).finish.oneLined hactivate harch

/-- A section whose server looks like the header of another one. -/
def forgedText : Bytes := Text.encode "[c]\nServer=[x]\n".toList

def forgedConfig : Config := { repos := [⟨"c", .useDefault, ["[x]"]⟩] }

def forged : Engine := { root := "/", dbPath := "/var/lib/pacman", sources := forgedConfig.repos }

/-- An engine that has the other section as well. -/
def twoSections : Engine :=
  { forged with sources := [⟨"c", .useDefault, []⟩, ⟨"x", .useDefault, []⟩] }

/-- One section is not taken for two. -/
theorem summary_forged_ne :
    forged.OneLined ∧ twoSections.OneLined ∧
    (forged.summary = twoSections.summary ↔ forged = twoSections) ∧
    forged.summary ≠ twoSections.summary := by
  obtain ⟨hsame, hmade⟩ := summary_eq_iff
  have hforged : forged.OneLined := by
    have hparse : parse (.ofList []) forgedText 1 = .ok forgedConfig := by cbv
    have hactivate : forgedConfig.activate (.ok "x86") = (.ok forged, forgedConfig) := by cbv
    exact hmade _ _ _ _ _ _ _ hparse hactivate (by decide)
  have htwo : twoSections.OneLined :=
    { root := by decide
      dbPath := by decide
      name := by decide
      server := by decide
      level := fun r hr => ⟨[], by
        revert r
        decide⟩ }
  have hiff := hsame forged twoSections hforged htwo
  exact ⟨hforged, htwo, hiff, fun h => absurd (hiff.1 h) (by decide)⟩

end Engine
end PackageConf
