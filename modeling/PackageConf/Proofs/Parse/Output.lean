import PackageConf.Proofs.Config.Representable
import PackageConf.Proofs.Line.Grammar
import PackageConf.Proofs.Parse.Reading
import PackageConf.Proofs.Text.Utf8
/-!
# What can come out

Whatever the bytes of a line are, ill-formed or with blanks of any kind, a token that is read from
it is well-formed (`wellFormed_of_token?`): the content has no line feed, decoding makes none, and
trimming and splitting only leave characters away. From there every draft of a run is
representable (`representable_of_follow`), in files of any nesting.
-/
namespace PackageConf

namespace Line

theorem Reads.feed_not_mem {bytes line : Bytes} {text : List Char} (h : Reads line text)
    (hline : line ∈ lines bytes) : '\n' ∉ text := by
  rw [← h.2]
  exact fun hmem =>
    Text.feed_not_mem_decode (feed_not_mem_content hline) (Text.mem_of_mem_trim hmem)

/-- A line has a well-formed token, if it has one. -/
theorem wellFormed_of_token? {bytes line : Bytes} {t : Token} (hline : line ∈ lines bytes)
    (h : token? line = some t) : t.WellFormed := by
  have ht := (token?_eq_some_iff 0).1 h
  cases t with
  | comment => trivial
  | header name =>
    obtain ⟨after, hr, hname, -⟩ := token_eq_header_iff.1 ht
    refine ⟨hname, fun hmem => hr.feed_not_mem hline ?_⟩
    exact List.mem_cons_of_mem _ (List.mem_append_left _ hmem)
  | key name values =>
    obtain ⟨text, hr, -, -, -, ⟨before, after, rfl, -, -, rfl⟩ | ⟨-, -, rfl⟩⟩ :=
      token_eq_key_iff.1 ht
    · intro v hv
      obtain ⟨w, hw, rfl⟩ := List.mem_map.1 hv
      rw [IsValue, String.toList_ofList]
      refine ⟨Text.isWord_of_mem_words hw, fun hmem => hr.feed_not_mem hline ?_⟩
      exact List.mem_append_right _ (List.mem_cons_of_mem _ (Text.mem_of_mem_words hw hmem))
    · simp [Token.WellFormed]

end Line

/-! ## Drafts -/

/-- The settings and the repository that is open are representable. -/
structure Draft.Representable (d : Draft) : Prop where
  config : d.config.Representable
  current : ∀ r ∈ d.current, r.Representable

namespace Draft

theorem representable_start : ({} : Draft).Representable where
  config := Config.representable_default
  current r hr := by cases hr

theorem Representable.finish {d : Draft} (h : d.Representable) : d.finish.Representable := by
  rw [finish_eq]
  have htakes : d.config.Takes [] d.config := .of_given_eq_nil fun _ => rfl
  refine h.config.of_takes (htakes.of_repos d.config.repos _) (by simp) fun r hr => ?_
  rcases List.mem_append.1 hr with hr | hr
  · exact h.config.repo r hr
  · exact h.current r (Option.mem_toList.1 hr)

theorem Representable.hear {d d' : Draft} {t : Token} (h : d.Representable) (ht : t.WellFormed)
    (hd : d.hear (some t) = some d') : d'.Representable := by
  cases hh : t.header? with
  | some name =>
    obtain rfl := Token.header?_eq_some_iff.1 hh
    obtain rfl : d.header name = d' := Option.some.inj hd
    refine ⟨?_, fun r hr => ?_⟩
    · rw [config_header]
      exact h.finish
    · rw [current_header] at hr
      split at hr
      · cases hr
      · next hname =>
        obtain rfl := Option.some.inj hr
        exact ⟨ht.1, ht.2, hname, by simp, SigLevel.canonical_useDefault⟩
  | none =>
    have hts : ∀ u ∈ [t], u.WellFormed := List.forall_mem_singleton.2 ht
    rcases cases_hear hh hd with ⟨-, hnone, hrepos, htakes⟩ | ⟨r, r', hr, hr', hconf, htakes⟩
    · refine ⟨h.config.of_takes htakes hts ?_, fun r hr => by rw [hnone] at hr; cases hr⟩
      rw [hrepos]
      exact h.config.repo
    · refine ⟨hconf ▸ h.config, fun q hq => ?_⟩
      rw [hr'] at hq
      obtain rfl := Option.some.inj hq
      exact (h.current r hr).of_takes htakes hts

theorem Representable.foldlM {ts : List Token} {d d' : Draft} (h : d.Representable)
    (hts : ∀ t ∈ ts, t.WellFormed) (hd : (ts.map some).foldlM Draft.hear d = some d') :
    d'.Representable := by
  induction ts generalizing d with
  | nil =>
    obtain rfl := Option.some.inj hd
    exact h
  | cons t ts ih =>
    rw [List.map_cons, List.foldlM_cons] at hd
    obtain ⟨d₁, h₁, hd⟩ := Option.bind_eq_some_iff.1 hd
    obtain ⟨ht, hts⟩ := List.forall_mem_cons.1 hts
    exact ih (h.hear ht h₁) hts hd

/-- **A run makes a representable draft**, whatever the files hold and however they include each
other. -/
theorem representable_of_follow {fs : FileSystem} {limit : Nat} {bytes : Bytes} {d : Draft}
    (h : ({} : Draft).follow fs limit (visits fs limit 0 0 (Line.lines bytes)) = .ok d) :
    d.Representable := by
  have hheard := (follow_eq_ok_iff.1 h).2
  obtain ⟨ts, hts⟩ := exists_tokens_of_foldlM hheard
  rw [hts] at hheard
  refine representable_start.foldlM (fun t ht => ?_) hheard
  have hsaid : some t ∈ (visits fs limit 0 0 (Line.lines bytes)).filterMap Visit.said? := by
    rw [hts]
    exact List.mem_map_of_mem ht
  obtain ⟨v, hv, hvt⟩ := List.mem_filterMap.1 hsaid
  cases v with
  | unreadable cause => simp [Visit.said?] at hvt
  | line depth number line =>
    obtain ⟨y, -, -, hline⟩ := located_of_mem_visits hv
    simp only [Visit.said?] at hvt
    split at hvt
    · cases hvt
    · exact Line.wellFormed_of_token? (List.mem_of_getElem? hline) (Option.some.inj hvt)

end Draft

/-- **What is read is representable.** Of whatever bytes a configuration is read and whatever files
they include, its values are words, its section names can stand in brackets, its flags have names
and its signature levels are canonical. -/
theorem representable_of_parse {fs : FileSystem} {limit : Nat} {bytes : Bytes} {c : Config}
    (h : parse fs bytes limit = .ok c) : c.Representable := by
  obtain ⟨d, hf, rfl⟩ := parse_eq_ok_iff.1 h
  exact (Draft.representable_of_follow hf).finish

/-- A file with one server, whose bytes are a byte that is no UTF-8, a vertical tab, a space and a
carriage return that ends no line. -/
def oddFiles : FileSystem := .ofList
  [("m", .ok (.bytes (Text.encode "Server=".toList ++ [0xFF, 0x0B, 0x20, 0x0D])))]

def oddText : Bytes := Text.encode "[c]\r\nInclude=m".toList

/-- Of the value a replacement character is left. -/
theorem representable_of_parse_oddText :
    parse oddFiles oddText 1 = .ok { repos := [{ name := "c", servers := ["\uFFFD"] }] } ∧
    ({ repos := [{ name := "c", servers := ["\uFFFD"] }] } : Config).Representable := by
  have hread : parse oddFiles oddText 1 =
      .ok { repos := [{ name := "c", servers := ["\uFFFD"] }] } := by cbv
  exact ⟨hread, representable_of_parse hread⟩

end PackageConf
