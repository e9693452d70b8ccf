import Mathlib.Logic.Function.Basic
import PackageConf.Server
/-!
# Templates of server addresses

A `Template` is put together from texts without a dollar sign and from the two holes `$repo` and
`$arch`. Filling it puts a text in the place of each hole, all at once. The addresses are filled by
two replacements in a row, each of which goes over the whole address; `replace_fill` says what one
of them does to a template in which some holes are filled already. A text that was put in for the
first hole has no dollar sign, so the second replacement finds in it neither its pattern nor the
beginning of one, and the two come to the same as filling (`expandServer_url`).
-/
namespace PackageConf

/-- What an address leaves open. -/
inductive Hole where
  | repo
  | arch
deriving DecidableEq, Repr

namespace Hole

def name : Hole → List Char
  | .repo => ['r', 'e', 'p', 'o']
  | .arch => ['a', 'r', 'c', 'h']

/-- A hole as it is written: its name behind a dollar sign. -/
def mark (h : Hole) : List Char := '$' :: h.name

theorem dollar_not_mem_name (h : Hole) : '$' ∉ h.name := by
  cases h <;> decide

/-- Neither name can be taken for the other, whatever stands behind. -/
theorem name_isPrefixOf_of_ne {g h : Hole} (hne : g ≠ h) (s : List Char) :
    h.name.isPrefixOf (g.name ++ s) = false := by
  cases g <;> cases h <;> simp_all [name, List.isPrefixOf]

end Hole

/-- A piece of an address: a text without a dollar sign, or a hole. -/
inductive Piece where
  | text (s : String) (no_dollar : '$' ∉ s.toList)
  | hole (h : Hole)
deriving DecidableEq

/-- The characters of a piece, `put` being what stands in the place of the holes. -/
def Piece.fill (put : Hole → List Char) : Piece → List Char
  | .text s _ => s.toList
  | .hole h => put h

/-- An address with holes, piece by piece. -/
abbrev Template := List Piece

namespace Template

def fill (put : Hole → List Char) (t : Template) : List Char := t.flatMap (Piece.fill put)

/-- The address as it is written, holes and all. -/
def url (t : Template) : String := String.ofList (t.fill Hole.mark)

/-- The address with both holes filled. -/
def filled (t : Template) (repo arch : String) : String :=
  String.ofList (t.fill fun
    | .repo => repo.toList
    | .arch => arch.toList)

@[simp] theorem fill_nil (put : Hole → List Char) : fill put [] = [] := rfl

@[simp] theorem fill_cons (put : Hole → List Char) (p : Piece) (t : Template) :
    fill put (p :: t) = p.fill put ++ fill put t := rfl

theorem dollar_not_mem_fill {put : Hole → List Char} (hput : ∀ h, '$' ∉ put h) (t : Template) :
    '$' ∉ t.fill put := by
  intro hmem
  obtain ⟨p, -, hp⟩ := List.mem_flatMap.1 hmem
  cases p with
  | text s hs => exact hs hp
  | hole h => exact hput h hp

theorem dollar_not_mem_filled (t : Template) {repo arch : String} (hrepo : '$' ∉ repo.toList)
    (harch : '$' ∉ arch.toList) : '$' ∉ (t.filled repo arch).toList := by
  rw [filled, String.toList_ofList]
  apply dollar_not_mem_fill
  intro h
  cases h
  · exact hrepo
  · exact harch

/-- **One replacement fills one hole.** The other hole may still be open, or be filled with a text
without a dollar sign; what is put in now is free. -/
theorem replace_fill {put : Hole → List Char} (hput : ∀ g, put g = g.mark ∨ '$' ∉ put g) {h : Hole}
    (hopen : put h = h.mark) (new : List Char) (t : Template) :
    Text.replace '$' h.name new (t.fill put) = t.fill (Function.update put h new) := by
  induction t with
  | nil => simp
  | cons p t ih =>
    rw [fill_cons, fill_cons, ← ih]
    cases p with
    | text s hs => exact Text.replace_append_of_not_mem hs h.name new (fill put t)
    | hole g =>
      dsimp only [Piece.fill]
      by_cases hgh : g = h
      · subst hgh
        rw [Function.update_self, hopen]
        exact Text.replace_append_self '$' g.name new (fill put t)
      · rw [Function.update_of_ne hgh]
        rcases hput g with hg | hg
        · rw [hg]
          exact Text.replace_append_of_ne g.dollar_not_mem_name
            (Hole.name_isPrefixOf_of_ne hgh (fill put t)) new
        · exact Text.replace_append_of_not_mem hg h.name new (fill put t)

end Template

def IsTemplate (url : String) : Prop := ∃ t : Template, t.url = url

/-- An address with one hole filled wherever it stands. -/
def substitute (h : Hole) (new url : String) : String :=
  String.ofList (Text.replace '$' h.name new.toList url.toList)

theorem expandServer_eq_substitute (url repo arch : String) :
    expandServer url repo arch = substitute .arch arch (substitute .repo repo url) := by
  simp [expandServer, substitute, Hole.name]

namespace Template

/-- Filling the holes of a template one after the other, in either order, if what is put in first
has no dollar sign. -/
theorem substitute_substitute {g h : Hole} (hgh : g ≠ h) {first : String}
    (hfirst : '$' ∉ first.toList) (second : String) (t : Template) :
    substitute h second (substitute g first t.url) = String.ofList
      (t.fill (Function.update (Function.update Hole.mark g first.toList) h second.toList)) := by
  have hone : ∀ k, Function.update Hole.mark g first.toList k = k.mark ∨
      '$' ∉ Function.update Hole.mark g first.toList k := by
    intro k
    by_cases hk : k = g
    · subst hk
      rw [Function.update_self]
      exact .inr hfirst
    · exact .inl (Function.update_of_ne hk _ _)
  have hopen : Function.update Hole.mark g first.toList h = h.mark :=
    Function.update_of_ne (Ne.symm hgh) _ _
  simp only [substitute, url, String.toList_ofList]
  rw [replace_fill (fun k => .inl rfl) rfl, replace_fill hone hopen]

/-- Expanding a template fills its holes, if the name of the repository has no dollar sign. -/
theorem expandServer_eq_filled (t : Template) {repo : String} (hrepo : '$' ∉ repo.toList)
    (arch : String) : expandServer t.url repo arch = t.filled repo arch := by
  rw [expandServer_eq_substitute, substitute_substitute (by decide) hrepo, filled]
  congr 2
  funext h
  cases h <;> rfl

/-- The architecture can be put in first, if it has no dollar sign. -/
theorem substitute_repo_arch (t : Template) (repo : String) {arch : String}
    (harch : '$' ∉ arch.toList) :
    substitute .repo repo (substitute .arch arch t.url) = t.filled repo arch := by
  rw [substitute_substitute (by decide) harch, filled]
  congr 2
  funext h
  cases h <;> rfl

end Template

/-- A template that has been expanded without dollar signs is no template any more. -/
theorem expandServer_expandServer {url repo arch : String} (h : IsTemplate url)
    (hrepo : '$' ∉ repo.toList) (harch : '$' ∉ arch.toList) (repo' arch' : String) :
    expandServer (expandServer url repo arch) repo' arch' = expandServer url repo arch := by
  obtain ⟨t, rfl⟩ := h
  rw [t.expandServer_eq_filled hrepo]
  exact expandServer_eq_self (t.dollar_not_mem_filled hrepo harch) repo' arch'

/-- **An address is filled in as if at once.** If the name of the repository has no dollar sign,
expanding a template puts the name in the place of each `$repo` and the architecture, whatever it
holds, in the place of each `$arch`, and leaves all other text alone. If the architecture has no
dollar sign either, the holes can be filled in the other order as well, and what comes out stays as
it is, whatever it is expanded with. -/
theorem expandServer_url (t : Template) {repo : String} (hrepo : '$' ∉ repo.toList)
    (arch : String) :
    expandServer t.url repo arch = t.filled repo arch ∧
    ('$' ∉ arch.toList →
      substitute .repo repo (substitute .arch arch t.url) = expandServer t.url repo arch ∧
      ∀ repo' arch', expandServer (expandServer t.url repo arch) repo' arch' =
        expandServer t.url repo arch) := by
  have hfilled := t.expandServer_eq_filled hrepo arch
  refine ⟨hfilled, ?_⟩
  intro harch
  constructor
  · rw [t.substitute_repo_arch repo harch, hfilled]
  · exact expandServer_expandServer ⟨t, rfl⟩ hrepo harch

/-- Both holes, with texts behind them that could go on with their names. -/
def mirrorTemplate : Template :=
  [.text "http://" (by decide), .hole .repo, .text "sitory/" (by decide), .hole .arch,
    .hole .repo, .text "arch" (by decide)]

/-- An architecture that looks like a hole stays in the address; one that does not leaves none. -/
theorem expandServer_url_mirrorTemplate :
    mirrorTemplate.url = "http://$repository/$arch$repoarch" ∧ '$' ∉ "core".toList ∧
    expandServer "http://$repository/$arch$repoarch" "core" "$repo" =
      "http://coresitory/$repocorearch" ∧
    '$' ∉ "x86".toList ∧
    substitute .repo "core" (substitute .arch "x86" "http://$repository/$arch$repoarch") =
      "http://coresitory/x86corearch" ∧
    expandServer "http://coresitory/x86corearch" "$arch" "$repo" =
      "http://coresitory/x86corearch" := by
  have hurl : mirrorTemplate.url = "http://$repository/$arch$repoarch" := rfl
  have hrepo : '$' ∉ "core".toList := by decide
  have harch : '$' ∉ "x86".toList := by decide
  obtain ⟨hlooks, -⟩ := expandServer_url mirrorTemplate hrepo "$repo"
  obtain ⟨hplain, hrest⟩ := expandServer_url mirrorTemplate hrepo "x86"
  obtain ⟨hswap, hfixed⟩ := hrest harch
  have hvalue : mirrorTemplate.filled "core" "x86" = "http://coresitory/x86corearch" := rfl
  rw [hplain, hvalue, hurl] at hswap
  have hagain := hfixed "$arch" "$repo"
  rw [hplain, hvalue] at hagain
  exact ⟨hurl, hrepo, hlooks, harch, hswap, hagain⟩

end PackageConf
