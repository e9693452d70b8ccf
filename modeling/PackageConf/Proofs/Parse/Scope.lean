import PackageConf.Proofs.Parse.Visits
/-!
# Repositories by their number

A `Draft` keeps the repository whose section is open beside those that are complete. One can as
well put a repository into the configuration when its header is read and remember its number in
the list, as `parse_from` does. Such a `Numbered` configuration gives a key to the repository of
that number, and there has to be one.

The two ways to keep the open repository agree line by line (`numbered_header`, `numbered_key`) and
therefore on every text with all that it includes (`follow_eq_parse`). There always is a repository
of the number, and it is the last one (`exists_follow`).
-/
namespace PackageConf

/-- A configuration, and the number of the repository that keys are given to; without a number they
are given to the options. -/
structure Numbered where
  config : Config := .default
  scope : Option Nat := none
deriving DecidableEq, Repr

namespace Numbered

def header (s : Numbered) (name : String) : Numbered :=
  if name = Draft.optionsName then { s with scope := none }
  else
    { config := { s.config with repos := s.config.repos ++ [{ name }] },
      scope := some s.config.repos.length }

/-- A key in the section that is open. There is no answer if no repository has its number. -/
def key (s : Numbered) (line : Nat) (name : String) (values : List String) :
    Option (Except ConfigError Numbered) :=
  match s.scope with
  | none => some ((s.config.assign line name values).map fun c => { s with config := c })
  | some i => s.config.repos[i]?.map fun r =>
      (r.assign line name values).map fun r =>
        { s with config := { s.config with repos := s.config.repos.set i r } }

/-- A token on line `number`, with `depth` includes open. -/
def take (fs : FileSystem) (limit depth number : Nat) (s : Numbered) :
    Token → Option (Except ConfigError Numbered)
  | .comment => some (.ok s)
  | .header name => some (.ok (s.header name))
  | .key name values =>
    if name = ParseState.includeName then
      some ((checkInclude fs limit depth number values).map fun _ => s)
    else s.key number name values

def act (fs : FileSystem) (limit : Nat) (s : Numbered) :
    Visit → Option (Except ConfigError Numbered)
  | .line depth number bytes =>
    match Line.token bytes number with
    | .ok t => s.take fs limit depth number t
    | .error e => some (.error e)
  | .unreadable cause => some (.error (.io cause))

/-- All visits one after the other, until one fails or finds no repository. -/
def follow (fs : FileSystem) (limit : Nat) (s : Numbered) :
    List Visit → Option (Except ConfigError Numbered)
  | [] => some (.ok s)
  | v :: vs =>
    match s.act fs limit v with
    | some (.ok s') => s'.follow fs limit vs
    | other => other

variable {s : Numbered}

/-- With the open repository a key does what it does by itself. -/
theorem key_repo {i : Nat} {r : Repository} (hs : s.scope = some i)
    (hr : s.config.repos[i]? = some r) (line : Nat) (name : String) (values : List String) :
    s.key line name values = some ((r.assign line name values).map fun r =>
      { s with config := { s.config with repos := s.config.repos.set i r } }) := by
  simp [key, hs, hr]

theorem key_options (hs : s.scope = none) (line : Nat) (name : String) (values : List String) :
    s.key line name values =
      some ((s.config.assign line name values).map fun c => { s with config := c }) := by
  simp [key, hs]

/-- The number, if there is one, is that of the last repository. -/
def Last (s : Numbered) : Prop := ∀ i ∈ s.scope, i + 1 = s.config.repos.length

end Numbered

/-! ## The same as a draft -/

namespace Draft

/-- The draft with the open repository among the others. -/
def numbered (d : Draft) : Numbered where
  config := d.finish
  scope := d.current.map fun _ => d.config.repos.length

theorem last_numbered (d : Draft) : d.numbered.Last := by
  obtain ⟨c, current⟩ := d
  cases current with
  | none => rintro i ⟨⟩
  | some r =>
    rintro i ⟨⟩
    simp [numbered, finish]

theorem numbered_header (d : Draft) (name : String) :
    (d.header name).numbered = d.numbered.header name := by
  unfold header Numbered.header
  split <;> rfl

/-- The number of the draft finds the repository that is open in it. -/
theorem numbered_key (d : Draft) (line : Nat) (name : String) (values : List String) :
    d.numbered.key line name values = some ((d.key line name values).map numbered) := by
  obtain ⟨c, current⟩ := d
  cases current with
  | none =>
    rw [Numbered.key_options rfl, key]
    cases hc : c.assign line name values <;> simp [numbered, finish, hc, Except.map]
  | some r =>
    have hr : (numbered ⟨c, some r⟩).config.repos[c.repos.length]? = some r := by
      simp [numbered, finish]
    rw [Numbered.key_repo rfl hr, key]
    cases hr : r.assign line name values <;> simp [numbered, finish, hr, Except.map]

theorem numbered_act (fs : FileSystem) (limit : Nat) (d : Draft) (v : Visit) :
    d.numbered.act fs limit v = some ((v.act fs limit d).map numbered) := by
  cases v with
  | unreadable cause => rfl
  | line depth number bytes =>
    rw [Numbered.act, Visit.act]
    cases Line.token bytes number with
    | error e => rfl
    | ok t =>
      cases t with
      | comment => rfl
      | header name => exact congrArg (some ∘ Except.ok) (numbered_header d name).symm
      | key name values =>
        simp only [Numbered.take, take]
        split
        · cases checkInclude fs limit depth number values <;> rfl
        · exact numbered_key d number name values

theorem numbered_follow (fs : FileSystem) (limit : Nat) (d : Draft) (vs : List Visit) :
    d.numbered.follow fs limit vs = some ((d.follow fs limit vs).map numbered) := by
  induction vs generalizing d with
  | nil => rfl
  | cons v vs ih =>
    rw [Numbered.follow, follow, numbered_act]
    cases v.act fs limit d with
    | error e => rfl
    | ok d' => exact ih d'

end Draft

namespace Numbered

/-- **The number is good at every point.** Whatever has been read, each key found its repository, and
the one that is open now is the last. -/
theorem exists_follow (fs : FileSystem) (limit : Nat) (vs : List Visit) :
    ∃ answer, ({} : Numbered).follow fs limit vs = some answer ∧
      ∀ s, answer = .ok s → s.Last := by
  refine ⟨_, Draft.numbered_follow fs limit {} vs, fun s hs => ?_⟩
  obtain ⟨d, -, rfl⟩ := Except.map_eq_ok_iff.1 hs
  exact d.last_numbered

/-- Reading with numbers comes to the configuration, or to the error, that `parse` comes to. -/
theorem follow_eq_parse (fs : FileSystem) (limit : Nat) (bytes : Bytes) :
    (({} : Numbered).follow fs limit (visits fs limit 0 0 (Line.lines bytes))).map
      (·.map config) = some (parse fs bytes limit) := by
  rw [show ({} : Numbered) = ({} : Draft).numbered from rfl, Draft.numbered_follow,
    parse_eq_follow]
  cases ({} : Draft).follow fs limit (visits fs limit 0 0 (Line.lines bytes)) <;> rfl

end Numbered
end PackageConf
