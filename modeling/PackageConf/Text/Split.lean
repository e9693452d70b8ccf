import PackageConf.Text.Blank
/-!
# Cutting a text at a separator

`cutFirst` cuts at the first separator only, `pieces` at every one, and `words` gives the pieces
between spaces with the blanks around them trimmed and the empty ones dropped.
-/
namespace PackageConf.Text

/-- The text before the first `d` and the text after it, if there is a `d`. -/
def cutFirst (d : Char) : List Char → Option (List Char × List Char)
  | [] => none
  | c :: s => if c = d then some ([], s) else (cutFirst d s).map fun p => (c :: p.1, p.2)

/-- The texts between the separators `d`; one more than there are separators. -/
def pieces (d : Char) : List Char → List (List Char)
  | [] => [[]]
  | c :: s =>
    if c = d then [] :: pieces d s
    else match pieces d s with
      | [] => [[c]]
      | p :: ps => (c :: p) :: ps

/-- The non-empty trimmed pieces between single spaces (`split_values`). -/
def words (s : List Char) : List (List Char) :=
  ((pieces ' ' s).map trim).filter (· ≠ [])

/-- What follows `start` in a text that begins with it. -/
def remainder? (start s : List Char) : Option (List Char) :=
  if start.isPrefixOf s then some (s.drop start.length) else none

def unlines (lines : List String) : String :=
  String.ofList (lines.flatMap fun l => l.toList ++ ['\n'])

theorem cutFirst_eq_none_iff {d : Char} {s : List Char} : cutFirst d s = none ↔ d ∉ s := by
  induction s with
  | nil => simp [cutFirst]
  | cons c s ih =>
    by_cases h : c = d
    · simp [cutFirst, h]
    · simp [cutFirst, h, ih, Ne.symm h]

theorem cutFirst_eq_some_iff {d : Char} {s before after : List Char} :
    cutFirst d s = some (before, after) ↔ s = before ++ d :: after ∧ d ∉ before := by
  induction s generalizing before with
  | nil => simp [cutFirst]
  | cons c s ih =>
    by_cases h : c = d
    · subst h
      cases before with
      | nil => simp [cutFirst, eq_comm]
      | cons b bs => simp [cutFirst]; grind
    · cases before with
      | nil => simp [cutFirst, h]
      | cons b bs =>
        simp only [cutFirst, h, if_false, Option.map_eq_some_iff, Prod.exists, Prod.mk.injEq,
          List.cons.injEq, List.cons_append, List.mem_cons, not_or]
        constructor
        · rintro ⟨x, y, hxy, ⟨rfl, rfl⟩, rfl⟩
          obtain ⟨rfl, hx⟩ := ih.1 hxy
          exact ⟨⟨rfl, rfl⟩, fun e => h e.symm, hx⟩
        · rintro ⟨⟨rfl, rfl⟩, -, hx⟩
          exact ⟨bs, after, ih.2 ⟨rfl, hx⟩, ⟨rfl, rfl⟩, rfl⟩

theorem pieces_ne_nil (d : Char) (s : List Char) : pieces d s ≠ [] := by
  induction s with
  | nil => simp [pieces]
  | cons c s _ =>
    simp only [pieces]
    split
    · simp
    · split <;> simp

end PackageConf.Text
