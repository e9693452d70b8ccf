/-!
# Masks of named bits

A `Mask` is a word of 32 bits, some of which have names. `has` asks for all bits of another mask,
`without` clears them, and `describe` writes the names of the bits that are set, in the order of
the table of names, and last the bits that have none as one number. How the number is written is
left open.
-/
namespace PackageConf

abbrev Mask := BitVec 32

namespace Mask

def has (m f : Mask) : Bool := m &&& f == f

def without (m f : Mask) : Mask := m &&& ~~~f

/-- The bits of a table of names. -/
def named (table : List (String × Mask)) : Mask := table.foldr (fun e m => e.2 ||| m) 0

/-- How masks are written whose bits have the names of a table. -/
abbrev Writer := List (String × Mask) → Mask → String

/-- The names of the bits that are set, and the number of those left over. -/
def parts (digits : Mask → List Char) (table : List (String × Mask)) (m : Mask) : List String :=
  let rest := m.without (named table)
  (table.filter fun e => m.has e.2).map (·.1) ++
    if rest = 0 then [] else [String.ofList ('0' :: 'x' :: digits rest)]

/-- The text of a mask; the empty mask has the empty text. -/
def describe (digits : Mask → List Char) : Writer := fun table m =>
  " | ".intercalate (parts digits table m)

/-- The text of a mask inside the name of its type, where the empty mask is a zero. -/
def debug (write : Writer) (typeName : String) (table : List (String × Mask)) (m : Mask) : String :=
  let inner := if m = 0 then "0x0" else write table m
  typeName ++ "(" ++ inner ++ ")"

theorem has_iff {m f : Mask} : m.has f = true ↔ ∀ i, f.getLsbD i = true → m.getLsbD i = true := by
  rw [has, beq_iff_eq]
  constructor
  · intro h i hi
    have := congrArg (·.getLsbD i) h
    simp only [BitVec.getLsbD_and] at this
    simp_all
  · intro h
    ext i hi
    have := h i
    simp only [BitVec.getElem_and, BitVec.getLsbD_eq_getElem hi] at this ⊢
    cases hf : f[i] <;> simp_all

theorem getLsbD_without (m f : Mask) (i : Nat) :
    (m.without f).getLsbD i = (m.getLsbD i && !f.getLsbD i) := by
  by_cases h : i < 32
  · simp [without, h]
  · simp [without, BitVec.getLsbD_of_ge _ _ (Nat.le_of_not_lt h)]

end Mask
end PackageConf
