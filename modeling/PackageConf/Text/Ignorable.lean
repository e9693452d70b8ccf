/-!
# Characters that are not meant to be seen

The Unicode property Default_Ignorable_Code_Point (version 17.0) as the ranges of code points that
have it, in ascending order, each given by its first and its last member. Next to joiners,
selectors and marks of direction these are the fillers of Hangul, which are letters without a shape.
-/
namespace PackageConf.Text

def ignorableRanges : List (Nat × Nat) := [
  (0xAD, 0xAD), (0x34F, 0x34F), (0x61C, 0x61C), (0x115F, 0x1160), (0x17B4, 0x17B5),
  (0x180B, 0x180F), (0x200B, 0x200F), (0x202A, 0x202E), (0x2060, 0x206F), (0x3164, 0x3164),
  (0xFE00, 0xFE0F), (0xFEFF, 0xFEFF), (0xFFA0, 0xFFA0), (0xFFF0, 0xFFF8), (0x1BCA0, 0x1BCA3),
  (0x1D173, 0x1D17A), (0xE0000, 0xE0FFF)]

/-- May `c` be passed over when a text is shown? -/
def isIgnorable (c : Char) : Bool :=
  ignorableRanges.any fun r => r.1 ≤ c.toNat && c.toNat ≤ r.2

end PackageConf.Text
