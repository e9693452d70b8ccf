/-!
# Hexadecimal digits

`hex n` writes `n` in lower case without leading zeros, `hexPadded` fills it up with zeros on the
left to a given width.
-/
namespace PackageConf.Text

/-- The hexadecimal digits of `n`, in lower case. -/
def hex (n : Nat) : List Char := Nat.toDigits 16 n

def hexPadded (width n : Nat) : List Char :=
  List.replicate (width - (hex n).length) '0' ++ hex n

/-- The digits of `hexPadded` in upper case. -/
def hexUpper (width n : Nat) : List Char := (hexPadded width n).map Char.toUpper

end PackageConf.Text
