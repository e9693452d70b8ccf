import PackageConf.Text.GraphemeExtend
import PackageConf.Text.Hex
import PackageConf.Text.Ignorable
import PackageConf.Text.Printable
/-!
# Quoted text in messages

A text inside a message is written between double quotes. Quotes and backslashes get a backslash,
the four common controls have their letter, and every other character that would not show up as a
character of its own is written as its code point in braces.
-/
namespace PackageConf.Text

/-- The voiced and the semi-voiced sound mark in half width. -/
def isHalfwidthSoundMark (c : Char) : Bool := c == '\uFF9E' || c == '\uFF9F'

/-- Does `c` show up as a character of its own? What combines with the character before it does
not, except for the halfwidth sound marks: they belong to the letter before them, but take a place
of their own. -/
def isShown (c : Char) : Bool :=
  (!isGraphemeExtend c || isHalfwidthSoundMark c) && !isIgnorable c && isPrintable c

/-- One character as it stands between the quotes. -/
def quoteChar (c : Char) : List Char :=
  match c with
  | '\x00' => ['\\', '0']
  | '\t' => ['\\', 't']
  | '\r' => ['\\', 'r']
  | '\n' => ['\\', 'n']
  | '"' => ['\\', '"']
  | '\\' => ['\\', '\\']
  | c => if isShown c then [c] else ['\\', 'u', '\x7b'] ++ hex c.toNat ++ ['\x7d']

/-- A text between double quotes, escaped so that it can be told where it ends. -/
def quoted (s : String) : String :=
  String.ofList ('"' :: s.toList.flatMap quoteChar ++ ['"'])

end PackageConf.Text
