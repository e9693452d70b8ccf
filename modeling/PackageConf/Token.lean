import PackageConf.Error
import PackageConf.Text.Split
/-!
# Lines as tokens

Each line stands for itself: a comment (or a blank line), the header of a section, or a key with
values. A header runs from `[` to the first `]`, with nothing but blanks after it. A key ends at
the first `=`, and its values are the words after that; a line without `=` is a key alone.
-/
namespace PackageConf

/-- What a line says. -/
inductive Token where
  | comment
  | header (name : String)
  | key (name : String) (values : List String)
deriving DecidableEq, Repr

namespace Token

/-- The header that opens with a bracket, `rest` being what follows the bracket. -/
def ofBracket (rest : List Char) (line : Nat) : Except ConfigError Token :=
  match Text.cutFirst ']' rest with
  | none => .error (.missingBracket line)
  | some (name, after) =>
    if Text.trim after = [] then .ok (.header (String.ofList name))
    else .error (.trailingCharacters line (String.ofList (Text.trim after)) (String.ofList name))

/-- The key of a line that is neither comment nor header. -/
def ofKey (text : List Char) : Token :=
  match Text.cutFirst '=' text with
  | some (name, values) =>
    .key (String.ofList (Text.trim name)) ((Text.words values).map String.ofList)
  | none => .key (String.ofList text) []

/-- The token of a line without its line end (`tokenize_line`); `line` is the number that errors
name. -/
def ofLine (text : List Char) (line : Nat) : Except ConfigError Token :=
  match Text.trim text with
  | [] | '#' :: _ => .ok .comment
  | '[' :: rest => ofBracket rest line
  | trimmed => .ok (ofKey trimmed)

end Token
end PackageConf
