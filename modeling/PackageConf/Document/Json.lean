import PackageConf.Document
import PackageConf.Text.Hex
/-!
# Documents as JSON

The layout is one item to a line, two spaces deeper than the bracket that holds it; brackets with
nothing in them are written together. How a string is written is left open: the format has several
ways for most characters. `string` is one that escapes the quote, the backslash and the controls,
and nothing else.
-/
namespace PackageConf.Json

/-! ## Layout -/

def indent (depth : Nat) : List Char := List.replicate (2 * depth) ' '

/-- Items between brackets that stand at a depth. -/
def bracketed (depth : Nat) (opening closing : Char) (items : List (List Char)) : List Char :=
  match items with
  | [] => [opening, closing]
  | items =>
    opening :: '\n' :: [',', '\n'].intercalate (items.map (indent (depth + 1) ++ ·)) ++
      '\n' :: indent depth ++ [closing]

section
variable (write : String → List Char)

def member (name : String) (value : List Char) : List Char := write name ++ ':' :: ' ' :: value

def leaf (depth : Nat) : Leaf → List Char
  | .text s => write s
  | .texts xs => bracketed depth '[' ']' (xs.map write)

def table (depth : Nat) (t : Table) : List Char :=
  bracketed depth '\x7b' '\x7d' (t.map fun m => member write m.1 (leaf write (depth + 1) m.2))

def entry (depth : Nat) : Entry → List Char
  | .leaf l => leaf write depth l
  | .tables ts => bracketed depth '[' ']' (ts.map (table write (depth + 1)))

def document (d : Document) : String :=
  String.ofList
    (bracketed 0 '\x7b' '\x7d' (d.map fun m => member write m.1 (entry write 1 m.2)))

end

/-! ## Strings -/

/-- One character as it stands in a string. -/
def escape (c : Char) : List Char :=
  match c with
  | '"' => ['\\', '"']
  | '\\' => ['\\', '\\']
  | '\x08' => ['\\', 'b']
  | '\t' => ['\\', 't']
  | '\n' => ['\\', 'n']
  | '\x0c' => ['\\', 'f']
  | '\r' => ['\\', 'r']
  | c => if c.toNat < 0x20 then '\\' :: 'u' :: Text.hexPadded 4 c.toNat else [c]

def string (s : String) : List Char := '"' :: (s.toList.flatMap escape ++ ['"'])

end PackageConf.Json
