import PackageConf.Document
import PackageConf.Text.Hex
/-!
# Documents as TOML

One line for each name, except that a list may get a line for each of its texts, and that tables
follow under headers of their own. Which lists are spread over lines, and how a string is written,
is left open: a `Manner` decides it. In `Manner.standard` lists of two and more texts are spread,
and of the ways to write a string the first one is taken that needs no escapes, and when there is
none, double quotes with escapes.
-/
namespace PackageConf.Toml

/-! ## Layout -/

/-- What the format leaves open. -/
structure Manner where
  /-- A string with its quotes. -/
  string : String → List Char
  /-- Does each text of the list get a line of its own? -/
  spread : List String → Bool

section
variable (m : Manner)

def itemLine (x : String) : List Char := [' ', ' ', ' ', ' '] ++ (m.string x ++ [',', '\n'])

def leaf : Leaf → List Char
  | .text s => m.string s
  | .texts xs =>
    if m.spread xs then '[' :: '\n' :: (xs.flatMap (itemLine m) ++ [']'])
    else '[' :: ([',', ' '].intercalate (xs.map m.string) ++ [']'])

/-- A name with its value, on lines of their own. -/
def line (name : String) (value : List Char) : List Char :=
  name.toList ++ [' ', '=', ' '] ++ value ++ ['\n']

def table (t : Table) : List Char := t.flatMap fun e => line e.1 (leaf m e.2)

/-- A named value at the top. Each of several tables gets a header and an empty line before it. -/
def entry (name : String) : Entry → List Char
  | .leaf l => line name (leaf m l)
  | .tables [] => line name ['[', ']']
  | .tables ts =>
    ts.flatMap fun t => ['\n', '[', '['] ++ name.toList ++ [']', ']', '\n'] ++ table m t

def document (d : Document) : String := String.ofList (d.flatMap fun e => entry m e.1 e.2)

end

/-! ## Strings -/

/-- The ways to write a string: between double or single quotes, one or three of them. Only
between double quotes are there escapes, and only between three quotes are there line feeds. -/
inductive Style where
  | basic
  | literal
  | multilineBasic
  | multilineLiteral
deriving DecidableEq, Repr

/-- Controls other than the tab and the line feed. -/
def isControl (c : Char) : Bool :=
  (c.toNat < 0x20 && c != '\t' && c != '\n') || c.toNat == 0x7F

/-- The length of the longest run of `q`, if `run` more of them stand in front. -/
def longestRun (q : Char) (run : Nat) : List Char → Nat
  | [] => run
  | c :: s => if c = q then longestRun q (run + 1) s else max run (longestRun q 0 s)

/-- The style a text is written in. -/
def style (s : List Char) : Style :=
  let control := s.any isControl
  let plain := !control && !s.contains '\\'
  let lines := s.contains '\n'
  let singles := longestRun '\'' 0 s
  let doubles := longestRun '"' 0 s
  if plain && doubles == 0 && !lines then .basic
  else if !control && singles == 0 && !lines then .literal
  else if plain && doubles ≤ 2 then .multilineBasic
  else if !control && singles ≤ 2 then .multilineLiteral
  else if lines then .multilineBasic
  else .basic

/-- A character between double quotes, neither quote nor line feed. -/
def escape (c : Char) : List Char :=
  match c with
  | '\x08' => ['\\', 'b']
  | '\t' => ['\\', 't']
  | '\x0c' => ['\\', 'f']
  | '\r' => ['\\', 'r']
  | '\\' => ['\\', '\\']
  | c => if isControl c then '\\' :: 'u' :: Text.hexUpper 4 c.toNat else [c]

/-- A character between single double quotes. -/
def escapeBasic (c : Char) : List Char :=
  match c with
  | '\n' => ['\\', 'n']
  | '"' => ['\\', '"']
  | c => escape c

/-- A text between triple double quotes, after `run` quotes: every third quote is escaped, so that
no three of them stand together. -/
def escapeLines (run : Nat) : List Char → List Char
  | [] => []
  | '"' :: s =>
    if run = 2 then '\\' :: '"' :: escapeLines 0 s else '"' :: escapeLines (run + 1) s
  | '\n' :: s => '\n' :: escapeLines 0 s
  | c :: s => escape c ++ escapeLines 0 s

def quoted (q : Char) (body : List Char) : List Char := q :: (body ++ [q])

def tripled (q : Char) (body : List Char) : List Char := q :: q :: q :: (body ++ [q, q, q])

/-- The body of a text, with a line feed in front if there is one in the text. -/
def fed (s body : List Char) : List Char := if s.contains '\n' then '\n' :: body else body

/-- A text in a given style. -/
def styled (s : List Char) : Style → List Char
  | .basic => quoted '"' (s.flatMap escapeBasic)
  | .literal => quoted '\'' s
  | .multilineBasic => tripled '"' (fed s (escapeLines 0 s))
  | .multilineLiteral => tripled '\'' (fed s s)

def string (s : String) : List Char := styled s.toList (style s.toList)

/-- Lists of two and more texts get a line for each, and strings the style that suits them. -/
def Manner.standard : Manner where
  string := Toml.string
  spread xs := 2 ≤ xs.length

end PackageConf.Toml
