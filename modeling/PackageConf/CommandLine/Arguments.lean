import PackageConf.CommandLine.Request
/-!
# Arguments of the command line

Arguments are read in two passes. `scan` notes what is given: options may be written long or
short, with their value attached or as the next argument, short ones may be written together, and
after `--` nothing is an option any more. A command ends the general arguments, and what follows
belongs to the command, which knows the general options as well. `Invocation.ofSeen` then checks
the values: an option may be given once on each side of the command, and the later side counts.
Completions for the shell are not among the commands here.
-/
namespace PackageConf.CommandLine

def Format.ofName? : String → Option Format
  | "json" => some .json
  | "toml" => some .toml
  | "conf" => some .conf
  | _ => none

inductive CommandName where
  | dump
  | repos
  | siglevel
deriving DecidableEq, Repr

def CommandName.ofName? : String → Option CommandName
  | "dump" => some .dump
  | "repos" => some .repos
  | "siglevel" => some .siglevel
  | _ => none

/-- What is said about arguments that are answered at once. -/
inductive Notice where
  | version
  | help
  /-- Arguments that make no sense. -/
  | usage
deriving DecidableEq, Repr

def versionText : String := "pacconf 0.0.1\n"

def usageText : String :=
  "Usage: pacconf [-c PATH] [--max-include-depth N] [-v] [-q] (dump [-f json|toml|conf] | repos [--json] | siglevel TOKEN...)\n"

def Notice.outcome : Notice → Outcome
  | .version => { output := versionText }
  | .help => { output := usageText }
  | .usage => { status := 2, errors := usageText }

/-! ## First pass: what is given -/

inductive ValueOption where
  | config
  | includeLimit
  | format
deriving DecidableEq, Repr

inductive Switch where
  | verbose
  | quiet
  | json
  | version
  | help
deriving DecidableEq, Repr

inductive Opt where
  | value (o : ValueOption)
  | switch (s : Switch)
deriving DecidableEq, Repr

/-- The options known before a command (`none`) and after one, by long name and by letter. -/
def options (command : Option CommandName) : List (String × Option Char × Opt) :=
  [("config", some 'c', .value .config), ("max-include-depth", none, .value .includeLimit),
   ("verbose", some 'v', .switch .verbose), ("quiet", some 'q', .switch .quiet),
   ("help", some 'h', .switch .help)] ++
  match command with
  | none => [("version", some 'V', .switch .version)]
  | some .dump => [("format", some 'f', .value .format)]
  | some .repos => [("json", none, .switch .json)]
  | some .siglevel => []

/-- What was given on one side of the command. A value is missing where an option was last. -/
structure Seen where
  values : List (ValueOption × Option String) := []
  switches : List Switch := []
  words : List String := []
deriving DecidableEq, Repr

namespace Seen

/-- Note an option with its value. -/
def value (s : Seen) (o : ValueOption) (v : Option String) : Seen :=
  { s with values := s.values ++ [(o, v)] }

/-- Note that an option still lacks its value, if there is such an option. -/
def abandon (s : Seen) (pending : Option ValueOption) : Seen :=
  match pending with
  | some o => s.value o none
  | none => s

def switch (s : Seen) (x : Switch) : Seen := { s with switches := s.switches ++ [x] }

def word (s : Seen) (w : String) : Seen := { s with words := s.words ++ [w] }

end Seen

/-- Note an option; the answer is at hand if it is one that asks for version or help. -/
def note (s : Seen) (x : Switch) : Except Notice Seen :=
  match x with
  | .version => .error .version
  | .help => .error .help
  | x => .ok (s.switch x)

/-- Note a long option, `text` being what follows the two dashes. The result has the option that
waits for its value. -/
def long (command : Option CommandName) (s : Seen) (text : List Char) :
    Except Notice (Seen × Option ValueOption) :=
  let (name, attached) := match Text.cutFirst '=' text with
    | some (name, v) => (name, some (String.ofList v))
    | none => (text, none)
  match (options command).find? (·.1.toList == name) with
  | some (_, _, .value o) =>
    match attached with
    | some v => .ok (s.value o (some v), none)
    | none => .ok (s, some o)
  | some (_, _, .switch x) =>
    if attached.isSome then .error .usage else (note s x).map (·, none)
  | none => .error .usage

/-- Note short options, written together behind one dash. -/
def short (command : Option CommandName) (s : Seen) :
    List Char → Except Notice (Seen × Option ValueOption)
  | [] => .ok (s, none)
  | c :: rest =>
    match (options command).find? (·.2.1 == some c) with
    | some (_, _, .value o) =>
      match rest with
      | [] => .ok (s, some o)
      | '=' :: v => .ok (s.value o (some (String.ofList v)), none)
      | v => .ok (s.value o (some (String.ofList v)), none)
    | some (_, _, .switch x) =>
      match note s x with
      | .ok s => short command s rest
      | .error r => .error r
    | none => .error .usage

/-- Help about the whole program or about one command. `topics` is all that follows the word `help`,
and no option has a meaning there. -/
def Notice.about (topics : List String) : Notice :=
  match topics with
  | [] => .help
  | [topic] => if topic = "help" || (CommandName.ofName? topic).isSome then .help else .usage
  | _ => .usage

/-- Read the arguments on one side of the command. `pending` is an option that waits for its
value. The result has the command and its arguments, if there is one. -/
def scan (command : Option CommandName) (s : Seen) (pending : Option ValueOption) :
    List String → Except Notice (Seen × Option (CommandName × List String))
  | [] => .ok (s.abandon pending, none)
  | arg :: args =>
    match (if pending.isNone && command.isNone then CommandName.ofName? arg else none) with
    | some name => .ok (s, some (name, args))
    | none =>
      match arg.toList with
      | ['-', '-'] =>
        if command = some .siglevel then
          .ok ({ s.abandon pending with words := s.words ++ args }, none)
        else if args = [] then .ok (s.abandon pending, none)
        else .error .usage
      | '-' :: '-' :: text =>
        match long command (s.abandon pending) text with
        | .ok (s, pending) => scan command s pending args
        | .error r => .error r
      | '-' :: c :: text =>
        match short command (s.abandon pending) (c :: text) with
        | .ok (s, pending) => scan command s pending args
        | .error r => .error r
      | _ =>
        match pending with
        | some o => scan command (s.value o (some arg)) none args
        | none =>
          if command = some .siglevel then scan command (s.word arg) none args
          else if command.isNone && arg = "help" then .error (.about args)
          else .error .usage

/-! ## Second pass: what it means -/

/-- The greatest number of 64 bits. -/
def maxNumber : Nat := 0xFFFFFFFFFFFFFFFF

/-- The number that digits stand for, which may have a plus sign in front and must fit 64 bits. -/
def number? (s : String) : Option Nat :=
  let digits := match s.toList with
    | '+' :: ds => ds
    | ds => ds
  if digits ≠ [] ∧ digits.all Char.isDigit then
    let n := digits.foldl (fun n d => 10 * n + (d.toNat - '0'.toNat)) 0
    if n ≤ maxNumber then some n else none
  else none

/-- The value of an option that may be given once, and then has to have a value that can be read. -/
def Seen.single (s : Seen) (o : ValueOption) (read? : String → Option α) :
    Except Notice (Option α) :=
  match s.values.filter (·.1 == o) with
  | [] => .ok none
  | [(_, some v)] =>
    match read? v with
    | some a => .ok (some a)
    | none => .error .usage
  | _ => .error .usage

/-- An option without value that may be given once. -/
def Seen.once (s : Seen) (x : Switch) : Except Notice Bool :=
  match s.switches.count x with
  | 0 => .ok false
  | 1 => .ok true
  | _ => .error .usage

/-- The general options on one side of the command: the path and the limit. -/
def Seen.general (s : Seen) : Except Notice (Option String × Option Nat) := do
  let path ← s.single .config some
  let limit ← s.single .includeLimit number?
  let _ ← s.once .quiet
  return (path, limit)

def Seen.command (s : Seen) : CommandName → Except Notice Command
  | .dump => return .dump ((← s.single .format Format.ofName?).getD .json)
  | .repos => return .repos (← s.once .json)
  | .siglevel => return .siglevel s.words

/-- The invocation that the arguments before the command and after it amount to. The environment
may name the configuration, if no argument does. -/
def Invocation.ofSeen (environment : Option String) (before after : Seen) (name : CommandName) :
    Except Notice Invocation := do
  let (pathBefore, limitBefore) ← before.general
  let (pathAfter, limitAfter) ← after.general
  let command ← after.command name
  let path := pathAfter <|> pathBefore <|> environment
  return {
    configPath := path.getD Loader.systemPath
    includeLimit := (limitAfter <|> limitBefore).getD defaultIncludeLimit
    command }

/-- Read all arguments, or stop at the first one that has its own answer. -/
def interpret (environment : Option String) (args : List String) : Except Notice Invocation := do
  match ← scan none {} none args with
  | (_, none) => .error .usage
  | (before, some (name, rest)) =>
    let (after, _) ← scan (some name) {} none rest
    Invocation.ofSeen environment before after name

/-- What the arguments ask for. -/
def Request.ofArguments (environment : Option String) (args : List String) : Request :=
  match interpret environment args with
  | .ok i => .run i
  | .error n => .reply n.outcome

end PackageConf.CommandLine
