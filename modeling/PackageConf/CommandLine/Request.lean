import PackageConf.Load
/-!
# Requests and outcomes

What the program can be asked for, and what it leaves behind. The arguments are read by a library,
which answers some of them by itself: for help, for the version, for completions of the shell and
about arguments that make no sense. All others come down to an `Invocation`.
-/
namespace PackageConf.CommandLine

inductive Format where
  | json
  | toml
  | conf
deriving DecidableEq, Repr

/-- A command with what it needs to know. -/
inductive Command where
  | dump (format : Format)
  | repos (json : Bool)
  | siglevel (tokens : List String)
deriving DecidableEq, Repr

/-- A command and the configuration it is about. -/
structure Invocation where
  configPath : String
  includeLimit : Nat
  command : Command
deriving DecidableEq, Repr

structure Outcome where
  status : Nat := 0
  output : String := ""
  errors : String := ""
deriving DecidableEq, Repr

/-- What the arguments ask for: an invocation, or what the library replies to them. -/
inductive Request where
  | run (i : Invocation)
  | reply (o : Outcome)
deriving DecidableEq, Repr

end PackageConf.CommandLine
