import PackageConf.SigLevel
import PackageConf.Text.Quoted
/-!
# What can go wrong

Errors are values that hold the cause: where in which file, and the texts the message names. The
wording is in the `message` functions alone. An error that was brought about by another one holds
it, and `ConfigError.causes` lists the messages of those, outermost first.
-/
namespace PackageConf

/-- Why a file cannot be opened or read. -/
inductive FileError where
  | notFound
  | notADirectory
  | isADirectory
  | nameTooLong
  | nulInName
  /-- A failure of the host that none of the above describes. -/
  | other (text : String)
deriving DecidableEq, Repr

/-- The host's text for the failure. -/
def FileError.message : FileError → String
  | .notFound => "No such file or directory (os error 2)"
  | .notADirectory => "Not a directory (os error 20)"
  | .isADirectory => "Is a directory (os error 21)"
  | .nameTooLong => "File name too long (os error 36)"
  | .nulInName => "file name contained an unexpected NUL byte"
  | .other text => text

/-- Why an engine refuses to start or to register a repository. -/
inductive EngineError where
  | emptyRoot
  | emptyName
  | duplicate (name : String)
deriving DecidableEq, Repr

def EngineError.message : EngineError → String
  | .emptyRoot => "root directory is empty"
  | .emptyName => "repository name is empty"
  | .duplicate name => "repository " ++ name ++ " is already registered"

/-- Why a configuration cannot be read or put to use. Lines are counted from one within the file
that holds them. -/
inductive ConfigError where
  | io (cause : FileError)
  | notFound (path : String)
  | lineTooLong (line : Nat)
  | missingBracket (line : Nat)
  | trailingCharacters (line : Nat) (trailing header : String)
  | unknownOption (line : Nat) (name : String)
  | outsideOptions (line : Nat) (name : String)
  | invalidValue (line : Nat) (cause : InvalidSigLevel)
  | repoSigLevel (repo : String) (cause : InvalidSigLevel)
  | missingInclude (line : Nat)
  | includeFailed (line : Nat) (path : String) (cause : FileError)
  | includeDepth (line limit : Nat)
  | architecture (cause : FileError)
  | engine (cause : EngineError)
deriving DecidableEq, Repr

namespace ConfigError

def message : ConfigError → String
  | io cause => "IO error: " ++ cause.message
  | notFound path => "Configuration file not found: " ++ path
  | lineTooLong line => "line " ++ line.repr ++ " too long"
  | missingBracket line => "missing ']' in section name at line " ++ line.repr
  | trailingCharacters line trailing header =>
    "trailing characters " ++ Text.quoted trailing ++ " after section name " ++ header ++
      " at line " ++ line.repr
  | unknownOption line name => "unknown option at line " ++ line.repr ++ ": " ++ name
  | outsideOptions line name =>
    "option " ++ name ++ " outside of [options] section, at line " ++ line.repr
  | invalidValue line cause => "invalid value at line " ++ line.repr ++ ": " ++ cause.message
  | repoSigLevel repo cause =>
    "invalid SigLevel for repo " ++ Text.quoted repo ++ ": " ++ cause.message
  | missingInclude line => "Include directive without a path at line " ++ line.repr
  | includeFailed line path cause =>
    "error while processing Include directive at line " ++ line.repr ++ ": " ++ path ++ ": " ++
      cause.message
  | includeDepth line limit =>
    "Include directive at line " ++ line.repr ++ " exceeds the maximum nesting depth of " ++
      limit.repr
  | architecture cause =>
    "architecture is 'auto' but it could not be detected: " ++ cause.message
  | engine cause => "package engine error: " ++ cause.message

/-- The messages of the errors that brought this one about. -/
def causes : ConfigError → List String
  | io cause | includeFailed _ _ cause | architecture cause => [cause.message]
  | invalidValue _ cause | repoSigLevel _ cause => [cause.message]
  | engine cause => [cause.message]
  | _ => []

end ConfigError
end PackageConf
