import PackageConf.Mask
import PackageConf.Text.Split
/-!
# Signature levels

A signature level says how package and database signatures are checked. Each of the two scopes
has four bits: the signature is checked, it may be missing, keys of marginal trust will do, keys
of unknown trust will do. One more bit, `useDefault`, stands for the level that is in force
globally.

A level is written as a list of tokens, each a `Clause`: a directive, and the scopes it is about.
`resolve` reads the tokens and lets them act from left to right.
-/
namespace PackageConf

structure SigLevel where
  bits : Mask
deriving DecidableEq, Repr

namespace SigLevel

def empty : SigLevel := ⟨0⟩

/-- The level that is in force globally. -/
def useDefault : SigLevel := ⟨1#32 <<< 30⟩

def names : List (String × Mask) :=
  [("PACKAGE", 1#32 <<< 0), ("PACKAGE_OPTIONAL", 1#32 <<< 1),
   ("PACKAGE_MARGINAL_OK", 1#32 <<< 2), ("PACKAGE_UNKNOWN_OK", 1#32 <<< 3),
   ("DATABASE", 1#32 <<< 10), ("DATABASE_OPTIONAL", 1#32 <<< 11),
   ("DATABASE_MARGINAL_OK", 1#32 <<< 12), ("DATABASE_UNKNOWN_OK", 1#32 <<< 13),
   ("USE_DEFAULT", 1#32 <<< 30)]

/-- The text of the bits that are set. -/
def describe (write : Mask.Writer) (l : SigLevel) : String := write names l.bits

/-- The same inside the name of the type. -/
def debug (write : Mask.Writer) (l : SigLevel) : String := l.bits.debug write "SigLevel" names

def has (l f : SigLevel) : Bool := l.bits.has f.bits

def union (l f : SigLevel) : SigLevel := ⟨l.bits ||| f.bits⟩

def without (l f : SigLevel) : SigLevel := ⟨l.bits.without f.bits⟩

end SigLevel

/-! ## Targets and directives -/

/-- The scopes that a directive is about. -/
inductive Target where
  | package
  | database
  | both
deriving DecidableEq, Repr

namespace Target

/-- The word in front of a directive for this target. -/
def label : Target → String
  | .package => "Package"
  | .database => "Database"
  | .both => ""

/-- The target named at the front of a token, and the rest of the token. -/
def split (token : String) : Target × String :=
  match Text.remainder? "Package".toList token.toList with
  | some rest => (.package, String.ofList rest)
  | none => match Text.remainder? "Database".toList token.toList with
    | some rest => (.database, String.ofList rest)
    | none => (.both, token)

/-- A bit of the package scope, the same bit of the database scope, or both (`pick`). -/
def place (t : Target) (bits : Mask) : SigLevel :=
  match t with
  | .package => ⟨bits⟩
  | .database => ⟨bits <<< 10⟩
  | .both => ⟨bits ||| bits <<< 10⟩

/-- Signatures are checked. -/
def required (t : Target) : SigLevel := t.place 1#32

/-- A missing signature is accepted. -/
def optional (t : Target) : SigLevel := t.place 2#32

/-- Keys of marginal and of unknown trust are accepted. -/
def trust (t : Target) : SigLevel := t.place 12#32

end Target

/-- What a token says about its target. -/
inductive Directive where
  | never
  | optional
  | required
  | trustedOnly
  | trustAll
deriving DecidableEq, Repr

namespace Directive

def all : List Directive := [.never, .optional, .required, .trustedOnly, .trustAll]

def name : Directive → String
  | .never => "Never"
  | .optional => "Optional"
  | .required => "Required"
  | .trustedOnly => "TrustedOnly"
  | .trustAll => "TrustAll"

def ofName? (s : String) : Option Directive := all.find? fun d => d.name == s

@[simp] theorem ofName?_name (d : Directive) : ofName? d.name = some d := by cases d <;> rfl

theorem ofName?_eq_some_iff {s : String} {d : Directive} : ofName? s = some d ↔ s = d.name := by
  constructor
  · intro h
    have := List.find?_some (p := fun d : Directive => d.name == s) h
    exact (beq_iff_eq.1 this).symm
  · rintro rfl
    exact ofName?_name d

end Directive

/-- A word that names no directive. -/
structure InvalidSigLevel where
  token : String
deriving DecidableEq, Repr

def InvalidSigLevel.message (e : InvalidSigLevel) : String := "invalid signature level " ++ e.token

/-- The directive that a word names, or the word as the error. -/
def Directive.ofName (s : String) : Except InvalidSigLevel Directive :=
  match ofName? s with
  | some d => .ok d
  | none => .error ⟨s⟩

/-! ## Clauses and their effect -/

/-- One token: a directive with its target. -/
structure Clause where
  target : Target
  directive : Directive
deriving DecidableEq, Repr

def Clause.token (c : Clause) : String := c.target.label ++ c.directive.name

/-- The clause of a token. The error names the whole token. -/
def Clause.ofToken (token : String) : Except InvalidSigLevel Clause :=
  match Directive.ofName? (Target.split token).2 with
  | some d => .ok ⟨(Target.split token).1, d⟩
  | none => .error ⟨token⟩

namespace SigLevel

/-- The effect of a directive on the bits of its target; all other bits stay. -/
def apply (l : SigLevel) (t : Target) : Directive → SigLevel
  | .never => l.without t.required
  | .optional => (l.union t.required).union t.optional
  | .required => (l.union t.required).without t.optional
  | .trustedOnly => l.without t.trust
  | .trustAll => l.union t.trust

/-- The effect of a clause: a level that has been given one is no longer the default. -/
def amend (l : SigLevel) (c : Clause) : SigLevel :=
  (l.without useDefault).apply c.target c.directive

/-- The level that tokens make of `base`; the first invalid token is the error. -/
def resolve (base : SigLevel) (tokens : List String) : Except InvalidSigLevel SigLevel :=
  (tokens.mapM Clause.ofToken).map fun clauses => clauses.foldl amend base

@[simp] theorem resolve_nil (base : SigLevel) : resolve base [] = .ok base := rfl

end SigLevel
end PackageConf
