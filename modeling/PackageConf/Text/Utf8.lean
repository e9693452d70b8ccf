/-!
# UTF-8

`encode` writes a text as bytes. `decode` reads any bytes as a text: every maximal part of an
ill-formed sequence that could still have become a character is read as one replacement
character. Decoding goes byte by byte: a `Partial` is a character begun and not finished, `step`
feeds it one byte, and `decodeFrom` is the run of the machine from a given beginning.
-/
namespace PackageConf.Text

/-- The character that stands for bytes that are not UTF-8. -/
def replacement : Char := '\uFFFD'

/-- A character whose first bytes have been read: the code point so far, the number of bytes it
still lacks, and the least and the greatest byte that may come next. -/
structure Partial where
  value : Nat
  missing : Nat
  least : UInt8 := 0x80
  greatest : UInt8 := 0xBF
deriving DecidableEq, Repr

/-- The beginning of a character of two or more bytes that `b` makes, if it makes one. -/
def Partial.start? (b : UInt8) : Option Partial :=
  if 0xC2 ≤ b ∧ b ≤ 0xDF then some { value := b.toNat - 0xC0, missing := 1 }
  else if b = 0xE0 then some { value := 0, missing := 2, least := 0xA0 }
  else if b = 0xED then some { value := 0xD, missing := 2, greatest := 0x9F }
  else if 0xE1 ≤ b ∧ b ≤ 0xEF then some { value := b.toNat - 0xE0, missing := 2 }
  else if b = 0xF0 then some { value := 0, missing := 3, least := 0x90 }
  else if 0xF1 ≤ b ∧ b ≤ 0xF3 then some { value := b.toNat - 0xF0, missing := 3 }
  else if b = 0xF4 then some { value := 4, missing := 3, greatest := 0x8F }
  else none

/-- A byte read between characters: the characters it completes, and the one it begins. -/
def beginWith (b : UInt8) : List Char × Option Partial :=
  if b < 0x80 then ([Char.ofNat b.toNat], none)
  else match Partial.start? b with
    | some p => ([], some p)
    | none => ([replacement], none)

/-- One byte: the characters it completes, and the one it leaves unfinished. A byte that cannot
continue the unfinished character ends it as ill-formed, and is then read anew. -/
def step : Option Partial → UInt8 → List Char × Option Partial
  | none, b => beginWith b
  | some p, b =>
    if p.least ≤ b ∧ b ≤ p.greatest then
      let value := p.value * 64 + (b.toNat - 0x80)
      if p.missing ≤ 1 then ([Char.ofNat value], none)
      else ([], some { value, missing := p.missing - 1 })
    else (replacement :: (beginWith b).1, (beginWith b).2)

/-- What an unfinished character is read as when the bytes end. -/
def finish : Option Partial → List Char
  | none => []
  | some _ => [replacement]

/-- The text of the bytes that follow an unfinished character. -/
def decodeFrom (p : Option Partial) : List UInt8 → List Char
  | [] => finish p
  | b :: bs => (step p b).1 ++ decodeFrom (step p b).2 bs

/-- The text of any bytes, ill-formed parts replaced. -/
def decode (bytes : List UInt8) : List Char := decodeFrom none bytes

def encode (s : List Char) : List UInt8 := s.flatMap String.utf8EncodeChar

/-- An ASCII byte ends whatever was unfinished and is read as itself. -/
theorem step_ascii {b : UInt8} (h : b < 0x80) (p : Option Partial)
    (hp : ∀ q ∈ p, 0x80 ≤ q.least) :
    step p b = (finish p ++ [Char.ofNat b.toNat], none) := by
  cases p with
  | none => simp [step, beginWith, h, finish]
  | some q =>
    have : ¬ q.least ≤ b := fun hle => by
      have hq := hp q rfl
      simp only [UInt8.le_iff_toNat_le, UInt8.lt_iff_toNat_lt] at hle hq h
      omega
    simp [step, beginWith, h, finish, this]

@[simp] theorem decode_nil : decode [] = [] := rfl
@[simp] theorem encode_nil : encode [] = [] := rfl

theorem encode_append (s t : List Char) : encode (s ++ t) = encode s ++ encode t := by
  simp [encode]

end PackageConf.Text
