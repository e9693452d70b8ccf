import Mathlib
import PackageConf.Text.Utf8
/-!
# Laws of decoding

An unfinished character can still become any number in a range, and a byte that continues it makes
the range smaller (`Partial.Holds`). No number of the range is in ASCII, and all of them are
characters of as many bytes as have been read and are lacking. One step keeps this
(`exists_pending_step`), and the rest is drawn from it by induction over the bytes. ASCII bytes are
read as themselves wherever they stand (`decode_ascii`), so cutting bytes at one of them and decoding
the parts is the same as decoding all and cutting the text. No other byte yields an ASCII character
(`mem_of_mem_decode`). Decoding undoes encoding (`decode_encode`), also with any bytes in front
(`decode_append_encode`) or behind (`decode_encode_append`).
-/
namespace PackageConf.Text

/-! ## What an unfinished character can become -/

/-- An unfinished character that the machine can be in: the least value it can still become is no
ASCII character. -/
structure Partial.Proper (p : Partial) : Prop where
  least_ge : 0x80 ≤ p.least.toNat
  value_ge : 0x80 ≤ (p.value * 64 + (p.least.toNat - 0x80)) * 64 ^ (p.missing - 1)

/-- The least number that an unfinished character can become. -/
def Partial.low (p : Partial) : Nat :=
  (p.value * 64 + (p.least.toNat - 0x80)) * 64 ^ (p.missing - 1)

/-- The first number beyond those that an unfinished character can become. -/
def Partial.high (p : Partial) : Nat :=
  (p.value * 64 + (p.greatest.toNat - 0x80) + 1) * 64 ^ (p.missing - 1)

/-- An unfinished character with one more byte read. -/
def Partial.more (p : Partial) (b : UInt8) : Partial :=
  { value := p.value * 64 + (b.toNat - 0x80), missing := p.missing - 1 }

/-- An unfinished character of which `read` bytes have been read: whatever it becomes is a character
of these bytes and those that it lacks. -/
structure Partial.Holds (read : Nat) (p : Partial) : Prop extends p.Proper where
  missing_pos : 0 < p.missing
  size_le : read + p.missing ≤ 4
  greatest_le : p.greatest ≤ 0xBF
  becomes : ∀ n, p.low ≤ n → n < p.high →
    n.isValidChar ∧ (Char.ofNat n).utf8Size = read + p.missing

/-- There is no unfinished character, or there is one of which `read` bytes have been read. -/
def Pending (read : Nat) : Option Partial → Prop
  | none => read = 0
  | some p => p.Holds read

theorem pending_none : Pending 0 none := rfl

theorem toNat_ofNat {n : Nat} (h : n.isValidChar) : (Char.ofNat n).toNat = n := by
  rw [Char.ofNat, dif_pos h]
  rfl

theorem toNat_ofNat_byte (b : UInt8) : (Char.ofNat b.toNat).toNat = b.toNat := by
  have hb : b.toNat < 256 := UInt8.toNat_lt_size b
  exact toNat_ofNat (.inl (by omega))

theorem utf8Size_ofNat {n : Nat} (h : n.isValidChar) :
    (Char.ofNat n).utf8Size =
      if n ≤ 0x7F then 1 else if n ≤ 0x7FF then 2 else if n ≤ 0xFFFF then 3 else 4 := by
  have hval : (Char.ofNat n).val.toNat = n := toNat_ofNat h
  simp only [Char.utf8Size, UInt32.le_iff_toNat_le, hval]
  rfl

theorem Partial.start?_holds {b : UInt8} {p : Partial} (h : Partial.start? b = some p) :
    p.Holds 1 := by
  have hb := UInt8.toNat_lt_size b
  unfold Partial.start? at h
  simp only [UInt8.le_iff_toNat_le, ← UInt8.toNat_inj, UInt8.reduceToNat] at h
  iterate 7
    split at h
    · obtain rfl := Option.some.inj h
      refine ⟨⟨by simp, by simp only [UInt8.reduceToNat]; omega⟩, by simp, by simp,
        UInt8.le_iff_toNat_le.2 (by simp), ?_⟩
      intro n hlow hhigh
      simp only [Partial.low, Partial.high, UInt8.reduceToNat] at hlow hhigh
      have hvalid : n.isValidChar := by
        unfold Nat.isValidChar
        omega
      refine ⟨hvalid, ?_⟩
      rw [utf8Size_ofNat hvalid]
      dsimp only
      split_ifs <;> omega
  cases h

section
variable {p : Partial} {b : UInt8}

@[simp] theorem Partial.more_value : (p.more b).value = p.value * 64 + (b.toNat - 0x80) := rfl
@[simp] theorem Partial.more_missing : (p.more b).missing = p.missing - 1 := rfl
@[simp] theorem Partial.more_least : (p.more b).least = 0x80 := rfl
@[simp] theorem Partial.more_greatest : (p.more b).greatest = 0xBF := rfl

theorem Partial.pow_missing (hmore : ¬ p.missing ≤ 1) :
    64 ^ (p.missing - 1) = 64 * 64 ^ (p.missing - 1 - 1) := by
  have hlack : p.missing - 1 = (p.missing - 1 - 1).succ := by omega
  rw [← Nat.pow_succ', ← hlack]

theorem Partial.low_more (hmore : ¬ p.missing ≤ 1) :
    (p.more b).low = (p.value * 64 + (b.toNat - 0x80)) * 64 ^ (p.missing - 1) := by
  rw [Partial.low, Partial.pow_missing hmore, ← Nat.mul_assoc]
  simp

theorem Partial.high_more (hmore : ¬ p.missing ≤ 1) :
    (p.more b).high = (p.value * 64 + (b.toNat - 0x80) + 1) * 64 ^ (p.missing - 1) := by
  rw [Partial.high, Partial.pow_missing hmore, ← Nat.mul_assoc, Nat.add_mul _ 1 64]
  simp

/-- A byte that continues the character makes the range smaller. -/
theorem Partial.Holds.more {read : Nat} (h : p.Holds read) (hb : p.least ≤ b ∧ b ≤ p.greatest)
    (hmore : ¬ p.missing ≤ 1) : (p.more b).Holds (read + 1) := by
  have hleast := UInt8.le_iff_toNat_le.1 hb.1
  have hgreatest := UInt8.le_iff_toNat_le.1 hb.2
  have hdown : p.low ≤ (p.more b).low := by
    rw [Partial.low_more hmore]
    exact Nat.mul_le_mul_right _ (by omega)
  have hup : (p.more b).high ≤ p.high := by
    rw [Partial.high_more hmore]
    exact Nat.mul_le_mul_right _ (by omega)
  have hsize := h.size_le
  have hlack : (p.more b).missing = p.missing - 1 := Partial.more_missing
  refine ⟨⟨Nat.le_refl _, Nat.le_trans h.value_ge hdown⟩, by omega, by omega, UInt8.le_refl _, ?_⟩
  intro n hlow hhigh
  have hnumber := h.becomes n (Nat.le_trans hdown hlow) (Nat.lt_of_lt_of_le hhigh hup)
  refine ⟨hnumber.1, ?_⟩
  rw [hnumber.2]
  omega

/-- The last byte makes a character of as many bytes as have been read, and none of ASCII. -/
theorem Partial.Holds.last {read : Nat} (h : p.Holds read) (hb : p.least ≤ b ∧ b ≤ p.greatest)
    (hlast : p.missing ≤ 1) :
    0x80 ≤ (Char.ofNat (p.value * 64 + (b.toNat - 0x80))).toNat ∧
    (Char.ofNat (p.value * 64 + (b.toNat - 0x80))).utf8Size = read + 1 := by
  have hone : p.missing = 1 := Nat.le_antisymm hlast h.missing_pos
  have hleast := UInt8.le_iff_toNat_le.1 hb.1
  have hgreatest := UInt8.le_iff_toNat_le.1 hb.2
  have hlow : p.low ≤ p.value * 64 + (b.toNat - 0x80) := by
    simp only [Partial.low, hone, Nat.sub_self, Nat.pow_zero, Nat.mul_one]
    omega
  have hhigh : p.value * 64 + (b.toNat - 0x80) < p.high := by
    simp only [Partial.high, hone, Nat.sub_self, Nat.pow_zero, Nat.mul_one]
    omega
  obtain ⟨hvalid, hlen⟩ := h.becomes _ hlow hhigh
  rw [toNat_ofNat hvalid, hlen, hone]
  exact ⟨Nat.le_trans h.value_ge hlow, rfl⟩

end

theorem utf8Size_replacement : replacement.utf8Size = 3 := by decide

theorem length_encode_cons (c : Char) (s : List Char) :
    (encode (c :: s)).length = c.utf8Size + (encode s).length := by
  simp [encode]

theorem exists_pending_beginWith (b : UInt8) :
    ∃ read, Pending read (beginWith b).2 ∧ 1 ≤ (encode (beginWith b).1).length + read := by
  unfold beginWith
  split
  · exact ⟨0, rfl, by
      rw [length_encode_cons]
      have := Char.utf8Size_pos (Char.ofNat b.toNat)
      omega⟩
  · split
    · next p hp => exact ⟨1, Partial.start?_holds hp, by simp⟩
    · exact ⟨0, rfl, by simp [length_encode_cons, utf8Size_replacement]⟩

/-- Each byte is accounted for, by what it completes or by what it leaves unfinished. -/
theorem exists_pending_step {read : Nat} {p : Option Partial} (h : Pending read p) (b : UInt8) :
    ∃ read', Pending read' (step p b).2 ∧ read + 1 ≤ (encode (step p b).1).length + read' := by
  cases p with
  | none =>
    obtain rfl : read = 0 := h
    simpa [step] using exists_pending_beginWith b
  | some p =>
    have hp : p.Holds read := h
    simp only [step]
    split
    · next hb =>
      split
      · next hlast =>
        refine ⟨0, rfl, ?_⟩
        rw [length_encode_cons, (hp.last hb hlast).2]
        omega
      · next hmore => exact ⟨read + 1, hp.more hb hmore, by simp⟩
    · obtain ⟨read', hread, hlen⟩ := exists_pending_beginWith b
      refine ⟨read', hread, ?_⟩
      have hsize := hp.size_le
      have hpos := hp.missing_pos
      rw [length_encode_cons, utf8Size_replacement]
      omega

/-! ## ASCII -/

/-- An ASCII byte cuts the text where it stands. -/
theorem decodeFrom_ascii {b : UInt8} (hb : b < 0x80) (ys : List UInt8) (xs : List UInt8)
    {read : Nat} {p : Option Partial} (h : Pending read p) :
    decodeFrom p (xs ++ b :: ys) =
      decodeFrom p xs ++ Char.ofNat b.toNat :: decodeFrom none ys := by
  induction xs generalizing read p with
  | nil =>
    have hleast : ∀ q ∈ p, 0x80 ≤ q.least := by
      rintro q rfl
      have hq : q.Holds read := h
      exact UInt8.le_iff_toNat_le.2 hq.least_ge
    simp [decodeFrom, step_ascii hb p hleast]
  | cons x xs ih =>
    obtain ⟨read', hread, -⟩ := exists_pending_step h x
    rw [List.cons_append, decodeFrom, decodeFrom, ih hread, List.append_assoc]

theorem decode_ascii {b : UInt8} (hb : b < 0x80) (xs ys : List UInt8) :
    decode (xs ++ b :: ys) = decode xs ++ Char.ofNat b.toNat :: decode ys :=
  decodeFrom_ascii hb ys xs pending_none

theorem encode_ascii {b : UInt8} (h : b < 0x80) : encode [Char.ofNat b.toNat] = [b] := by
  have hval : (Char.ofNat b.toNat).val.toNat = b.toNat := toNat_ofNat_byte b
  have hle : b.toNat ≤ 127 := Nat.le_of_lt_succ (UInt8.lt_iff_toNat_lt.1 h)
  simp [encode, String.utf8EncodeChar, hval, hle]

section
variable {c : Char} (hc : c.toNat < 0x80)
include hc

theorem mem_beginWith {b : UInt8} (h : c ∈ (beginWith b).1) : c = Char.ofNat b.toNat := by
  unfold beginWith at h
  split at h
  · simpa using h
  · split at h
    · simp at h
    · obtain rfl : c = replacement := by simpa using h
      exact absurd hc (by decide)

theorem mem_step {read : Nat} {p : Option Partial} (hp : Pending read p) {b : UInt8}
    (h : c ∈ (step p b).1) : c = Char.ofNat b.toNat := by
  cases p with
  | none => exact mem_beginWith hc h
  | some p =>
    have hholds : p.Holds read := hp
    simp only [step] at h
    split at h
    · next hb =>
      split at h
      · next hlast =>
        rw [List.mem_singleton.1 h] at hc
        exact absurd hc (Nat.not_lt.2 (hholds.last hb hlast).1)
      · simp at h
    · rcases List.mem_cons.1 h with rfl | h
      · exact absurd hc (by decide)
      · exact mem_beginWith hc h

theorem mem_of_mem_decodeFrom (bytes : List UInt8) {read : Nat} {p : Option Partial}
    (hp : Pending read p) (h : c ∈ decodeFrom p bytes) :
    ∃ b ∈ bytes, c = Char.ofNat b.toNat := by
  induction bytes generalizing read p with
  | nil =>
    cases p with
    | none => simp [decodeFrom, finish] at h
    | some p =>
      obtain rfl : c = replacement := by simpa [decodeFrom, finish] using h
      exact absurd hc (by decide)
  | cons b bytes ih =>
    rw [decodeFrom] at h
    rcases List.mem_append.1 h with h | h
    · exact ⟨b, List.mem_cons_self, mem_step hc hp h⟩
    · obtain ⟨read', hread, -⟩ := exists_pending_step hp b
      obtain ⟨b', hb', hcb⟩ := ih hread h
      exact ⟨b', List.mem_cons_of_mem _ hb', hcb⟩

/-- An ASCII character of a decoded text stands for a byte of its own. -/
theorem mem_of_mem_decode {bytes : List UInt8} (h : c ∈ decode bytes) :
    ∃ b ∈ bytes, c = Char.ofNat b.toNat :=
  mem_of_mem_decodeFrom hc bytes pending_none h

end

theorem feed_not_mem_decode {bytes : List UInt8} (h : 0x0A ∉ bytes) : '\n' ∉ decode bytes := by
  intro hmem
  obtain ⟨b, hb, hc⟩ := mem_of_mem_decode (by decide) hmem
  have hfeed : b = 0x0A := by
    rw [← UInt8.toNat_inj, ← toNat_ofNat_byte b, ← hc]
    rfl
  exact h (hfeed ▸ hb)

/-! ## Decoding undoes encoding -/

theorem start?_two : ∀ q < 0x20, 2 ≤ q →
    Partial.start? (UInt8.ofNat (q + 0xC0)) = some ⟨q, 1, 0x80, 0xBF⟩ := by
  decide

theorem start?_three : ∀ q < 0x10, Partial.start? (UInt8.ofNat (q + 0xE0)) =
    some ⟨q, 2, if q = 0 then 0xA0 else 0x80, if q = 0xD then 0x9F else 0xBF⟩ := by
  decide

theorem start?_four : ∀ q < 5, Partial.start? (UInt8.ofNat (q + 0xF0)) =
    some ⟨q, 3, if q = 0 then 0x90 else 0x80, if q = 4 then 0x8F else 0xBF⟩ := by
  decide

theorem decodeFrom_start {n : Nat} {p : Partial} (hn : 0x80 ≤ n) (hlt : n < 256)
    (h : Partial.start? (UInt8.ofNat n) = some p) (rest : List UInt8) :
    decodeFrom none (UInt8.ofNat n :: rest) = decodeFrom (some p) rest := by
  have : ¬ UInt8.ofNat n < 0x80 := by
    simp only [UInt8.lt_iff_toNat_lt, UInt8.toNat_ofNat', UInt8.reduceToNat]
    omega
  simp [decodeFrom, step, beginWith, this, h]

theorem decodeFrom_more {p : Partial} {k n : Nat} (hp : p.missing = k + 2)
    (hn : p.least.toNat ≤ n ∧ n ≤ p.greatest.toNat) (hlt : n < 256) (rest : List UInt8) :
    decodeFrom (some p) (UInt8.ofNat n :: rest) =
      decodeFrom (some { value := p.value * 64 + (n - 0x80), missing := k + 1 }) rest := by
  have hb : (UInt8.ofNat n).toNat = n := by rw [UInt8.toNat_ofNat']; omega
  simp [decodeFrom, step, UInt8.le_iff_toNat_le, hb, hn, hp]

theorem decodeFrom_last {p : Partial} {n : Nat} (hp : p.missing = 1)
    (hn : p.least.toNat ≤ n ∧ n ≤ p.greatest.toNat) (hlt : n < 256) (rest : List UInt8) :
    decodeFrom (some p) (UInt8.ofNat n :: rest) =
      Char.ofNat (p.value * 64 + (n - 0x80)) :: decodeFrom none rest := by
  have hb : (UInt8.ofNat n).toNat = n := by rw [UInt8.toNat_ofNat']; omega
  simp [decodeFrom, step, UInt8.le_iff_toNat_le, hb, hn, hp]

/-- The bytes of one character are read as that character. -/
theorem decodeFrom_char (c : Char) (rest : List UInt8) :
    decodeFrom none (String.utf8EncodeChar c ++ rest) = c :: decodeFrom none rest := by
  have hv : c.toNat < 0xD800 ∨ 0xDFFF < c.toNat ∧ c.toNat < 0x110000 := c.valid
  have hc : Char.ofNat c.toNat = c := Char.ofNat_toNat c
  have hval : c.val.toNat = c.toNat := rfl
  unfold String.utf8EncodeChar
  rw [hval]
  generalize c.toNat = n at hv hc
  dsimp only
  split
  · next h1 =>
    have hb : UInt8.ofNat n < 0x80 := by
      simp only [UInt8.lt_iff_toNat_lt, UInt8.toNat_ofNat', UInt8.reduceToNat]
      omega
    have hn : n % 256 = n := by omega
    simp [decodeFrom, step, beginWith, hb, hn, hc]
  · next h1 =>
    split
    · next h2 =>
      have hs := start?_two (n / 64 % 0x20) (by omega) (by omega)
      rw [List.cons_append, List.cons_append, decodeFrom_start (by omega) (by omega) hs,
        decodeFrom_last rfl (by simp only [UInt8.reduceToNat]; omega) (by omega),
        show n / 64 % 0x20 * 64 + (n % 0x40 + 0x80 - 0x80) = n by omega, hc]
      rfl
    · next h2 =>
      split
      · next h3 =>
        have hs := start?_three (n / 4096 % 0x10) (by omega)
        rw [List.cons_append, List.cons_append, List.cons_append,
          decodeFrom_start (by omega) (by omega) hs,
          decodeFrom_more rfl (by
            dsimp only
            constructor <;> split <;> simp only [UInt8.reduceToNat] <;> omega) (by omega),
          decodeFrom_last rfl (by simp only [UInt8.reduceToNat]; omega) (by omega)]
        simp only [List.nil_append]
        rw [show (n / 4096 % 0x10 * 64 + (n / 64 % 0x40 + 0x80 - 0x80)) * 64 +
          (n % 0x40 + 0x80 - 0x80) = n by omega, hc]
      · next h3 =>
        have hs := start?_four (n / 262144 % 8) (by omega)
        rw [List.cons_append, List.cons_append, List.cons_append, List.cons_append,
          decodeFrom_start (by omega) (by omega) hs,
          decodeFrom_more rfl (by
            dsimp only
            constructor <;> split <;> simp only [UInt8.reduceToNat] <;> omega) (by omega),
          decodeFrom_more rfl (by simp only [UInt8.reduceToNat]; omega) (by omega),
          decodeFrom_last rfl (by simp only [UInt8.reduceToNat]; omega) (by omega)]
        simp only [List.nil_append]
        rw [show ((n / 262144 % 8 * 64 + (n / 4096 % 0x40 + 0x80 - 0x80)) * 64 +
          (n / 64 % 0x40 + 0x80 - 0x80)) * 64 + (n % 0x40 + 0x80 - 0x80) = n by omega, hc]

theorem decode_encode (s : List Char) : decode (encode s) = s := by
  unfold decode encode
  induction s with
  | nil => rfl
  | cons c s ih => rw [List.flatMap_cons, decodeFrom_char, ih]

/-- A text is read as itself in front of any bytes. -/
theorem decode_encode_append (s : List Char) (xs : List UInt8) :
    decode (encode s ++ xs) = s ++ decode xs := by
  unfold decode encode
  induction s with
  | nil => rfl
  | cons c s ih => rw [List.flatMap_cons, List.append_assoc, decodeFrom_char, ih, List.cons_append]

/-- The first byte of a character continues no other. -/
theorem exists_utf8EncodeChar (c : Char) :
    ∃ b bs, String.utf8EncodeChar c = b :: bs ∧ (b < 0x80 ∨ 0xBF < b) := by
  simp only [UInt8.lt_iff_toNat_lt, UInt8.reduceToNat]
  unfold String.utf8EncodeChar
  dsimp only
  repeat' split
  all_goals
    refine ⟨_, _, rfl, ?_⟩
    rw [UInt8.toNat_ofNat']
    omega

/-- A byte that cannot continue the unfinished character ends it. -/
theorem decodeFrom_cons_of_not_between {p : Partial} {b : UInt8}
    (h : ¬ (p.least ≤ b ∧ b ≤ p.greatest)) (bs : List UInt8) :
    decodeFrom (some p) (b :: bs) = replacement :: decodeFrom none (b :: bs) := by
  simp [decodeFrom, step, h]

/-- A text ends what is unfinished in front of it and is read as itself. -/
theorem decodeFrom_append_encode (s : List Char) (xs : List UInt8) {read : Nat}
    {p : Option Partial} (h : Pending read p) :
    decodeFrom p (xs ++ encode s) = decodeFrom p xs ++ s := by
  induction xs generalizing read p with
  | nil =>
    rw [List.nil_append, decodeFrom]
    cases p with
    | none => exact decode_encode s
    | some p =>
      have hp : p.Holds read := h
      cases s with
      | nil => rfl
      | cons c s =>
        obtain ⟨b, bs, hc, hb⟩ := exists_utf8EncodeChar c
        have hs : encode (c :: s) = b :: (bs ++ encode s) := by
          rw [encode, List.flatMap_cons, hc, List.cons_append, encode]
        have hnot : ¬ (p.least ≤ b ∧ b ≤ p.greatest) := by
          have hleast := hp.least_ge
          have hgreatest := hp.greatest_le
          simp only [UInt8.le_iff_toNat_le, UInt8.lt_iff_toNat_lt, UInt8.reduceToNat]
            at hgreatest hb ⊢
          omega
        rw [hs, decodeFrom_cons_of_not_between hnot, ← hs, ← decode, decode_encode]
        rfl
  | cons x xs ih =>
    obtain ⟨read', hread, -⟩ := exists_pending_step h x
    rw [List.cons_append, decodeFrom, decodeFrom, ih hread, List.append_assoc]

theorem decode_append_encode (xs : List UInt8) (s : List Char) :
    decode (xs ++ encode s) = decode xs ++ s :=
  decodeFrom_append_encode s xs pending_none

/-- A line feed among the bytes of a text is one of the text. -/
theorem feed_not_mem_encode {s : List Char} (h : '\n' ∉ s) : 0x0A ∉ encode s := by
  intro hmem
  obtain ⟨xs, ys, he⟩ := List.append_of_mem hmem
  have hd := decode_ascii (b := 0x0A) (by decide) xs ys
  rw [← he, decode_encode] at hd
  exact h (by rw [hd]; simp)

/-- An ASCII byte at the end of the bytes of a text is the last character of the text. -/
theorem getLast?_encode {s : List Char} {b : UInt8} (hb : b < 0x80)
    (h : (encode s).getLast? = some b) : s.getLast? = some (Char.ofNat b.toNat) := by
  obtain ⟨xs, hxs⟩ := List.getLast?_eq_some_iff.1 h
  have hd := decode_ascii hb xs []
  rw [← hxs, decode_encode] at hd
  rw [hd]
  simp

end PackageConf.Text
