import PackageConf.Proofs.Text.Utf8
/-!
# What decoding keeps of the bytes

The first bytes of a character tell how many bytes it will have when it is written again, and
ill-formed bytes, of which there are at most three in a row for one replacement, are written as
three. Hence what is decoded is never written shorter than it was (`length_le_encode_decode`), and
it ends with an ASCII character only if the bytes do (`getLast?_of_decode`).
-/
namespace PackageConf.Text

/-! ## The length of what is decoded -/

theorem length_le_encode_decodeFrom (bytes : List UInt8) {read : Nat} {p : Option Partial}
    (h : Pending read p) : read + bytes.length ≤ (encode (decodeFrom p bytes)).length := by
  induction bytes generalizing read p with
  | nil =>
    cases p with
    | none =>
      obtain rfl : read = 0 := h
      simp
    | some p =>
      have hp : p.Holds read := h
      have hsize := hp.size_le
      have hpos := hp.missing_pos
      simp only [decodeFrom, finish, length_encode_cons, utf8Size_replacement, List.length_nil]
      omega
  | cons b bytes ih =>
    obtain ⟨read', hread, hlen⟩ := exists_pending_step h b
    have hrest := ih hread
    rw [decodeFrom, encode_append, List.length_append, List.length_cons]
    omega

/-- **What is decoded is never written shorter.** -/
theorem length_le_encode_decode (bytes : List UInt8) :
    bytes.length ≤ (encode (decode bytes)).length := by
  have h := length_le_encode_decodeFrom bytes pending_none
  rwa [Nat.zero_add] at h

/-! ## The last character -/

section
variable {c : Char} (hc : c.toNat < 0x80)
include hc

theorem getLast?_of_decodeFrom (bytes : List UInt8) {b : UInt8} {read : Nat} {p : Option Partial}
    (hp : Pending read p) (h : (decodeFrom p (b :: bytes)).getLast? = some c) :
    ∃ b', (b :: bytes).getLast? = some b' ∧ c = Char.ofNat b'.toNat := by
  induction bytes generalizing b read p with
  | nil =>
    rw [decodeFrom, decodeFrom] at h
    cases hstep : (step p b).2 with
    | some q =>
      obtain rfl : replacement = c := by simpa [hstep, finish] using h
      exact absurd hc (by decide)
    | none =>
      rw [hstep, finish, List.append_nil] at h
      exact ⟨b, rfl, mem_step hc hp (List.mem_of_getLast? h)⟩
  | cons b' bytes ih =>
    obtain ⟨read', hread, -⟩ := exists_pending_step hp b
    have hne : decodeFrom (step p b).2 (b' :: bytes) ≠ [] := by
      intro hnil
      have hlen := length_le_encode_decodeFrom (b' :: bytes) hread
      rw [hnil, encode_nil, List.length_nil, List.length_cons] at hlen
      omega
    rw [decodeFrom, List.getLast?_append_of_ne_nil _ hne] at h
    rw [List.getLast?_cons_cons]
    exact ih hread h

/-- **What is decoded ends with an ASCII character only if the bytes do.** -/
theorem getLast?_of_decode {bytes : List UInt8} (h : (decode bytes).getLast? = some c) :
    ∃ b, bytes.getLast? = some b ∧ c = Char.ofNat b.toNat := by
  cases bytes with
  | nil => cases h
  | cons b bytes => exact getLast?_of_decodeFrom hc bytes pending_none h

end

end PackageConf.Text
