import PackageConf.Proofs.Parse.Layout
import PackageConf.Proofs.Reader.Delivery
import PackageConf.Proofs.Text.Decoded
/-!
# Decoding before or after cutting

A file is cut into lines first and each line is decoded by itself. It could as well be decoded as a
whole and the text be cut: a line feed and a carriage return are read as themselves wherever they
stand, so the lines of the text are the lines of the bytes, decoded one by one (`lines_reencode`,
`content_reencode`). Only the length of a line is measured on its bytes, and the text may have more.
So if no line of the text is too long then the two are read alike (`parse_reencode`).
-/
namespace PackageConf

/-- The bytes of the text that some bytes are decoded to. -/
def Text.reencode (bytes : Bytes) : Bytes := encode (decode bytes)

namespace Text

theorem decode_reencode (bytes : Bytes) : decode (reencode bytes) = decode bytes :=
  decode_encode (decode bytes)

/-- An ASCII byte cuts what is decoded as it cuts the bytes. -/
theorem reencode_ascii {b : UInt8} (hb : b < 0x80) (xs ys : Bytes) :
    reencode (xs ++ b :: ys) = reencode xs ++ b :: reencode ys := by
  rw [reencode, decode_ascii hb, ← List.singleton_append, encode_append, encode_append,
    encode_ascii hb]
  rfl

theorem feed_not_mem_reencode {bytes : Bytes} (h : 0x0A ∉ bytes) : 0x0A ∉ reencode bytes :=
  feed_not_mem_encode (feed_not_mem_decode h)

theorem reencode_ne_nil {bytes : Bytes} (h : bytes ≠ []) : reencode bytes ≠ [] := by
  intro hnil
  have hlen := length_le_encode_decode bytes
  rw [← reencode, hnil] at hlen
  exact h (List.length_eq_zero_iff.1 (Nat.le_zero.1 hlen))

theorem getLast?_reencode_ne_return {bytes : Bytes} (h : bytes.getLast? ≠ some 0x0D) :
    (reencode bytes).getLast? ≠ some 0x0D := by
  intro hlast
  obtain ⟨b, hb, hchar⟩ := getLast?_of_decode (c := '\r') (by decide)
    (getLast?_encode (by decide) hlast)
  have hreturn : b = 0x0D := by
    rw [← UInt8.toNat_inj, ← toNat_ofNat_byte b, ← hchar]
    rfl
  exact h (hreturn ▸ hb)

end Text

namespace Line
open Text

theorem lines_reencode (bytes : Bytes) : lines (reencode bytes) = (lines bytes).map reencode := by
  induction bytes using lines_induction with
  | nil => rfl
  | unended body hbody hne =>
    rw [lines_open hbody hne, lines_open (feed_not_mem_reencode hbody) (reencode_ne_nil hne)]
    rfl
  | ended body rest hbody ih =>
    have hline : reencode (body ++ [0x0A]) = reencode body ++ [0x0A] :=
      reencode_ascii (by decide) body []
    rw [lines_feed hbody, reencode_ascii (by decide), lines_feed (feed_not_mem_reencode hbody), ih,
      List.map_cons, hline]

theorem withoutReturn_reencode (piece : Bytes) :
    withoutReturn (reencode piece) = reencode (withoutReturn piece) := by
  by_cases h : piece.getLast? = some 0x0D
  · obtain ⟨front, rfl⟩ := List.getLast?_eq_some_iff.1 h
    have hpiece : reencode (front ++ [0x0D]) = reencode front ++ [0x0D] :=
      reencode_ascii (by decide) front []
    simp [withoutReturn, hpiece]
  · rw [withoutReturn, if_neg (getLast?_reencode_ne_return h), withoutReturn, if_neg h]

theorem content_reencode {bytes line : Bytes} (h : line ∈ lines bytes) :
    content (reencode line) = reencode (content line) := by
  obtain ⟨body, hbody, rfl | ⟨rfl, -⟩⟩ := exists_body h
  · have hline : reencode (body ++ [0x0A]) = reencode body ++ [0x0A] :=
      reencode_ascii (by decide) body []
    rw [hline, content_feed_eq_withoutReturn, content_feed_eq_withoutReturn,
      withoutReturn_reencode]
  · rw [content_open hbody, content_open (feed_not_mem_reencode hbody)]

/-- A decoded line is read alike, unless it has become too long. -/
theorem alike_reencode {bytes line : Bytes} (h : line ∈ lines bytes)
    (hshort : (content (reencode line)).length ≤ maxLength) : Alike (reencode line) line := by
  intro number
  have hlen : (content line).length ≤ maxLength := by
    rw [content_reencode h] at hshort
    exact Nat.le_trans (length_le_encode_decode _) hshort
  rw [token, token, if_neg (Nat.not_lt.2 hshort), if_neg (Nat.not_lt.2 hlen), content_reencode h,
    decode_reencode]

end Line

/-- **A file can be decoded before it is cut.** If no line of the text that some bytes are decoded
to is too long, the bytes of the text are read like the bytes themselves: they give the same
configuration, or the same error in the same line. -/
theorem parse_reencode (fs : FileSystem) (limit : Nat) {bytes : Bytes}
    (h : ∀ c ∈ Line.contents (Text.reencode bytes), c.length ≤ Line.maxLength) :
    parse fs (Text.reencode bytes) limit = parse fs bytes limit := by
  apply parse_congr
  rw [Line.contents_eq, Line.lines_reencode, List.map_map, List.forall_mem_map] at h
  rw [Line.lines_reencode, List.forall₂_map_left_iff, List.forall₂_same]
  intro line hline
  exact Line.alike_reencode hline (h line hline)

/-- A header, a comment that ends within a character of four bytes, and a key that is no UTF-8 at
all. -/
def truncatedText : Bytes :=
  Text.encode "[c]\r\n#".toList ++ [0xF0, 0x9F, 0x98, 0x0D, 0x0A] ++ [0xE2, 0x82, 0xFF, 0x0D]

theorem reencode_truncatedText :
    Text.reencode truncatedText = Text.encode "[c]\r\n#\uFFFD\r\n\uFFFD\uFFFD\r".toList := by
  cbv

/-- The bytes that end a line end the character before as well, and the error names in either case
what became of the key. -/
theorem parse_reencode_truncatedText :
    (∀ c ∈ Line.contents (Text.reencode truncatedText), c.length ≤ Line.maxLength) ∧
    Text.reencode truncatedText ≠ truncatedText ∧
    parse (.ofList []) truncatedText 0 = .error (.outsideOptions 3 "\uFFFD\uFFFD") ∧
    parse (.ofList []) (Text.encode "[c]\r\n#\uFFFD\r\n\uFFFD\uFFFD\r".toList) 0 =
      .error (.outsideOptions 3 "\uFFFD\uFFFD") := by
  have hshort : ∀ c ∈ Line.contents (Text.reencode truncatedText), c.length ≤ Line.maxLength := by
    rw [reencode_truncatedText]
    decide
  have hparse : parse (.ofList []) truncatedText 0 =
      .error (.outsideOptions 3 "\uFFFD\uFFFD") := by cbv
  have hsame := parse_reencode (.ofList []) 0 hshort
  rw [hparse, reencode_truncatedText] at hsame
  refine ⟨hshort, ?_, hparse, hsame⟩
  rw [reencode_truncatedText]
  decide

end PackageConf
