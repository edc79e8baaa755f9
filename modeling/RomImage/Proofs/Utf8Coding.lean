/-
# Encoded text is decoded to itself

The decoder takes the bytes of each character back to that character and stands between characters
afterwards (`foldl_advance_utf8EncodeChar`), so that it reports an encoded text without a flaw
(`utf8Units_encodeUtf8`), and strict and lossy decoding both give the text.  Only the zero character is
encoded by a zero byte (`zero_not_mem_encodeUtf8`).
-/
import RomImage.Text.Utf8

namespace RomImage

/-! ## Bytes of a character -/

/-- The byte that adds the last six bits of `n` to a character. -/
def continuationByte (n : Nat) : UInt8 :=
  UInt8.ofNat (n % 64 + 128)

/-- A continuation byte is 128 more than its six bits. -/
theorem toNat_continuationByte (n : Nat) : (continuationByte n).toNat = n % 64 + 128 := by
  rw [continuationByte, UInt8.toNat_ofNat']
  omega

/-- A bound lets through the bytes from its least to its greatest. -/
theorem Utf8Bound.admits_iff {bound : Utf8Bound} {b : UInt8} :
    bound.admits b = true ↔
      bound.range.1.toNat ≤ b.toNat ∧ b.toNat ≤ bound.range.2.toNat := by
  simp only [admits, Bool.and_eq_true, decide_eq_true_eq, UInt8.le_iff_toNat_le]

/-- The bound on the second byte of a character of three bytes, by the bits of the first. -/
def boundOfThree (high : Nat) : Utf8Bound :=
  if high = 0 then .threeBytes else if high = 13 then .noSurrogate else .none

/-- The bound on the second byte of a character of four bytes, by the bits of the first. -/
def boundOfFour (high : Nat) : Utf8Bound :=
  if high = 0 then .fourBytes else if high = 4 then .lastPlane else .none

/-- Every continuation byte is let through where there is no special bound. -/
theorem admits_none (n : Nat) : Utf8Bound.none.admits (continuationByte n) = true := by
  rw [Utf8Bound.admits_iff, toNat_continuationByte]
  simp only [Utf8Bound.range, UInt8.reduceToNat]
  omega

/-- The bits of a second of three bytes are such that the character needs three and is no surrogate. -/
theorem admits_boundOfThree_iff {high k : Nat} :
    (boundOfThree high).admits (continuationByte k) = true ↔
      (high = 0 → 32 ≤ k % 64) ∧ (high = 13 → k % 64 < 32) := by
  rw [Utf8Bound.admits_iff, toNat_continuationByte, boundOfThree]
  split
  · simp only [Utf8Bound.range, UInt8.reduceToNat]
    omega
  · split
    · simp only [Utf8Bound.range, UInt8.reduceToNat]
      omega
    · simp only [Utf8Bound.range, UInt8.reduceToNat]
      omega

/-- The bits of a second of four bytes are such that the character needs four and is not too great. -/
theorem admits_boundOfFour_iff {high k : Nat} :
    (boundOfFour high).admits (continuationByte k) = true ↔
      (high = 0 → 16 ≤ k % 64) ∧ (high = 4 → k % 64 < 16) := by
  rw [Utf8Bound.admits_iff, toNat_continuationByte, boundOfFour]
  split
  · simp only [Utf8Bound.range, UInt8.reduceToNat]
    omega
  · split
    · simp only [Utf8Bound.range, UInt8.reduceToNat]
      omega
    · simp only [Utf8Bound.range, UInt8.reduceToNat]
      omega

namespace Utf8State

/-- The first byte of a character of two bytes. -/
theorem begin_two {high : Nat} (h : high < 32) (hlong : 2 ≤ high) :
    begin (UInt8.ofNat (high + 192)) = (.inside 0 .none high, []) := by
  revert high
  decide

/-- The first byte of a character of three bytes. -/
theorem begin_three {high : Nat} (h : high < 16) :
    begin (UInt8.ofNat (high + 224)) = (.inside 1 (boundOfThree high) high, []) := by
  revert high
  decide

/-- The first byte of a character of four bytes. -/
theorem begin_four {high : Nat} (h : high < 5) :
    begin (UInt8.ofNat (high + 240)) = (.inside 2 (boundOfFour high) high, []) := by
  revert high
  decide

variable {bound : Utf8Bound} {n : Nat}

/-- The last byte completes a character. -/
theorem feed_last (value : Nat) (h : bound.admits (continuationByte n) = true) :
    (inside 0 bound value).feed (continuationByte n)
      = (.start, [some (Char.ofNat (value * 64 + n % 64))]) := by
  rw [feed, if_pos h, toNat_continuationByte, Nat.add_sub_cancel]

/-- A byte before the last adds its bits to a character. -/
theorem feed_more (missing value : Nat) (h : bound.admits (continuationByte n) = true) :
    (inside (missing + 1) bound value).feed (continuationByte n)
      = (.inside missing .none (value * 64 + n % 64), []) := by
  rw [feed, if_pos h, toNat_continuationByte, Nat.add_sub_cancel]

end Utf8State

/-! ## Encodings by their length -/

section

variable {c : Char}

/-- The encoding of a character of one byte. -/
theorem utf8EncodeChar_one (h : c.val.toNat < 128) :
    String.utf8EncodeChar c = [UInt8.ofNat c.val.toNat] := by
  rw [String.utf8EncodeChar, if_pos (by omega)]

/-- The encoding of a character of two bytes. -/
theorem utf8EncodeChar_two (hlong : 128 ≤ c.val.toNat) (h : c.val.toNat < 2048) :
    String.utf8EncodeChar c
      = [UInt8.ofNat (c.val.toNat / 64 + 192), continuationByte c.val.toNat] := by
  rw [String.utf8EncodeChar, if_neg (by omega), if_pos (by omega),
    Nat.mod_eq_of_lt (show c.val.toNat / 64 < 32 by omega)]
  rfl

/-- The encoding of a character of three bytes. -/
theorem utf8EncodeChar_three (hlong : 2048 ≤ c.val.toNat) (h : c.val.toNat < 65536) :
    String.utf8EncodeChar c
      = [UInt8.ofNat (c.val.toNat / 4096 + 224), continuationByte (c.val.toNat / 64),
          continuationByte c.val.toNat] := by
  rw [String.utf8EncodeChar, if_neg (by omega), if_neg (by omega), if_pos (by omega),
    Nat.mod_eq_of_lt (show c.val.toNat / 4096 < 16 by omega)]
  rfl

/-- A character is no surrogate, and not beyond the last plane. -/
theorem toNat_valid (c : Char) :
    c.val.toNat < 0xd800 ∨ 0xdfff < c.val.toNat ∧ c.val.toNat < 0x110000 :=
  c.valid

/-- The encoding of a character of four bytes. -/
theorem utf8EncodeChar_four (hlong : 65536 ≤ c.val.toNat) :
    String.utf8EncodeChar c
      = [UInt8.ofNat (c.val.toNat / 262144 + 240), continuationByte (c.val.toNat / 4096),
          continuationByte (c.val.toNat / 64), continuationByte c.val.toNat] := by
  have hvalid := toNat_valid c
  rw [String.utf8EncodeChar, if_neg (by omega), if_neg (by omega), if_neg (by omega),
    Nat.mod_eq_of_lt (show c.val.toNat / 262144 < 8 by omega)]
  rfl

end

/-! ## Characters -/

section

variable {v : Nat} (reports : List Utf8Unit)

/-- A character of one byte is decoded. -/
theorem foldl_advance_one (h : v ≤ 127) :
    [UInt8.ofNat v].foldl Utf8State.advance (.start, reports)
      = (.start, some (Char.ofNat v) :: reports) := by
  have hbyte : (UInt8.ofNat v).toNat = v := by
    rw [UInt8.toNat_ofNat']
    omega
  have hbegin : Utf8State.begin (UInt8.ofNat v) = (.start, [some (Char.ofNat v)]) := by
    rw [Utf8State.begin]
    simp only [hbyte]
    rw [if_pos (by omega)]
  rw [List.foldl_cons, List.foldl_nil, Utf8State.advance, Utf8State.feed, hbegin]
  rfl

/-- A character of two bytes is decoded. -/
theorem foldl_advance_two (hlong : 127 < v) (h : v ≤ 2047) :
    [UInt8.ofNat (v / 64 + 192), continuationByte v].foldl Utf8State.advance (.start, reports)
      = (.start, some (Char.ofNat v) :: reports) := by
  have hbegin := Utf8State.begin_two (show v / 64 < 32 by omega) (by omega)
  have hlast := Utf8State.feed_last (v / 64) (admits_none v)
  have hvalue : v / 64 * 64 + v % 64 = v := Nat.div_add_mod' v 64
  rw [hvalue] at hlast
  simp only [List.foldl_cons, List.foldl_nil, Utf8State.advance]
  rw [Utf8State.feed, hbegin]
  simp only [hlast]
  rfl

/-- The second byte of a character of three bytes is let through: the character is not encoded in more
bytes than it needs, and it is no surrogate. -/
theorem admits_boundOfThree (hlong : 2047 < v) (hvalid : v < 0xd800 ∨ 0xdfff < v)
    (h : v ≤ 65535) : (boundOfThree (v / 4096)).admits (continuationByte (v / 64)) = true :=
  admits_boundOfThree_iff.2 ⟨by omega, by omega⟩

/-- A character of three bytes is decoded. -/
theorem foldl_advance_three (hlong : 2047 < v) (hvalid : v < 0xd800 ∨ 0xdfff < v)
    (h : v ≤ 65535) :
    [UInt8.ofNat (v / 4096 + 224), continuationByte (v / 64), continuationByte v].foldl
        Utf8State.advance (.start, reports)
      = (.start, some (Char.ofNat v) :: reports) := by
  have hbegin := Utf8State.begin_three (show v / 4096 < 16 by omega)
  have hmore := Utf8State.feed_more 0 (v / 4096) (admits_boundOfThree hlong hvalid h)
  have hlast := Utf8State.feed_last (v / 4096 * 64 + v / 64 % 64) (admits_none v)
  have hvalue : (v / 4096 * 64 + v / 64 % 64) * 64 + v % 64 = v := by omega
  rw [hvalue] at hlast
  simp only [List.foldl_cons, List.foldl_nil, Utf8State.advance]
  rw [Utf8State.feed, hbegin]
  simp only [hmore, hlast]
  rfl

/-- The second byte of a character of four bytes is let through: the character is not encoded in more
bytes than it needs, and it is not too great. -/
theorem admits_boundOfFour (hlong : 65535 < v) (h : v < 0x110000) :
    (boundOfFour (v / 262144)).admits (continuationByte (v / 4096)) = true :=
  admits_boundOfFour_iff.2 ⟨by omega, by omega⟩

/-- A character of four bytes is decoded. -/
theorem foldl_advance_four (hlong : 65535 < v) (h : v < 0x110000) :
    [UInt8.ofNat (v / 262144 + 240), continuationByte (v / 4096), continuationByte (v / 64),
        continuationByte v].foldl Utf8State.advance (.start, reports)
      = (.start, some (Char.ofNat v) :: reports) := by
  have hbegin := Utf8State.begin_four (show v / 262144 < 5 by omega)
  have hsecond := Utf8State.feed_more 1 (v / 262144) (admits_boundOfFour hlong h)
  have hthird := Utf8State.feed_more 0 (v / 262144 * 64 + v / 4096 % 64)
    (admits_none (v / 64))
  have hlast := Utf8State.feed_last ((v / 262144 * 64 + v / 4096 % 64) * 64 + v / 64 % 64)
    (admits_none v)
  have hvalue : ((v / 262144 * 64 + v / 4096 % 64) * 64 + v / 64 % 64) * 64 + v % 64 = v := by
    omega
  rw [hvalue] at hlast
  simp only [List.foldl_cons, List.foldl_nil, Utf8State.advance]
  rw [Utf8State.feed, hbegin]
  simp only [hsecond, hthird, hlast]
  rfl

/-- The bytes of a character are decoded to that character. -/
theorem foldl_advance_utf8EncodeChar (c : Char) :
    (String.utf8EncodeChar c).foldl Utf8State.advance (.start, reports)
      = (.start, some c :: reports) := by
  have hvalid := toNat_valid c
  have hchar : Char.ofNat c.val.toNat = c := Char.ofNat_toNat c
  -- the encoding has as many bytes as the value of the character needs
  by_cases hone : c.val.toNat < 128
  · rw [utf8EncodeChar_one hone, foldl_advance_one reports (by omega), hchar]
  by_cases htwo : c.val.toNat < 2048
  · rw [utf8EncodeChar_two (by omega) htwo, foldl_advance_two reports (by omega) (by omega), hchar]
  by_cases hthree : c.val.toNat < 65536
  · rw [utf8EncodeChar_three (by omega) hthree,
      foldl_advance_three reports (by omega) (by omega) (by omega), hchar]
  · rw [utf8EncodeChar_four (by omega), foldl_advance_four reports (by omega) (by omega), hchar]

end

/-! ## Texts -/

@[simp]
theorem encodeUtf8_nil : encodeUtf8 [] = [] := rfl

/-- A text is encoded character by character. -/
theorem encodeUtf8_cons (c : Char) (cs : List Char) :
    encodeUtf8 (c :: cs) = String.utf8EncodeChar c ++ encodeUtf8 cs :=
  List.flatMap_cons

/-- An encoded text is decoded character by character. -/
theorem foldl_advance_encodeUtf8 (cs : List Char) (reports : List Utf8Unit) :
    (encodeUtf8 cs).foldl Utf8State.advance (.start, reports)
      = (.start, (cs.map some).reverse ++ reports) := by
  induction cs generalizing reports with
  | nil => rfl
  | cons c cs ih =>
      rw [encodeUtf8_cons, List.foldl_append, foldl_advance_utf8EncodeChar, ih, List.map_cons,
        List.reverse_cons, List.append_assoc, List.singleton_append]

/-- The decoder reports the characters of an encoded text, and no flaw. -/
theorem utf8Units_encodeUtf8 (cs : List Char) : utf8Units (encodeUtf8 cs) = cs.map some := by
  rw [utf8Units, foldl_advance_encodeUtf8]
  simp [Utf8State.finish]

/-- Strict decoding gives an encoded text back. -/
theorem decodeStrict_encodeUtf8 (cs : List Char) : decodeStrict (encodeUtf8 cs) = some cs := by
  rw [decodeStrict, utf8Units_encodeUtf8]
  induction cs with
  | nil => rfl
  | cons c cs ih => simp [ih]

/-- Lossy decoding loses nothing of an encoded text. -/
theorem decodeLossy_encodeUtf8 (cs : List Char) : decodeLossy (encodeUtf8 cs) = cs := by
  rw [decodeLossy, utf8Units_encodeUtf8, List.map_map]
  exact List.map_id cs

/-- Texts one after the other are encoded one after the other. -/
theorem encodeUtf8_append (cs ds : List Char) :
    encodeUtf8 (cs ++ ds) = encodeUtf8 cs ++ encodeUtf8 ds :=
  List.flatMap_append

/-- Only the zero character has a zero byte. -/
theorem zero_not_mem_utf8EncodeChar {c : Char} (h : c ≠ '\x00') :
    (0 : UInt8) ∉ String.utf8EncodeChar c := by
  have hpos : ∀ {n : Nat}, 0 < n → n < 256 → (0 : UInt8) ≠ UInt8.ofNat n := by
    intro n hn hlt hzero
    have hzero' := congrArg UInt8.toNat hzero
    rw [UInt8.toNat_ofNat', UInt8.toNat_zero, Nat.mod_eq_of_lt hlt] at hzero'
    omega
  have hc : 0 < c.val.toNat := by
    rw [Nat.pos_iff_ne_zero]
    intro hzero
    apply h
    rw [← Char.ofNat_toNat c, Char.toNat, hzero]
  have hcontinuation : ∀ n : Nat, (0 : UInt8) ≠ UInt8.ofNat (n % 64 + 128) :=
    fun n => hpos (by omega) (by omega)
  -- every byte of a longer character has its highest bit set
  rw [String.utf8EncodeChar]
  split
  · rename_i hone
    simp only [List.mem_cons, List.not_mem_nil, or_false]
    exact hpos hc (by omega)
  · split
    · simp only [List.mem_cons, List.not_mem_nil, or_false, not_or]
      exact ⟨hpos (by omega) (by omega), hcontinuation _⟩
    · split
      · simp only [List.mem_cons, List.not_mem_nil, or_false, not_or]
        exact ⟨hpos (by omega) (by omega), hcontinuation _, hcontinuation _⟩
      · simp only [List.mem_cons, List.not_mem_nil, or_false, not_or]
        exact ⟨hpos (by omega) (by omega), hcontinuation _, hcontinuation _, hcontinuation _⟩

/-- A text without the zero character has no zero byte. -/
theorem zero_not_mem_encodeUtf8 {cs : List Char} (h : '\x00' ∉ cs) :
    (0 : UInt8) ∉ encodeUtf8 cs := by
  intro hzero
  obtain ⟨c, hc, hzero⟩ := List.mem_flatMap.1 hzero
  refine zero_not_mem_utf8EncodeChar ?_ hzero
  rintro rfl
  exact h hc

end RomImage
