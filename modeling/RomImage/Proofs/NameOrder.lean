/-
# The order of names

Names are in order if the bytes that encode them are.  A character is encoded by a lead byte and so many
continuation bytes, each with the next six bits of its value (`leadAndTail`).  Of two characters with
encodings of the same length the lesser one has the lesser byte where the encodings first differ, and a
longer encoding has a greater lead byte (`utf8EncodeChar_lt`).  So the order of texts, character by
character, is that of their encodings, byte by byte (`name_lt_iff`).
-/
import Mathlib.Algebra.Group.Nat.Defs
import Mathlib.Tactic.ByContra
import RomImage.Proofs.Utf8Coding
import RomImage.Symbol.Table

namespace RomImage

/-! ## Lead bytes and continuation bytes -/

/-- The lead byte and the continuation bytes, `more` of them, that hold a value. -/
def leadAndTail (base : Nat) : Nat → Nat → List UInt8
  | 0, v => [UInt8.ofNat (v + base)]
  | more + 1, v => leadAndTail base more (v / 64) ++ [continuationByte v]

/-- Bytes are in order if the numbers that they hold are. -/
theorem ofNat_lt_ofNat {m n : Nat} (h : m < n) (hn : n < 256) : UInt8.ofNat m < UInt8.ofNat n := by
  rwa [UInt8.lt_iff_toNat_lt, UInt8.toNat_ofNat_of_lt' (Nat.lt_trans h hn),
    UInt8.toNat_ofNat_of_lt' hn]

/-- The lead byte comes first. -/
theorem leadAndTail_eq_cons (base more v : Nat) :
    ∃ tail, leadAndTail base more v = UInt8.ofNat (v / 64 ^ more + base) :: tail := by
  induction more generalizing v with
  | zero => exact ⟨[], by rw [leadAndTail, Nat.pow_zero, Nat.div_one]⟩
  | succ more ih =>
      obtain ⟨tail, htail⟩ := ih (v / 64)
      refine ⟨tail ++ [continuationByte v], ?_⟩
      rw [leadAndTail, htail, Nat.div_div_eq_div_mul, ← Nat.pow_succ', List.cons_append]

/-- Encodings with lead bytes in order are in order, whatever comes after them. -/
theorem leadAndTail_lt_of_lead {base base' more more' v w : Nat}
    (h : v / 64 ^ more + base < w / 64 ^ more' + base') (hw : w / 64 ^ more' + base' < 256)
    (xs ys : List UInt8) : leadAndTail base more v ++ xs < leadAndTail base' more' w ++ ys := by
  obtain ⟨tail, htail⟩ := leadAndTail_eq_cons base more v
  obtain ⟨tail', htail'⟩ := leadAndTail_eq_cons base' more' w
  rw [htail, htail', List.cons_append, List.cons_append, List.cons_lt_cons_iff]
  exact .inl (ofNat_lt_ofNat h hw)

/-- Encodings of the same length are in the order of their values, whatever comes after them. -/
theorem leadAndTail_lt {base more v w : Nat} (h : v < w) (hw : w / 64 ^ more + base < 256)
    (xs ys : List UInt8) : leadAndTail base more v ++ xs < leadAndTail base more w ++ ys := by
  induction more generalizing v w xs ys with
  | zero =>
      rw [Nat.pow_zero, Nat.div_one] at hw
      exact List.cons_lt_cons_iff.2 (.inl (ofNat_lt_ofNat (by omega) hw))
  | succ more ih =>
      rw [leadAndTail, leadAndTail, List.append_assoc, List.append_assoc]
      rcases Nat.lt_or_ge (v / 64) (w / 64) with hfront | hfront
      · apply ih hfront
        rwa [Nat.div_div_eq_div_mul, ← Nat.pow_succ']
      · -- the values differ in their last six bits alone
        have heq : v / 64 = w / 64 := by omega
        rw [heq]
        apply List.append_left_lt
        exact List.cons_lt_cons_iff.2 (.inl (ofNat_lt_ofNat (by omega) (by omega)))

/-! ## Characters -/

/-- The value is one that is encoded by a lead byte of this base and so many continuation bytes. -/
inductive EncodedBy : Nat → Nat → Nat → Prop
  | one {v : Nat} : v < 128 → EncodedBy 0 0 v
  | two {v : Nat} : 128 ≤ v → v < 2048 → EncodedBy 192 1 v
  | three {v : Nat} : 2048 ≤ v → v < 65536 → EncodedBy 224 2 v
  | four {v : Nat} : 65536 ≤ v → v < 0x110000 → EncodedBy 240 3 v

/-- A character is encoded by a lead byte and continuation bytes. -/
theorem exists_encodedBy (c : Char) : ∃ base more, EncodedBy base more c.val.toNat ∧
    String.utf8EncodeChar c = leadAndTail base more c.val.toNat := by
  have hvalid := toNat_valid c
  by_cases hone : c.val.toNat < 128
  · exact ⟨0, 0, .one hone, utf8EncodeChar_one hone⟩
  by_cases htwo : c.val.toNat < 2048
  · exact ⟨192, 1, .two (by omega) htwo, utf8EncodeChar_two (by omega) htwo⟩
  by_cases hthree : c.val.toNat < 65536
  · refine ⟨224, 2, .three (by omega) hthree, ?_⟩
    rw [utf8EncodeChar_three (by omega) hthree]
    simp [leadAndTail, Nat.div_div_eq_div_mul]
  · refine ⟨240, 3, .four (by omega) (by omega), ?_⟩
    rw [utf8EncodeChar_four (by omega)]
    simp [leadAndTail, Nat.div_div_eq_div_mul]

/-- The encoding of a lesser character is lesser, whatever comes after the two. -/
theorem utf8EncodeChar_lt {c d : Char} (h : c < d) (xs ys : List UInt8) :
    String.utf8EncodeChar c ++ xs < String.utf8EncodeChar d ++ ys := by
  have hlt : c.val.toNat < d.val.toNat := h
  obtain ⟨base, more, hc, hencodingC⟩ := exists_encodedBy c
  obtain ⟨base', more', hd, hencodingD⟩ := exists_encodedBy d
  rw [hencodingC, hencodingD]
  -- a value that needs more bytes has a lead byte beyond those of the values that need fewer
  cases hc <;> cases hd <;>
    first
    | exact leadAndTail_lt hlt (by omega) xs ys
    | exact leadAndTail_lt_of_lead (by omega) (by omega) xs ys

/-! ## Texts -/

/-- Texts in order are encoded by bytes in order. -/
theorem encodeUtf8_lt {cs ds : List Char} (h : cs < ds) : encodeUtf8 cs < encodeUtf8 ds := by
  induction h with
  | @nil d ds =>
      obtain ⟨base, more, _, hencoding⟩ := exists_encodedBy d
      obtain ⟨tail, htail⟩ := leadAndTail_eq_cons base more d.val.toNat
      rw [encodeUtf8_nil, encodeUtf8_cons, hencoding, htail, List.cons_append]
      exact List.nil_lt_cons _ _
  | cons _ ih =>
      rw [encodeUtf8_cons, encodeUtf8_cons]
      exact List.append_left_lt ih
  | rel hlt =>
      rw [encodeUtf8_cons, encodeUtf8_cons]
      exact utf8EncodeChar_lt hlt _ _

/-- Names are in order exactly if the bytes that encode them are. -/
theorem name_lt_iff {a b : String} : a < b ↔ encodeUtf8 a.toList < encodeUtf8 b.toList := by
  constructor
  · exact fun h => encodeUtf8_lt (String.lt_iff.1 h)
  · intro h
    by_contra hlt
    by_cases hne : a = b
    · subst hne
      exact List.lt_irrefl _ h
    · exact List.lt_asymm h (encodeUtf8_lt (String.lt_iff.1 (name_lt_of_not_lt hlt hne)))

end RomImage
