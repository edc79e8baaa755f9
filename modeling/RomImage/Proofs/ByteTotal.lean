/-
# Exact sums of bytes

The sum of bytes as a natural number (`byteTotal`), beside the wrapping sum that the edits compute.
A range is balanced if its exact sum is a multiple of 256; the byte that balances the others is unique
(`eq_of_balances`), and a byte that is taken out takes out just its own value (`byteTotal_eraseIdx`).
-/
import RomImage.Bytes

namespace RomImage

/-- The sum of the bytes as a natural number. -/
def byteTotal : Bytes → Nat
  | [] => 0
  | b :: data => b.toNat + byteTotal data

@[simp]
theorem byteTotal_nil : byteTotal [] = 0 := rfl

@[simp]
theorem byteTotal_cons (b : UInt8) (data : Bytes) :
    byteTotal (b :: data) = b.toNat + byteTotal data := rfl

/-! ## The wrapping sum -/

/-- A wrapping sum, begun at any byte, is the exact one modulo 256. -/
theorem toNat_foldl_add (data : Bytes) (first : UInt8) :
    (data.foldl (· + ·) first).toNat = (first.toNat + byteTotal data) % 256 := by
  induction data generalizing first with
  | nil =>
      have hfirst := first.toNat_lt
      rw [List.foldl_nil, byteTotal_nil]
      omega
  | cons b data ih =>
      rw [List.foldl_cons, ih, UInt8.toNat_add, byteTotal_cons]
      omega

/-- The sum that the edits use is the exact one modulo 256. -/
theorem toNat_byteSum (data : Bytes) : (byteSum data).toNat = byteTotal data % 256 := by
  rw [byteSum, toNat_foldl_add, UInt8.toNat_zero, Nat.zero_add]

/-! ## Bytes that balance others -/

/-- The balance byte and the bytes that it was made for sum to a multiple of 256. -/
theorem toNat_balanceByte_add_byteTotal (data : Bytes) :
    ((balanceByte data).toNat + byteTotal data) % 256 = 0 := by
  have hsum : (byteSum data + balanceByte data).toNat = (0 : UInt8).toNat := by
    rw [byteSum_add_balanceByte]
  rw [UInt8.toNat_add, toNat_byteSum, UInt8.toNat_zero] at hsum
  omega

/-- Only one byte completes a sum to a multiple of 256. -/
theorem eq_of_balances {a b : UInt8} {rest : Nat} (ha : (a.toNat + rest) % 256 = 0)
    (hb : (b.toNat + rest) % 256 = 0) : a = b := by
  have hlta := a.toNat_lt
  have hltb := b.toNat_lt
  apply UInt8.toNat_inj.1
  omega

/-! ## Leaving a byte out -/

/-- A byte that is left out is missing from the sum with its value. -/
theorem byteTotal_eraseIdx {data : Bytes} {i : Nat} {b : UInt8} (h : data[i]? = some b) :
    b.toNat + byteTotal (data.eraseIdx i) = byteTotal data := by
  induction data generalizing i with
  | nil => simp at h
  | cons c data ih =>
      cases i with
      | zero =>
          obtain rfl : c = b := by simpa using h
          rw [List.eraseIdx_cons_zero, byteTotal_cons]
      | succ i =>
          have hrest := ih (by simpa using h)
          rw [List.eraseIdx_cons_succ, byteTotal_cons, byteTotal_cons]
          omega

/-- Leaving out a zero byte, or none, does not change the sum. -/
theorem byteTotal_eraseIdx_of_zero {data : Bytes} {i : Nat}
    (h : ∀ b, data[i]? = some b → b = 0) : byteTotal (data.eraseIdx i) = byteTotal data := by
  cases hb : data[i]? with
  | none => rw [List.eraseIdx_of_length_le (List.getElem?_eq_none_iff.1 hb)]
  | some b =>
      have htotal := byteTotal_eraseIdx hb
      rw [h b hb, UInt8.toNat_zero] at htotal
      omega

end RomImage
