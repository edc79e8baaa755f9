/-
# What edits leave behind

The data after an edit that succeeds, byte by byte.  `written` is the result of an overwrite and
`balanced` that of a balance; the edits give these exactly on ranges that fit (`overwrite_eq_ok`,
`balance_eq_ok`).  A balance changes one byte only, and that byte completes the others of its range
to a sum that is a multiple of 256 (`balanced_balances`), whether or not it lies in the range itself.
-/
import RomImage.Proofs.ByteTotal

namespace RomImage

/-! ## Ranges -/

/-- The `len` bytes from `start` on, as far as the data goes. -/
def bytesIn (data : Bytes) (start len : Nat) : Bytes :=
  (data.drop start).take len

/-- The bytes of a range, one by one. -/
theorem getElem?_bytesIn (data : Bytes) (start len i : Nat) :
    (bytesIn data start len)[i]? = if i < len then data[start + i]? else none := by
  rw [bytesIn, List.getElem?_take, List.getElem?_drop]

/-- Equal bytes at the places of a range make equal ranges. -/
theorem bytesIn_congr {a b : Bytes} {start len : Nat}
    (h : ∀ i, start ≤ i → i < start + len → a[i]? = b[i]?) :
    bytesIn a start len = bytesIn b start len := by
  apply List.ext_getElem?
  intro i
  rw [getElem?_bytesIn, getElem?_bytesIn]
  by_cases hi : i < len
  · rw [if_pos hi, if_pos hi, h (start + i) (by omega) (by omega)]
  · rw [if_neg hi, if_neg hi]

/-- The bytes of a range but one do not depend on that one. -/
theorem eraseIdx_bytesIn_congr {a b : Bytes} {start len field : Nat}
    (h : ∀ i, i ≠ start + field → a[i]? = b[i]?) :
    (bytesIn a start len).eraseIdx field = (bytesIn b start len).eraseIdx field := by
  apply List.ext_getElem?
  intro i
  simp only [List.getElem?_eraseIdx, getElem?_bytesIn]
  by_cases hi : i < field
  · rw [if_pos hi, if_pos hi, h (start + i) (by omega)]
  · rw [if_neg hi, if_neg hi, h (start + (i + 1)) (by omega)]

/-! ## Overwriting -/

/-- The data with `new` in the place of the bytes at `offset`. -/
def written (data : Bytes) (offset : Nat) (new : Bytes) : Bytes :=
  data.take offset ++ new ++ data.drop (offset + new.length)

/-- Overwriting a range that fits gives the written data. -/
theorem overwrite_eq_ok {data new : Bytes} {offset : Nat}
    (h : rangeFits data.length offset new.length = true) :
    overwrite data offset new = .ok (written data offset new) := by
  rw [overwrite, if_pos h, written]

/-- Writing inside the data keeps its length. -/
theorem length_written {data new : Bytes} {offset : Nat}
    (h : offset + new.length ≤ data.length) :
    (written data offset new).length = data.length := by
  simp only [written, List.length_append, List.length_take, List.length_drop]
  omega

/-- Written data holds the new bytes at their place and the old ones elsewhere. -/
theorem getElem?_written {data new : Bytes} {offset : Nat}
    (h : offset + new.length ≤ data.length) (i : Nat) :
    (written data offset new)[i]? =
      if offset ≤ i ∧ i < offset + new.length then new[i - offset]? else data[i]? := by
  have hfront : (data.take offset).length = offset := by
    rw [List.length_take]
    omega
  rw [written, List.append_assoc]
  rcases Nat.lt_or_ge i offset with hbefore | hfrom
  · rw [if_neg (by omega), List.getElem?_append_left (by omega),
      List.getElem?_take_of_lt hbefore]
  · rw [List.getElem?_append_right (by omega), hfront]
    rcases Nat.lt_or_ge i (offset + new.length) with hinside | hafter
    · rw [if_pos ⟨hfrom, hinside⟩, List.getElem?_append_left (by omega)]
    · rw [if_neg (by omega), List.getElem?_append_right (by omega), List.getElem?_drop]
      congr 1
      omega

/-- Writing a single byte changes that place only. -/
theorem getElem?_written_singleton {data : Bytes} {offset : Nat} {b : UInt8}
    (h : offset < data.length) (i : Nat) :
    (written data offset [b])[i]? = if i = offset then some b else data[i]? := by
  rw [getElem?_written h, List.length_singleton]
  by_cases hi : i = offset
  · rw [if_pos hi, if_pos (by omega), hi, Nat.sub_self, List.getElem?_cons_zero]
  · rw [if_neg hi, if_neg (by omega)]

/-- Of two bytes written at one place the second stays. -/
theorem written_written_singleton {data : Bytes} {offset : Nat} {a b : UInt8}
    (h : offset < data.length) :
    written (written data offset [a]) offset [b] = written data offset [b] := by
  have hlen : (written data offset [a]).length = data.length :=
    length_written h
  apply List.ext_getElem?
  intro i
  rw [getElem?_written_singleton (by omega), getElem?_written_singleton h,
    getElem?_written_singleton h]
  by_cases hi : i = offset
  · rw [if_pos hi, if_pos hi]
  · rw [if_neg hi, if_neg hi, if_neg hi]

/-- Written data does not depend on the bytes that are overwritten. -/
theorem written_congr {a b new : Bytes} {offset : Nat} (hlen : a.length = b.length)
    (hin : offset + new.length ≤ a.length)
    (h : ∀ i, ¬ (offset ≤ i ∧ i < offset + new.length) → a[i]? = b[i]?) :
    written a offset new = written b offset new := by
  apply List.ext_getElem?
  intro i
  rw [getElem?_written hin, getElem?_written (by omega)]
  by_cases hi : offset ≤ i ∧ i < offset + new.length
  · rw [if_pos hi, if_pos hi]
  · rw [if_neg hi, if_neg hi, h i hi]

/-- A single byte that is written hides the one in its place. -/
theorem written_singleton_congr {a b : Bytes} {offset : Nat} {c : UInt8}
    (hlen : a.length = b.length) (hin : offset < a.length)
    (h : ∀ i, i ≠ offset → a[i]? = b[i]?) : written a offset [c] = written b offset [c] := by
  apply written_congr hlen hin
  intro i hi
  rw [List.length_singleton] at hi
  exact h i (by omega)

/-! ## Balancing -/

/-- The byte that balances the `size` bytes at `start`, the byte `field` of them counted as zero. -/
def balanceOf (data : Bytes) (start size field : Nat) : UInt8 :=
  balanceByte (bytesIn (written data (start + field) [0]) start size)

/-- The data with the balance byte of the `size` bytes at `start` in its place. -/
def balanced (data : Bytes) (start size field : Nat) : Bytes :=
  written data (start + field) [balanceOf data start size field]

/-- A range that fits is what a slice gives. -/
theorem slice_eq_ok {data : Bytes} {start size : Nat} (h : start + size ≤ data.length) :
    slice data start (start + size) = .ok (bytesIn data start size) := by
  rw [slice, if_pos ⟨by omega, h⟩, Nat.add_sub_cancel_left, bytesIn]

/-- Balancing gives the balanced data if the field and the range both fit. -/
theorem balance_eq_ok {data : Bytes} {start size field : Nat}
    (hfield : rangeFits data.length (start + field) 1 = true)
    (hrange : rangeFits data.length start size = true) :
    balance data start size field = .ok (balanced data start size field) := by
  obtain ⟨hfieldWord, hfieldIn⟩ := rangeFits_iff.1 hfield
  obtain ⟨hrangeWord, hrangeIn⟩ := rangeFits_iff.1 hrange
  have hlen : (written data (start + field) [0]).length = data.length :=
    length_written hfieldIn
  have hcleared : overwrite data (start + field) [0] = .ok (written data (start + field) [0]) :=
    overwrite_eq_ok hfield
  have hslice : slice (written data (start + field) [0]) start (start + size)
      = .ok (bytesIn (written data (start + field) [0]) start size) :=
    slice_eq_ok (by omega)
  have hset : overwrite (written data (start + field) [0]) (start + field)
      [balanceOf data start size field] = .ok (balanced data start size field) := by
    rw [overwrite_eq_ok (by rw [hlen]; exact hfield), written_written_singleton (by omega),
      balanced]
  simp only [balance, addWord_eq_ok (show start + field < wordCount by omega),
    addWord_eq_ok hrangeWord, bind, Except.bind, hcleared, hslice]
  exact hset

/-- Balancing keeps the length. -/
theorem length_balanced {data : Bytes} {start size field : Nat}
    (h : start + field < data.length) :
    (balanced data start size field).length = data.length :=
  length_written h

/-- Balancing changes no byte but the one that balances. -/
theorem getElem?_balanced {data : Bytes} {start size field : Nat}
    (h : start + field < data.length) (i : Nat) :
    (balanced data start size field)[i]? =
      if i = start + field then some (balanceOf data start size field) else data[i]? :=
  getElem?_written_singleton h i

/-- The balance byte completes the other bytes of the range to a multiple of 256. -/
theorem balanced_balances {data : Bytes} {start size field : Nat}
    (h : start + field < data.length) :
    ((balanceOf data start size field).toNat +
      byteTotal ((bytesIn (balanced data start size field) start size).eraseIdx field)) % 256
        = 0 := by
  -- the other bytes are those of the data whose field has been cleared
  have hothers : (bytesIn (balanced data start size field) start size).eraseIdx field
      = (bytesIn (written data (start + field) [0]) start size).eraseIdx field := by
    apply eraseIdx_bytesIn_congr
    intro i hi
    rw [getElem?_balanced h, getElem?_written_singleton h, if_neg hi, if_neg hi]
  have hzero : ∀ b, (bytesIn (written data (start + field) [0]) start size)[field]? = some b →
      b = 0 := by
    intro b hb
    rw [getElem?_bytesIn, getElem?_written_singleton h, if_pos rfl] at hb
    split at hb
    · exact (Option.some.inj hb).symm
    · cases hb
  rw [hothers, byteTotal_eraseIdx_of_zero hzero]
  exact toNat_balanceByte_add_byteTotal _

/-- A range that holds its balance byte sums to a multiple of 256. -/
theorem byteTotal_balanced {data : Bytes} {start size field : Nat}
    (h : start + field < data.length) (hfield : field < size) :
    byteTotal (bytesIn (balanced data start size field) start size) % 256 = 0 := by
  have hbyte : (bytesIn (balanced data start size field) start size)[field]?
      = some (balanceOf data start size field) := by
    rw [getElem?_bytesIn, if_pos hfield, getElem?_balanced h, if_pos rfl]
  rw [← byteTotal_eraseIdx hbyte]
  exact balanced_balances h

/-- A range that ends before its balance byte is left as it was. -/
theorem bytesIn_balanced_of_le {data : Bytes} {start size field : Nat}
    (h : start + field < data.length) (hfield : size ≤ field) :
    bytesIn (balanced data start size field) start size = bytesIn data start size := by
  apply bytesIn_congr
  intro i _ hi
  rw [getElem?_balanced h, if_neg (by omega)]

/-- The balance byte does not depend on the byte that was in its place. -/
theorem balanceOf_congr {a b : Bytes} {start size field : Nat} (hlen : a.length = b.length)
    (hfield : start + field < a.length) (h : ∀ i, i ≠ start + field → a[i]? = b[i]?) :
    balanceOf a start size field = balanceOf b start size field := by
  rw [balanceOf, balanceOf, written_singleton_congr hlen hfield h]

/-- Nor does the balanced data. -/
theorem balanced_congr {a b : Bytes} {start size field : Nat} (hlen : a.length = b.length)
    (hfield : start + field < a.length) (h : ∀ i, i ≠ start + field → a[i]? = b[i]?) :
    balanced a start size field = balanced b start size field := by
  rw [balanced, balanced, balanceOf_congr hlen hfield h, written_singleton_congr hlen hfield h]

end RomImage
