/-
# Balanced ranges

What balancing a range does to the data, for every range that can be balanced.  The balance byte is the only
byte that changes; what stood in its place does not count, so that balancing once more changes nothing; and
if it lies in the range, it is the only byte that makes the sum of the range a multiple of 256
(`balance_settles`).
-/
import RomImage.Proofs.EditedBytes
import RomImage.Proofs.Outcome

namespace RomImage

variable {data new result : Bytes} {start size field offset : Nat}

/-! ## When edits succeed -/

theorem addWord_eq_ok_iff {a b sum : Nat} : addWord a b = .ok sum ↔ a + b < wordCount ∧ a + b = sum := by
  unfold addWord
  split <;> grind

theorem slice_eq_ok_iff {stop : Nat} {bytes : Bytes} :
    slice data start stop = .ok bytes ↔
      start ≤ stop ∧ stop ≤ data.length ∧ bytesIn data start (stop - start) = bytes := by
  unfold slice bytesIn
  split <;> grind

/-- An overwrite succeeds exactly on a range that fits, and gives the written data. -/
theorem overwrite_eq_ok_iff :
    overwrite data offset new = .ok result ↔
      rangeFits data.length offset new.length = true ∧ written data offset new = result := by
  unfold overwrite
  split <;> simp_all [written]

/-- A balance succeeds exactly if the field and the range both fit, and gives the balanced data. -/
theorem balance_eq_ok_iff :
    balance data start size field = .ok result ↔
      rangeFits data.length (start + field) 1 = true ∧ rangeFits data.length start size = true ∧
        balanced data start size field = result := by
  constructor
  · intro h
    obtain ⟨fieldAt, hfieldAt, hcleared⟩ := bind_eq_ok_iff.1 h
    obtain ⟨_, rfl⟩ := addWord_eq_ok_iff.1 hfieldAt
    obtain ⟨cleared, hclear, hsummed⟩ := bind_eq_ok_iff.1 hcleared
    obtain ⟨hfield, rfl⟩ := overwrite_eq_ok_iff.1 hclear
    obtain ⟨stop, hstop, hsliced⟩ := bind_eq_ok_iff.1 hsummed
    obtain ⟨hword, rfl⟩ := addWord_eq_ok_iff.1 hstop
    obtain ⟨range, hrange, _⟩ := bind_eq_ok_iff.1 hsliced
    obtain ⟨_, hin, _⟩ := slice_eq_ok_iff.1 hrange
    rw [length_written (rangeFits_iff.1 hfield).2] at hin
    have hfits : rangeFits data.length start size = true := rangeFits_iff.2 ⟨hword, hin⟩
    rw [balance_eq_ok hfield hfits] at h
    exact ⟨hfield, hfits, Except.ok.inj h⟩
  · rintro ⟨hfield, hfits, rfl⟩
    exact balance_eq_ok hfield hfits

/-! ## The byte that balances -/

/-- The sum of a range with a byte put into it is that of its other bytes and of that byte. -/
theorem byteTotal_bytesIn_set (hin : start + field < data.length) (hfield : field < size) (b : UInt8) :
    byteTotal (bytesIn (data.set (start + field) b) start size)
      = b.toNat + byteTotal ((bytesIn data start size).eraseIdx field) := by
  have hbyte : (bytesIn (data.set (start + field) b) start size)[field]? = some b := by
    rw [getElem?_bytesIn, if_pos hfield, List.getElem?_set_self hin]
  have hothers : (bytesIn (data.set (start + field) b) start size).eraseIdx field
      = (bytesIn data start size).eraseIdx field := by
    apply eraseIdx_bytesIn_congr
    intro i hi
    exact List.getElem?_set_ne hi.symm
  rw [← byteTotal_eraseIdx hbyte, hothers]

/-- Balancing leaves the bytes of the range but the balance byte as they were. -/
theorem eraseIdx_bytesIn_balanced (hin : start + field < data.length) :
    (bytesIn (balanced data start size field) start size).eraseIdx field
      = (bytesIn data start size).eraseIdx field := by
  apply eraseIdx_bytesIn_congr
  intro i hi
  rw [getElem?_balanced hin, if_neg hi]

/-- The balance byte, and no other byte, completes the other bytes of the range to a multiple of 256. -/
theorem balances_iff (hin : start + field < data.length) (b : UInt8) :
    (b.toNat + byteTotal ((bytesIn data start size).eraseIdx field)) % 256 = 0 ↔
      b = balanceOf data start size field := by
  have hbalances : ((balanceOf data start size field).toNat +
      byteTotal ((bytesIn data start size).eraseIdx field)) % 256 = 0 := by
    rw [← eraseIdx_bytesIn_balanced hin]
    exact balanced_balances hin
  constructor
  · intro h
    exact eq_of_balances h hbalances
  · rintro rfl
    exact hbalances

/-- A range that has been balanced differs from the data at the field only.  The byte that was there before
does not count, and balancing again changes nothing.  If the field lies in the range, the range sums to a
multiple of 256, and it does so with no other byte in the field. -/
theorem balance_settles (h : balance data start size field = .ok result) :
    result.length = data.length ∧
    (∀ i, i ≠ start + field → result[i]? = data[i]?) ∧
    (∀ b, balance (data.set (start + field) b) start size field = .ok result) ∧
    balance result start size field = .ok result ∧
    (field < size →
      byteTotal (bytesIn result start size) % 256 = 0 ∧
      ∀ b, byteTotal (bytesIn (result.set (start + field) b) start size) % 256 = 0 ↔
        result[start + field]? = some b) := by
  obtain ⟨hfits, hrange, rfl⟩ := balance_eq_ok_iff.1 h
  have hin : start + field < data.length := (rangeFits_iff.1 hfits).2
  have hlen : (balanced data start size field).length = data.length := length_balanced hin
  have hframe : ∀ i, i ≠ start + field → (balanced data start size field)[i]? = data[i]? := by
    intro i hi
    rw [getElem?_balanced hin, if_neg hi]
  -- data that agree but for the field are balanced to the same
  have hagain : ∀ other : Bytes, other.length = data.length →
      (∀ i, i ≠ start + field → other[i]? = data[i]?) →
      balance other start size field = .ok (balanced data start size field) := by
    intro other hother hsame
    rw [← balanced_congr hother (hother ▸ hin) hsame]
    exact balance_eq_ok (hother ▸ hfits) (hother ▸ hrange)
  refine ⟨hlen, hframe, fun b => ?_, hagain _ hlen hframe, fun hfield => ⟨?_, fun b => ?_⟩⟩
  · exact hagain _ (List.length_set ..) fun i hi => List.getElem?_set_ne hi.symm
  · exact byteTotal_balanced hin hfield
  · rw [byteTotal_bytesIn_set (hlen ▸ hin) hfield, eraseIdx_bytesIn_balanced hin, balances_iff hin,
      getElem?_balanced hin, if_pos rfl, Option.some.injEq, eq_comm]

/-- In five bytes, the second of three in the middle is made the balance byte, and only `0xd0` is. -/
theorem balance_settles_middleBytes :
    balance [0xaa, 0x10, 0x05, 0x20, 0xbb] 1 3 1 = .ok [0xaa, 0x10, 0xd0, 0x20, 0xbb] ∧ 1 < 3 ∧
      balance [0xaa, 0x10, 0xd0, 0x20, 0xbb] 1 3 1 = .ok [0xaa, 0x10, 0xd0, 0x20, 0xbb] ∧
      ∀ b : UInt8, byteTotal (bytesIn [0xaa, 0x10, b, 0x20, 0xbb] 1 3) % 256 = 0 ↔ b = 0xd0 := by
  have h : balance [0xaa, 0x10, 0x05, 0x20, 0xbb] 1 3 1 = .ok [0xaa, 0x10, 0xd0, 0x20, 0xbb] := rfl
  obtain ⟨_, _, _, hagain, hsum⟩ := balance_settles h
  refine ⟨h, by decide, hagain, fun b => ?_⟩
  exact ((hsum (by decide)).2 b).trans (by simp [eq_comm])

end RomImage
