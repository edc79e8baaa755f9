/-
# What the usage figures say

The figures of a final image against the image itself.  They are taken from different places (the
payload after its table has been amended, the landmarks, the requested size), with a subtraction that
stops at zero and a division that leaves a rest out; for an image that is made nothing is lost
(`Usage.Describes`, `usage_describes`), because every size class is a number of whole KiB that is not
zero, and the payload fits it.
-/
import Mathlib.Algebra.Order.Field.Basic
import Mathlib.Data.Rat.Cast.Order
import RomImage.Proofs.SizeRequests

namespace RomImage

variable {symbols : SymbolTable} {raw : Bytes} {options : FinalizeOptions} {final : FinalImage}

/-! ## Size classes -/

/-- Every request, an open one included, is met with so many KiB, and not with none. -/
theorem SizeClass.exists_resolve_eq_ofKib (requestedKib : UInt32) (payloadLen : Nat) :
    ∃ kib : UInt32, kib ≠ 0 ∧ resolve requestedKib payloadLen = ofKib kib.toNat := by
  by_cases hopen : requestedKib = 0
  · have husual : smallestUsualKib payloadLen ≠ 0 := by
      unfold smallestUsualKib
      repeat' split
      all_goals decide
    exact ⟨smallestUsualKib payloadLen, husual, by
      rw [hopen, resolve_zero, resolve_of_ne_zero husual]⟩
  · exact ⟨requestedKib, hopen, resolve_of_ne_zero hopen payloadLen⟩

/-- A number of whole KiB loses nothing when it is counted in KiB. -/
theorem SizeClass.kib_mul_bytesPerKib (kib : Nat) :
    (ofKib kib).kib * bytesPerKib = (ofKib kib).bytes := by
  rw [kib_ofKib]
  rfl

/-! ## The figures -/

/-- The size that stays after start-up is the way from the end of start-up to the end of the code, and
zero if start-up reaches beyond that end. -/
theorem CodeRange.fixedSize_eq (range : CodeRange) :
    (range.initEnd ≤ range.stop →
      range.fixedSize.toNat + range.initEnd.toNat = range.stop.toNat) ∧
    (range.stop < range.initEnd → range.fixedSize = 0) := by
  unfold fixedSize
  constructor
  · intro hle
    rw [if_pos hle, UInt32.toNat_sub_of_le _ _ hle]
    exact Nat.sub_add_cancel (UInt32.le_iff_toNat_le.1 hle)
  · intro hlt
    rw [if_neg (UInt32.not_le.2 hlt)]

/-- The figures tell of an image, and of the payload at its end, what they are meant to tell. -/
structure Usage.Describes (usage : Usage) (symbols : SymbolTable) (payload image : Bytes) :
    Prop where
  total_eq : usage.total = payload.length
  size_pos : 0 < usage.size.bytes
  /-- The size is a number of whole KiB. -/
  size_whole : usage.size.kib * 1024 = usage.size.bytes
  size_eq : usage.size.bytes = image.length
  /-- Both lengths are so small that a binary floating-point number holds them exactly. -/
  size_lt : usage.size.bytes < 0x20000000000000
  /-- What is free is not cut off at zero. -/
  total_add_free : usage.total + usage.free = usage.size.bytes
  /-- What is free is the padding. -/
  image_eq : image = List.replicate usage.free 0 ++ payload
  /-- The share of the image that the payload takes is at most the whole of it. -/
  share : (usage.size.bytes : ℚ) ≠ 0 ∧ 0 ≤ (usage.total : ℚ) / usage.size.bytes ∧
    (usage.total : ℚ) / usage.size.bytes ≤ 1
  fixed : ∃ stop initEnd : UInt32, symbols.offset? Landmark.codeEnd.name = some stop ∧
    symbols.offset? Landmark.initEnd.name = some initEnd ∧
    (initEnd ≤ stop → usage.fixed.toNat + initEnd.toNat = stop.toNat) ∧
    (stop < initEnd → usage.fixed = 0)

/-- The part of a size that is no longer than it is between none and all of it. -/
theorem share_bounds {total size : Nat} (hpos : 0 < size) (hle : total ≤ size) :
    (size : ℚ) ≠ 0 ∧ 0 ≤ (total : ℚ) / size ∧ (total : ℚ) / size ≤ 1 := by
  have hsize : (0 : ℚ) < size := Nat.cast_pos.2 hpos
  refine ⟨ne_of_gt hsize, div_nonneg (Nat.cast_nonneg total) (Nat.cast_nonneg size), ?_⟩
  rw [div_le_one hsize]
  exact Nat.cast_le.2 hle

/-- The figures of a final image describe it, and the payload that became of the raw one. -/
theorem usage_describes (h : (finalize symbols raw options).result = .ok final) :
    ∃ payload, IsPayloadOf symbols raw options.window payload ∧ payload.length = raw.length ∧
      final.usage.Describes symbols payload final.image := by
  obtain ⟨range, patched, hrange, hpatched, rfl⟩ := finalize_eq_ok_iff.1 h
  have hlen := length_getD_of_patch hpatched
  obtain ⟨kib, hkib, hsize⟩ := SizeClass.exists_resolve_eq_ofKib options.requestedKib raw.length
  have hfits := hrange.fits
  rw [hsize] at hfits ⊢
  -- all that is said of the size is said of so many KiB
  have hbytes : (SizeClass.ofKib kib.toNat).bytes = kib.toNat * 1024 := rfl
  have hpos : 0 < kib.toNat :=
    Nat.pos_of_ne_zero fun hzero => hkib (UInt32.toNat_inj.1 hzero)
  have hlt := kib.toNat_lt
  have hfree : raw.length + ((SizeClass.ofKib kib.toNat).bytes - raw.length)
      = (SizeClass.ofKib kib.toNat).bytes := Nat.add_sub_cancel' hfits
  refine ⟨patched.getD raw, isPayloadOf_of_patch hpatched, hlen, ?_⟩
  exact {
    total_eq := hlen.symm
    size_pos := by rw [hbytes]; omega
    size_whole := SizeClass.kib_mul_bytesPerKib kib.toNat
    size_eq := by
      rw [padded, List.length_append, List.length_replicate, hlen, Nat.sub_add_cancel hfits]
    size_lt := by rw [hbytes]; omega
    total_add_free := hfree
    image_eq := by rw [padded, hlen]; rfl
    share := share_bounds (by rw [hbytes]; omega) hfits
    fixed := ⟨range.stop, range.initEnd, hrange.stop_eq, hrange.initEnd_eq,
      range.fixedSize_eq⟩ }

/-- The figures of the small image describe it. -/
theorem usage_describes_smallImage :
    (finalize smallSymbols (CompatTable.bareTable 16) ⟨1, .standard⟩).result = .ok smallImage ∧
      ∃ payload, IsPayloadOf smallSymbols (CompatTable.bareTable 16) .standard payload ∧
        payload.length = 16 ∧ smallImage.usage.Describes smallSymbols payload smallImage.image := by
  have h : (finalize smallSymbols (CompatTable.bareTable 16) ⟨1, .standard⟩).result
      = .ok smallImage := rfl
  exact ⟨h, usage_describes h⟩

end RomImage
