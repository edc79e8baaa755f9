/-
# Finished payloads

A payload that has been finished once is finished for good.  Its table can be amended again, and then no
byte changes (`CompatTable.patch_again`): the entry point stands already where it is written, and the
balance byte is cleared before the sum is taken, so that the byte of the first time comes out again.
Finalizing the payload of an image therefore gives that very image (`finalize_payload`).
-/
import RomImage.Proofs.ShippedImage

namespace RomImage

namespace CompatTable

variable {raw payload image : Bytes} {symbols : SymbolTable} {window : RomWindow}
  {place address : Nat} {entry : UInt16} {declared : UInt8}

/-- A payload that is made of another by amending a table is also made of itself in that way. -/
theorem IsAmended.of_itself (h : IsAmended raw payload place address declared) :
    IsAmended payload payload place address declared :=
  ⟨rfl, fun _ _ _ _ => rfl, h.entry, h.declared_eq, h.balance⟩

/-- Amending a table for the second time changes nothing. -/
theorem amended_amended (hhead : place + headLength ≤ image.length)
    (hdeclared : image[place + lengthField]? = some declared) :
    amended (amended image place entry declared.toNat) place entry declared.toNat
      = amended image place entry declared.toNat := by
  have hspec := isAmended_amended entry hhead hdeclared
  have hhead' : place + headLength ≤ (amended image place entry declared.toNat).length := by
    rw [hspec.length_eq]
    exact hhead
  have hagain := isAmended_amended entry hhead' hspec.declared_eq
  -- both are made of the amended image, and only one payload is
  exact hagain.unique hspec.of_itself

/-- A table that can be amended can be amended again, in the same way. -/
theorem Amendable.again (h : Amendable image symbols window place entry declared) :
    Amendable (amended image place entry declared.toNat) symbols window place entry declared := by
  have hspec := isAmended_amended entry h.head_le h.declared_eq
  refine ⟨h.place_eq, h.entry_eq, ?_, hspec.declared_eq, ?_⟩
  · rw [hspec.length_eq]
    exact h.head_le
  · rw [hspec.length_eq]
    exact h.declared_le

/-- The table of a payload that has been patched, or left alone, is patched or left alone with the same
outcome. -/
theorem patch_again {patched : Option Bytes} (h : (patch raw symbols window).result = .ok patched) :
    (patch (patched.getD raw) symbols window).result = .ok patched := by
  cases patched with
  | none => exact h
  | some payload =>
      obtain ⟨place, entry, declared, hcan, rfl⟩ := patch_eq_some_iff.1 h
      rw [Option.getD_some, patch_eq_some_iff]
      refine ⟨place, entry, declared, hcan.again, ?_⟩
      rw [amended_amended hcan.head_le hcan.declared_eq]

end CompatTable

/-- The end of a padded payload is the payload. -/
theorem drop_padded (payload : Bytes) (size : SizeClass) :
    (padded payload size).drop ((padded payload size).length - payload.length) = payload := by
  have hlen : (padded payload size).length - payload.length = size.bytes - payload.length := by
    rw [padded, List.length_append, List.length_replicate]
    omega
  rw [hlen, padded, List.drop_left' (List.length_replicate ..)]

variable {symbols : SymbolTable} {raw : Bytes} {options : FinalizeOptions} {final : FinalImage}

/-- The payload at the end of a final image is as long as the raw one, and finalizing it gives the same
image with the same figures. -/
theorem finalize_payload (h : (finalize symbols raw options).result = .ok final) :
    (final.image.drop (final.image.length - raw.length)).length = raw.length ∧
      (finalize symbols (final.image.drop (final.image.length - raw.length)) options).result
        = .ok final := by
  obtain ⟨range, patched, haccepted, hpatched, rfl⟩ := finalize_eq_ok_iff.1 h
  have hlen := length_getD_of_patch hpatched
  have hpayload : (padded (patched.getD raw) (.resolve options.requestedKib raw.length)).drop
      ((padded (patched.getD raw) (.resolve options.requestedKib raw.length)).length - raw.length)
        = patched.getD raw := by
    rw [← hlen]
    exact drop_padded _ _
  rw [hpayload]
  refine ⟨hlen, finalize_eq_ok_iff.2 ⟨range, patched, ?_, CompatTable.patch_again hpatched, ?_⟩⟩
  · rw [hlen]
    exact haccepted
  · -- the second outcome is taken from the first one's payload, and is that payload
    have hsame : patched.getD (patched.getD raw) = patched.getD raw := by
      cases patched <;> rfl
    rw [hlen, hsame]

/-- The payload of a small image, with its entry point and its balance byte, is finished. -/
theorem finalize_payload_smallImage :
    (finalize smallSymbols (CompatTable.bareTable 16) ⟨1, .standard⟩).result = .ok smallImage ∧
      (smallImage.image.drop (smallImage.image.length - (CompatTable.bareTable 16).length)).length
        = (CompatTable.bareTable 16).length ∧
      (finalize smallSymbols
        (smallImage.image.drop (smallImage.image.length - (CompatTable.bareTable 16).length))
        ⟨1, .standard⟩).result = .ok smallImage := by
  have h : (finalize smallSymbols (CompatTable.bareTable 16) ⟨1, .standard⟩).result
      = .ok smallImage := rfl
  exact ⟨h, finalize_payload h⟩

end RomImage
