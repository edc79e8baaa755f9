/-
# The image that ships

What a final image is, given that one is made.  `finalize_eq_ok_iff` reduces finalizing to the accepted
code range and the amended table; `Ships` describes the image byte by byte, from the zeros in front to
the payload, and `image_eq_iff_ships` says that the image is the only one of that description.
-/
import RomImage.Proofs.AmendedTable
import RomImage.Rom.Final

namespace RomImage

variable {symbols : SymbolTable} {raw : Bytes} {options : FinalizeOptions} {final : FinalImage}

/-! ## Finalizing -/

/-- A payload behind the zeros that fill up its size class. -/
def padded (payload : Bytes) (size : SizeClass) : Bytes :=
  List.replicate (size.bytes - payload.length) 0 ++ payload

/-- A payload that fits is padded. -/
theorem padFront_eq_ok {payload : Bytes} {size : SizeClass} (h : payload.length ≤ size.bytes) :
    padFront payload size = .ok (padded payload size) := by
  rw [padFront, if_pos h, padded]

/-- The result of finalizing, apart from what it logs. -/
theorem result_finalize (symbols : SymbolTable) (raw : Bytes) (options : FinalizeOptions) :
    (finalize symbols raw options).result = (do
      let size := SizeClass.resolve options.requestedKib raw.length
      let range ← (CodeRange.validate symbols raw.length size options.window).mapError .layout
      let patched ← (CompatTable.patch raw symbols options.window).result.mapError .compat
      let payload := patched.getD raw
      let image ← (padFront payload size).mapError .fault
      return ⟨image, ⟨payload.length, range.fixedSize, size⟩⟩) := by
  unfold finalize
  simp only [Logged.result_bind, result_warnAbout]
  rfl

/-- A payload keeps its length, whether its table is amended or left alone. -/
theorem length_getD_of_patch {window : RomWindow} {patched : Option Bytes}
    (h : (CompatTable.patch raw symbols window).result = .ok patched) :
    (patched.getD raw).length = raw.length := by
  cases patched with
  | none => rfl
  | some payload =>
      obtain ⟨place, entry, declared, hcan, rfl⟩ := CompatTable.patch_eq_some_iff.1 h
      exact CompatTable.length_amended hcan.head_le

/-- An image is made exactly if the code range is accepted and the table is amended or left alone, and
then it is the padded payload. -/
theorem finalize_eq_ok_iff :
    (finalize symbols raw options).result = .ok final ↔
      ∃ range patched,
        CodeRange.Accepted symbols raw.length (.resolve options.requestedKib raw.length)
          options.window range ∧
        (CompatTable.patch raw symbols options.window).result = .ok patched ∧
        final = ⟨padded (patched.getD raw) (.resolve options.requestedKib raw.length),
          ⟨raw.length, range.fixedSize, .resolve options.requestedKib raw.length⟩⟩ := by
  rw [result_finalize]
  simp only [bind_eq_ok_iff, mapError_eq_ok_iff, CodeRange.validate_eq_ok_iff, pure, Except.pure,
    Except.ok.injEq]
  constructor
  · rintro ⟨range, hrange, patched, hpatched, image, himage, rfl⟩
    have hlen := length_getD_of_patch hpatched
    rw [padFront_eq_ok (by rw [hlen]; exact hrange.fits)] at himage
    obtain rfl := Except.ok.inj himage
    exact ⟨range, patched, hrange, hpatched, by rw [hlen]⟩
  · rintro ⟨range, patched, hrange, hpatched, rfl⟩
    have hlen := length_getD_of_patch hpatched
    exact ⟨range, hrange, patched, hpatched, _,
      padFront_eq_ok (by rw [hlen]; exact hrange.fits), by rw [hlen]⟩

/-! ## The payload -/

/-- What becomes of a payload: it is left alone without a table or its entry point, and otherwise the
table is amended at its place, for the entry point relative to the base of the window. -/
structure IsPayloadOf (symbols : SymbolTable) (raw : Bytes) (window : RomWindow)
    (payload : Bytes) : Prop where
  untouched : symbols.offset? Landmark.compatTable.name = none ∨
    symbols.offset? Landmark.compatEntry.name = none → payload = raw
  amended : ∀ table entry : UInt32, symbols.offset? Landmark.compatTable.name = some table →
    symbols.offset? Landmark.compatEntry.name = some entry →
    ∃ (start : UInt32) (place address : Nat) (declared : UInt8),
      symbols.offset? Landmark.codeStart.name = some start ∧
      start.toNat + place = table.toNat ∧ address + window.base.toNat = entry.toNat ∧
      raw[place + CompatTable.lengthField]? = some declared ∧
      place + declared.toNat ≤ raw.length ∧
      CompatTable.IsAmended raw payload place address declared

/-- The payload that amending the table gives, or leaving it alone, is of that description. -/
theorem isPayloadOf_of_patch {window : RomWindow} {patched : Option Bytes}
    (h : (CompatTable.patch raw symbols window).result = .ok patched) :
    IsPayloadOf symbols raw window (patched.getD raw) := by
  cases patched with
  | none =>
      refine ⟨fun _ => rfl, ?_⟩
      intro table entry htable hentry
      rcases CompatTable.patch_eq_none_iff.1 h with hnone | hnone
      · rw [htable] at hnone
        cases hnone
      · rw [hentry] at hnone
        cases hnone
  | some payload =>
      obtain ⟨place, entry, declared, hcan, rfl⟩ := CompatTable.patch_eq_some_iff.1 h
      obtain ⟨start, table, hstart, htable, hdiff⟩ := hcan.place_eq
      obtain ⟨address, haddress, hnear⟩ := hcan.entry_eq
      constructor
      · intro hnone
        rw [htable, haddress] at hnone
        rcases hnone with hnone | hnone <;> cases hnone
      · intro table' address' htable' haddress'
        obtain rfl := Option.some.inj (htable.symm.trans htable')
        obtain rfl := Option.some.inj (haddress.symm.trans haddress')
        exact ⟨start, place, entry.toNat, declared, hstart, hdiff, by omega, hcan.declared_eq,
          hcan.declared_le, CompatTable.isAmended_amended entry hcan.head_le hcan.declared_eq⟩

/-- Only one payload is of that description. -/
theorem IsPayloadOf.unique {window : RomWindow} {p q : Bytes}
    (hp : IsPayloadOf symbols raw window p) (hq : IsPayloadOf symbols raw window q) : p = q := by
  rcases CompatTable.undefined_or_defined symbols with hundefined | ⟨table, entry, htable, hentry⟩
  · rw [hp.untouched hundefined, hq.untouched hundefined]
  · obtain ⟨start, place, address, declared, hstart, hplace, haddress, hdeclared, _, hamended⟩ :=
      hp.amended table entry htable hentry
    obtain ⟨start', place', address', declared', hstart', hplace', haddress', hdeclared', _,
      hamended'⟩ := hq.amended table entry htable hentry
    -- the symbols and the raw payload fix the place, the entry point and the declared length
    obtain rfl := Option.some.inj (hstart.symm.trans hstart')
    obtain rfl : place = place' := by omega
    obtain rfl : address = address' := by omega
    obtain rfl := Option.some.inj (hdeclared.symm.trans hdeclared')
    exact hamended.unique hamended'

/-! ## The image -/

/-- The image that ships: as long as its size class, zeros in front, and the payload at its end. -/
structure Ships (symbols : SymbolTable) (raw : Bytes) (options : FinalizeOptions)
    (image : Bytes) : Prop where
  fits : raw.length ≤ (SizeClass.resolve options.requestedKib raw.length).bytes
  length_eq : image.length = (SizeClass.resolve options.requestedKib raw.length).bytes
  padding : ∀ i, i < image.length - raw.length → image[i]? = some 0
  payload : IsPayloadOf symbols raw options.window (image.drop (image.length - raw.length))

/-- A padded payload ends with the payload, behind zeros. -/
theorem ships_padded {payload : Bytes}
    (hfits : raw.length ≤ (SizeClass.resolve options.requestedKib raw.length).bytes)
    (hlen : payload.length = raw.length)
    (hpayload : IsPayloadOf symbols raw options.window payload) :
    Ships symbols raw options
      (padded payload (.resolve options.requestedKib raw.length)) := by
  have hlength : (padded payload (.resolve options.requestedKib raw.length)).length
      = (SizeClass.resolve options.requestedKib raw.length).bytes := by
    rw [padded, List.length_append, List.length_replicate]
    omega
  refine ⟨hfits, hlength, ?_, ?_⟩
  · intro i hi
    rw [hlength] at hi
    rw [padded, hlen, List.getElem?_append_left (by rw [List.length_replicate]; exact hi),
      List.getElem?_replicate, if_pos hi]
  · rw [hlength, padded, hlen, List.drop_left' (List.length_replicate ..)]
    exact hpayload

/-- Only one image is of that description. -/
theorem Ships.unique {p q : Bytes} (hp : Ships symbols raw options p)
    (hq : Ships symbols raw options q) : p = q := by
  have hlen : p.length = q.length := hp.length_eq.trans hq.length_eq.symm
  have hpayload := hp.payload.unique (hlen ▸ hq.payload)
  apply List.ext_getElem?
  intro i
  rcases Nat.lt_or_ge i (p.length - raw.length) with hfront | hback
  · rw [hp.padding i hfront, hq.padding i (hlen ▸ hfront)]
  · obtain ⟨j, rfl⟩ := Nat.exists_eq_add_of_le hback
    rw [← List.getElem?_drop, ← List.getElem?_drop, hpayload]

/-- The final image is the one image that `Ships` describes. -/
theorem image_eq_iff_ships (h : (finalize symbols raw options).result = .ok final)
    (image : Bytes) : image = final.image ↔ Ships symbols raw options image := by
  obtain ⟨range, patched, hrange, hpatched, rfl⟩ := finalize_eq_ok_iff.1 h
  have hships := ships_padded hrange.fits (length_getD_of_patch hpatched)
    (isPayloadOf_of_patch hpatched)
  constructor
  · rintro rfl
    exact hships
  · intro himage
    exact himage.unique hships

/-! ## A small image -/

/-- Symbols of a payload of sixteen bytes at the end of the standard window, all of it a table. -/
def smallSymbols : SymbolTable :=
  .ofList [⟨Landmark.codeStart.name, 0xffff0, 0, none⟩, ⟨Landmark.codeEnd.name, 0x100000, 0, none⟩,
    ⟨Landmark.initEnd.name, 0xffff8, 0, none⟩, ⟨Landmark.compatTable.name, 0xffff0, 0, none⟩,
    ⟨Landmark.compatEntry.name, 0xf1234, 0, none⟩]

/-- The image of 1 KiB that is made of such a payload. -/
def smallImage : FinalImage :=
  ⟨List.replicate 1008 0 ++ [0x49, 0, 0, 0, 0x61, 16, 0, 0, 0, 0, 0, 0, 0, 0, 0x34, 0x12],
    ⟨16, 8, ⟨1024⟩⟩⟩

/-- That image is described by `Ships`. -/
theorem image_eq_iff_ships_small :
    (finalize smallSymbols (CompatTable.bareTable 16) ⟨1, .standard⟩).result = .ok smallImage ∧
      ∀ image, image = smallImage.image ↔
        Ships smallSymbols (CompatTable.bareTable 16) ⟨1, .standard⟩ image := by
  have h : (finalize smallSymbols (CompatTable.bareTable 16) ⟨1, .standard⟩).result
      = .ok smallImage := rfl
  exact ⟨h, image_eq_iff_ships h⟩

end RomImage
