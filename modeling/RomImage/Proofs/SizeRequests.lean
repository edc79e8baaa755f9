/-
# Size requests

What the requested size of an image decides.  Only the first check asks for it, so a larger request lets
more payloads pass that check and changes no other refusal (`errorOf_finalize_of_fits`); and an image
that is made has more zeros in front, and is otherwise the same (`padded_of_le`).  A request that leaves
the size open is the request for the smallest usual size that holds the payload.
-/
import RomImage.Proofs.Refusals

namespace RomImage

variable {symbols : SymbolTable} {raw payload : Bytes} {window : RomWindow}
  {kib small large : UInt32}

/-! ## Sizes -/

/-- A request that is not zero is met as it is. -/
theorem SizeClass.resolve_of_ne_zero (h : kib ≠ 0) (payloadLen : Nat) :
    resolve kib payloadLen = ofKib kib.toNat :=
  if_neg h

/-- The KiB of the smallest usual size class that holds a payload, and of the largest if none does. -/
def smallestUsualKib (payloadLen : Nat) : UInt32 :=
  if payloadLen ≤ 64 * 1024 then 64 else if payloadLen ≤ 128 * 1024 then 128 else 256

/-- An open request is met as that for the smallest usual size class is. -/
theorem SizeClass.resolve_zero (payloadLen : Nat) :
    resolve 0 payloadLen = resolve (smallestUsualKib payloadLen) payloadLen := by
  have hsmall : (ofKib 64).bytes = 64 * 1024 := rfl
  have hmiddle : (ofKib 128).bytes = 128 * 1024 := rfl
  rw [resolve, if_pos rfl, usual, List.find?_cons, List.find?_cons, hsmall, hmiddle,
    smallestUsualKib]
  by_cases hfits : payloadLen ≤ 64 * 1024
  · rw [if_pos hfits, decide_eq_true hfits]
    rfl
  · rw [if_neg hfits, decide_eq_false hfits]
    by_cases hfits' : payloadLen ≤ 128 * 1024
    · rw [if_pos hfits', decide_eq_true hfits']
      rfl
    · -- whether the largest class holds the payload or not, it is taken
      rw [if_neg hfits', decide_eq_false hfits']
      show ([largest].find? fun s => payloadLen ≤ s.bytes).getD largest = largest
      rw [List.find?_singleton]
      split <;> rfl

/-- A payload does not fit an open request if and only if no usual size class holds it. -/
theorem SizeClass.bytes_resolve_zero_lt_iff {payloadLen : Nat} :
    (resolve 0 payloadLen).bytes < payloadLen ↔ 262144 < payloadLen := by
  rw [resolve_zero, smallestUsualKib]
  split
  · show 64 * 1024 < payloadLen ↔ _
    omega
  · split
    · show 128 * 1024 < payloadLen ↔ _
      omega
    · show 256 * 1024 < payloadLen ↔ _
      omega

/-- In a larger size class a payload has more zeros in front. -/
theorem padded_of_le {size size' : SizeClass} (hfits : payload.length ≤ size.bytes)
    (hle : size.bytes ≤ size'.bytes) :
    padded payload size' = List.replicate (size'.bytes - size.bytes) 0 ++ padded payload size := by
  have hzeros : size'.bytes - payload.length
      = (size'.bytes - size.bytes) + (size.bytes - payload.length) := by omega
  rw [padded, padded, hzeros, ← List.replicate_append_replicate, List.append_assoc]

/-! ## Refusals for the size -/

/-- The payload is refused because it does not fit its size class. -/
def FinalizeError.IsRomTooLarge (e : FinalizeError) : Prop :=
  ∃ payloadLen finalSize, e = .layout (.romTooLarge payloadLen finalSize)

/-- How a payload is refused, if it is, once it fits its size class. -/
def refusalOfFitting? (symbols : SymbolTable) (raw : Bytes) (window : RomWindow) :
    Option FinalizeError :=
  Check.all.tail.findSome? (Check.refusal? symbols raw ⟨0, window⟩)

/-- A payload that fits its size class is refused, or not, whatever size is requested. -/
theorem errorOf_finalize_of_fits (hfits : raw.length ≤ (SizeClass.resolve kib raw.length).bytes) :
    errorOf (finalize symbols raw ⟨kib, window⟩).result
      = refusalOfFitting? symbols raw window := by
  have hsize : Check.refusal? symbols raw ⟨kib, window⟩ .romSize = none := if_pos hfits
  rw [errorOf_finalize, refusalOfFitting?]
  show List.findSome? _ (.romSize :: Check.all.tail) = _
  rw [List.findSome?_cons, hsize]
  -- no check but that of the size asks for the request
  rfl

/-- A payload that does not fit its size class is refused for that. -/
theorem result_finalize_of_too_long (hlt : (SizeClass.resolve kib raw.length).bytes < raw.length) :
    (finalize symbols raw ⟨kib, window⟩).result
      = .error (.layout (.romTooLarge raw.length (SizeClass.resolve kib raw.length).bytes)) := by
  have hsize : Check.refusal? symbols raw ⟨kib, window⟩ .romSize
      = some (.layout (.romTooLarge raw.length (SizeClass.resolve kib raw.length).bytes)) :=
    if_neg (Nat.not_le.2 hlt)
  rw [← errorOf_eq_some_iff, errorOf_finalize]
  show List.findSome? _ (.romSize :: Check.all.tail) = _
  rw [List.findSome?_cons, hsize]

/-- A payload that fits its size class is not refused for it. -/
theorem not_isRomTooLarge_of_fits {e : FinalizeError}
    (h : refusalOfFitting? symbols raw window = some e) : ¬ e.IsRomTooLarge := by
  rintro ⟨payloadLen, finalSize, rfl⟩
  obtain ⟨check, hmem, hcheck⟩ := List.exists_of_findSome?_eq_some h
  have hromSize : check = .romSize := by
    cases Check.refusesWith_of_refusal? hcheck
    rfl
  rw [hromSize] at hmem
  exact absurd hmem (by decide)

/-- A payload is refused for its size class if and only if it does not fit it. -/
theorem exists_isRomTooLarge_iff :
    (∃ e, (finalize symbols raw ⟨kib, window⟩).result = .error e ∧ e.IsRomTooLarge) ↔
      (SizeClass.resolve kib raw.length).bytes < raw.length := by
  constructor
  · rintro ⟨e, he, hlarge⟩
    rcases Nat.lt_or_ge (SizeClass.resolve kib raw.length).bytes raw.length with hlt | hfits
    · exact hlt
    · rw [← errorOf_eq_some_iff, errorOf_finalize_of_fits hfits] at he
      exact absurd hlarge (not_isRomTooLarge_of_fits he)
  · intro hlt
    exact ⟨_, result_finalize_of_too_long hlt, _, _, rfl⟩

/-! ## Larger requests -/

/-- What is larger than a request that is not zero is not zero. -/
theorem ne_zero_of_le (hsmall : small ≠ 0) (hle : small ≤ large) : large ≠ 0 := by
  rintro rfl
  exact hsmall (UInt32.le_zero_iff.1 hle)

/-- A larger request gives a larger size class. -/
theorem SizeClass.bytes_resolve_le (hsmall : small ≠ 0) (hle : small ≤ large) (payloadLen : Nat) :
    (resolve small payloadLen).bytes ≤ (resolve large payloadLen).bytes := by
  rw [resolve_of_ne_zero hsmall, resolve_of_ne_zero (ne_zero_of_le hsmall hle)]
  exact Nat.mul_le_mul_right bytesPerKib (UInt32.le_iff_toNat_le.1 hle)

/-- An image that is made for a request is made for a larger one, with more zeros in front. -/
theorem finalize_ok_of_le {final : FinalImage} (hsmall : small ≠ 0) (hle : small ≤ large)
    (h : (finalize symbols raw ⟨small, window⟩).result = .ok final) :
    (finalize symbols raw ⟨large, window⟩).result = .ok
      ⟨List.replicate ((large.toNat - small.toNat) * 1024) 0 ++ final.image,
        { final.usage with size := .ofKib large.toNat }⟩ := by
  obtain ⟨range, patched, haccepted, hpatched, rfl⟩ := finalize_eq_ok_iff.1 h
  have hlarge : large ≠ 0 := ne_zero_of_le hsmall hle
  have hbytes := SizeClass.bytes_resolve_le hsmall hle raw.length
  have hfits : (patched.getD raw).length ≤ (SizeClass.resolve small raw.length).bytes := by
    rw [length_getD_of_patch hpatched]
    exact haccepted.fits
  have hzeros : (SizeClass.resolve large raw.length).bytes
      - (SizeClass.resolve small raw.length).bytes = (large.toNat - small.toNat) * 1024 := by
    rw [SizeClass.resolve_of_ne_zero hsmall, SizeClass.resolve_of_ne_zero hlarge, Nat.sub_mul]
    rfl
  refine finalize_eq_ok_iff.2 ⟨range, patched,
    { haccepted with fits := Nat.le_trans haccepted.fits hbytes }, hpatched, ?_⟩
  rw [padded_of_le hfits hbytes, hzeros, SizeClass.resolve_of_ne_zero hlarge]

/-- A payload that is refused for a request is refused for a smaller one in the same way, or for its
length. -/
theorem finalize_error_of_le {e : FinalizeError} (hsmall : small ≠ 0) (hle : small ≤ large)
    (h : (finalize symbols raw ⟨large, window⟩).result = .error e) :
    ∃ e', (finalize symbols raw ⟨small, window⟩).result = .error e' ∧
      (e'.IsRomTooLarge ∨ e' = e) := by
  have hbytes := SizeClass.bytes_resolve_le hsmall hle raw.length
  rcases Nat.lt_or_ge (SizeClass.resolve small raw.length).bytes raw.length with hlt | hfits
  · exact ⟨_, result_finalize_of_too_long hlt, .inl ⟨_, _, rfl⟩⟩
  · refine ⟨e, ?_, .inr rfl⟩
    rw [← errorOf_eq_some_iff, errorOf_finalize_of_fits (Nat.le_trans hfits hbytes)] at h
    rw [← errorOf_eq_some_iff, errorOf_finalize_of_fits hfits, h]

/-- The requested size is a matter of padding.  A larger request gives the same image with so many more
zeros in front and the same figures; and what it refuses, the smaller request refuses in the same way, or
because the payload is too long for it.  An open request is in all respects the request for the smallest
usual size that holds the payload, so that it finds a payload too long exactly beyond the largest. -/
theorem finalize_requestedKib (symbols : SymbolTable) (raw : Bytes) (window : RomWindow) :
    (∀ small large : UInt32, small ≠ 0 → small ≤ large →
      (∀ final, (finalize symbols raw ⟨small, window⟩).result = .ok final →
        (finalize symbols raw ⟨large, window⟩).result = .ok
          ⟨List.replicate ((large.toNat - small.toNat) * 1024) 0 ++ final.image,
            { final.usage with size := .ofKib large.toNat }⟩) ∧
      ∀ e, (finalize symbols raw ⟨large, window⟩).result = .error e →
        ∃ e', (finalize symbols raw ⟨small, window⟩).result = .error e' ∧
          (e'.IsRomTooLarge ∨ e' = e)) ∧
    finalize symbols raw ⟨0, window⟩
      = finalize symbols raw ⟨smallestUsualKib raw.length, window⟩ ∧
    ((∃ e, (finalize symbols raw ⟨0, window⟩).result = .error e ∧ e.IsRomTooLarge) ↔
      262144 < raw.length) := by
  refine ⟨fun small large hsmall hle => ⟨?_, ?_⟩, ?_, ?_⟩
  · intro final h
    exact finalize_ok_of_le hsmall hle h
  · intro e h
    exact finalize_error_of_le hsmall hle h
  · -- the request is asked for its size class only
    simp only [finalize, ← SizeClass.resolve_zero]
  · rw [exists_isRomTooLarge_iff, SizeClass.bytes_resolve_zero_lt_iff]

/-- The small image is made with 3 KiB too, behind 2 KiB more of zeros; and a payload of 1025 bytes, which
does not end with the code, is refused with 2 KiB for that, and with 1 KiB. -/
theorem finalize_requestedKib_smallImage :
    (finalize smallSymbols (CompatTable.bareTable 16) ⟨1, .standard⟩).result = .ok smallImage ∧
      (finalize smallSymbols (CompatTable.bareTable 16) ⟨3, .standard⟩).result = .ok
        ⟨List.replicate 2048 0 ++ smallImage.image, ⟨16, 8, ⟨3072⟩⟩⟩ ∧
      (finalize smallSymbols (List.replicate 1025 0) ⟨2, .standard⟩).result
        = .error (.layout (.unknownExtraData 1025 16)) ∧
      ∃ e', (finalize smallSymbols (List.replicate 1025 0) ⟨1, .standard⟩).result = .error e' ∧
        (e'.IsRomTooLarge ∨ e' = .layout (.unknownExtraData 1025 16)) := by
  have hsmall : (finalize smallSymbols (CompatTable.bareTable 16) ⟨1, .standard⟩).result
      = .ok smallImage := rfl
  have hlong : (finalize smallSymbols (List.replicate 1025 0) ⟨2, .standard⟩).result
      = .error (.layout (.unknownExtraData 1025 16)) := by
    rw [result_finalize, List.length_replicate]
    rfl
  exact ⟨hsmall,
    ((finalize_requestedKib smallSymbols (CompatTable.bareTable 16) .standard).1 1 3 (by decide)
      (by decide)).1 smallImage hsmall,
    hlong,
    ((finalize_requestedKib smallSymbols (List.replicate 1025 0) .standard).1 1 2 (by decide)
      (by decide)).2 _ hlong⟩

end RomImage
