/-
# Scans with checked arithmetic

The scans for dates and version strings, with every position computed as a word and every byte and
range of the image read where a fault would show.  On images whose length is a word they find what the
plain scans find (`checkedDates_eq_ok`, `checkedVersions_eq_ok`), so no scan computes a position that is
no word or reads outside the image.
-/
import RomImage.Advisory
import RomImage.Proofs.Outcome

namespace RomImage

/-! ## Reading an image -/

/-- A range that lies in the image is a window of it. -/
theorem slice_eq_windowAt {image : Bytes} {start stop : Nat} (hle : start ≤ stop)
    (hin : stop ≤ image.length) :
    slice image start stop = .ok (windowAt image.toArray start stop) := by
  rw [slice, if_pos ⟨hle, hin⟩, windowAt_toArray]

/-- A byte of the image can be read. -/
theorem byteAt_eq_ok {image : Bytes} {offset : Nat} {b : UInt8} (h : image[offset]? = some b) :
    byteAt image offset = .ok b := by
  rw [byteAt, h]

/-- A window that does not fit has fewer bytes than it should. -/
theorem length_windowAt_lt {image : Bytes} {start width : Nat} (hwidth : 0 < width)
    (h : image.length < start + width) :
    (windowAt image.toArray start (start + width)).length < width := by
  rw [windowAt_toArray, List.length_take, List.length_drop]
  omega

/-! ## Scans -/

/-- What is found at the positions from which `width` bytes lie in the image. -/
def checkedScan (width : Nat) (image : Bytes)
    (hit? : Bytes → Nat → Except Fault (Option Finding)) : Except Fault (List Finding) := do
  let hits ← (List.range (image.length + 1 - width)).mapM (hit? image)
  return hits.filterMap id

/-- A checked scan finds what the plain one does, if both agree where a window fits and nothing is to
be found where none fits. -/
theorem checkedScan_eq_ok {width : Nat} {image : Bytes}
    {checked? : Bytes → Nat → Except Fault (Option Finding)}
    {hit? : Array UInt8 → Nat → Option Finding} (hwidth : 0 < width)
    (hfits : ∀ i, i + width ≤ image.length → checked? image i = .ok (hit? image.toArray i))
    (hnone : ∀ i, image.length < i + width → hit? image.toArray i = none) :
    checkedScan width image checked? = .ok (scan image hit?) := by
  have hhits : (List.range (image.length + 1 - width)).mapM (checked? image)
      = .ok ((List.range (image.length + 1 - width)).map (hit? image.toArray)) := by
    apply mapM_eq_ok_map
    intro i hi
    have hlt := List.mem_range.1 hi
    exact hfits i (by omega)
  rw [checkedScan, hhits, scan_eq_of_width hwidth hnone]
  show Except.ok _ = Except.ok _
  rw [List.filterMap_map, Function.id_comp]

/-! ## Dates -/

/-- The date at a position from which eight bytes lie in the image. -/
def checkedDateAt? (image : Bytes) (position : Nat) : Except Fault (Option Finding) := do
  let stop ← addWord position 8
  let text ← slice image position stop
  return if isDate text then some ⟨text, position⟩ else none

/-- Every date of an image, each window read as a range of it. -/
def checkedDates (image : Bytes) : Except Fault (List Finding) :=
  checkedScan 8 image checkedDateAt?

/-- A date has eight bytes. -/
theorem length_of_isDate {text : Bytes} (h : isDate text = true) : text.length = 8 := by
  unfold isDate at h
  split at h
  · rfl
  · cases h

/-- No date is at a place from which no eight bytes lie in the image. -/
theorem dateAt?_eq_none {image : Bytes} {position : Nat} (h : image.length < position + 8) :
    dateAt? image.toArray position = none := by
  have hlt := length_windowAt_lt (by decide) h
  rw [dateAt?, if_neg]
  intro hdate
  have hlen := length_of_isDate hdate
  omega

/-- Looking for dates never faults. -/
theorem checkedDates_eq_ok {image : Bytes} (h : image.length < wordCount) :
    checkedDates image = .ok (findDates image) := by
  apply checkedScan_eq_ok (by decide)
  · intro i hi
    rw [checkedDateAt?, addWord_eq_ok (by omega)]
    show (slice image i (i + 8) >>= fun text => _) = _
    rw [slice_eq_windowAt (by omega) hi]
    rfl
  · intro i hi
    exact dateAt?_eq_none hi

/-! ## Version strings -/

/-- The place from which on all bytes up to `stop` may stand in a version string, each byte on the way
read from the image. -/
def checkedVersionStart (image : Bytes) (lower : Nat) : Nat → Except Fault Nat
  | 0 => .ok 0
  | stop + 1 =>
    if lower ≤ stop then do
      let before ← byteAt image stop
      if isVersionByte before then checkedVersionStart image lower stop else .ok (stop + 1)
    else .ok (stop + 1)

/-- The version string at a position from which three bytes lie in the image. -/
def checkedVersionAt? (image : Bytes) (position : Nat) : Except Fault (Option Finding) := do
  let stop ← addWord position 3
  let number ← slice image position stop
  if isVersionNumber number then do
    let start ← checkedVersionStart image (stop - versionWindow) position
    let text ← slice image start stop
    return if hasVersionMark text then some ⟨text, position⟩ else none
  else return none

/-- Every version string of an image, each window read as a range of it. -/
def checkedVersions (image : Bytes) : Except Fault (List Finding) :=
  checkedScan 3 image checkedVersionAt?

/-- A number `D.D` has three bytes. -/
theorem length_of_isVersionNumber {text : Bytes} (h : isVersionNumber text = true) :
    text.length = 3 := by
  unfold isVersionNumber at h
  split at h
  · rfl
  · cases h

/-- No version string has its number at a place from which no three bytes lie in the image. -/
theorem versionAt?_eq_none {image : Bytes} {position : Nat} (h : image.length < position + 3) :
    versionAt? image.toArray position = none := by
  have hlt := length_windowAt_lt (by decide) h
  rw [versionAt?, if_neg]
  intro hnumber
  have hlen := length_of_isVersionNumber hnumber
  omega

/-- A version string begins at or in front of its number. -/
theorem versionStart_le (image : Array UInt8) (lower stop : Nat) :
    versionStart image lower stop ≤ stop := by
  induction stop with
  | zero => exact Nat.le_refl 0
  | succ stop ih =>
      rw [versionStart]
      split
      · exact Nat.le_succ_of_le ih
      · exact Nat.le_refl _

/-- The way back from a place in the image stays in the image. -/
theorem checkedVersionStart_eq_ok {image : Bytes} {lower stop : Nat} (h : stop ≤ image.length) :
    checkedVersionStart image lower stop = .ok (versionStart image.toArray lower stop) := by
  induction stop with
  | zero => rfl
  | succ stop ih =>
      have hbyte : image[stop]? = some image[stop] := List.getElem?_eq_getElem h
      rw [checkedVersionStart, versionStart, byteAt_eq_ok hbyte, List.getElem?_toArray, hbyte]
      by_cases hlower : lower ≤ stop
      · by_cases hvisible : isVersionByte image[stop] = true
        · rw [if_pos hlower, if_pos ⟨hlower, hvisible⟩]
          show (if isVersionByte image[stop] = true then _ else _) = _
          rw [if_pos hvisible, ih (by omega)]
        · rw [if_pos hlower, if_neg fun hboth => hvisible hboth.2]
          show (if isVersionByte image[stop] = true then _ else _) = _
          rw [if_neg hvisible]
      · rw [if_neg hlower, if_neg fun hboth => hlower hboth.1]

/-- Looking for version strings never faults. -/
theorem checkedVersions_eq_ok {image : Bytes} (h : image.length < wordCount) :
    checkedVersions image = .ok (findVersions image) := by
  apply checkedScan_eq_ok (by decide)
  · intro i hi
    have hstart := versionStart_le image.toArray (i + 3 - versionWindow) i
    rw [checkedVersionAt?, versionAt?, addWord_eq_ok (by omega)]
    show (slice image i (i + 3) >>= fun number => _) = _
    rw [slice_eq_windowAt (by omega) hi]
    show (if isVersionNumber (windowAt image.toArray i (i + 3)) = true then _ else _) = _
    by_cases hnumber : isVersionNumber (windowAt image.toArray i (i + 3)) = true
    · rw [if_pos hnumber, if_pos hnumber, checkedVersionStart_eq_ok (by omega)]
      show (slice image _ (i + 3) >>= fun text => _) = _
      rw [slice_eq_windowAt (by omega) hi]
      rfl
    · rw [if_neg hnumber, if_neg hnumber]
      rfl
  · intro i hi
    exact versionAt?_eq_none hi

end RomImage
