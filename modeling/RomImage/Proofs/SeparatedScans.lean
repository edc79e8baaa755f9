/-
# Scans of joined images

What the scans for dates and version strings find in an image that is put together of two parts with a
byte between them.  If that byte belongs to no date, no date reaches over it; and if it may not stand in a
version string, the way back from a number ends there at the latest, at a distance that does not depend on
what stands in front.  So the scans find what they find in the parts (`SplitsAt`), and zeros in front of
a payload only move the findings (`SplitsAt.replicate_append`).  What the scans say about a payload
therefore holds of the image that ships.
-/
import Mathlib.Data.List.Basic
import RomImage.Proofs.ShippedImage
import RomImage.Proofs.VersionStrings

namespace RomImage

variable {a b : Bytes} {c : UInt8}

/-! ## Windows and ways back -/

/-- A window that ends in the first part is one of that part. -/
theorem windowAt_append_left {start stop : Nat} (h : stop ≤ a.length) :
    windowAt (a ++ b).toArray start stop = windowAt a.toArray start stop := by
  rw [windowAt_toArray, windowAt_toArray]
  rcases Nat.le_total start stop with hle | hle
  · rw [List.drop_append_of_le_length (by omega),
      List.take_append_of_le_length (by rw [List.length_drop]; omega)]
  · rw [Nat.sub_eq_zero_of_le hle, List.take_zero, List.take_zero]

/-- A window that begins in the second part is one of that part. -/
theorem windowAt_append_right (start stop : Nat) :
    windowAt (a ++ b).toArray (a.length + start) (a.length + stop)
      = windowAt b.toArray start stop := by
  rw [windowAt_toArray, windowAt_toArray, List.drop_length_add_append, Nat.add_sub_add_left]

/-- A window that begins behind the byte between the parts is one of the second part. -/
theorem windowAt_append_cons_right (start stop : Nat) :
    windowAt (a ++ c :: b).toArray (a.length + 1 + start) (a.length + 1 + stop)
      = windowAt b.toArray start stop := by
  have hwindow := windowAt_append_right (a := a ++ [c]) (b := b) start stop
  rwa [List.length_append, List.length_singleton, ← List.append_cons] at hwindow

/-- A window that reaches over the byte between the parts holds that byte. -/
theorem mem_windowAt_separator {start stop : Nat} (hstart : start ≤ a.length)
    (hstop : a.length < stop) : c ∈ windowAt (a ++ c :: b).toArray start stop := by
  apply List.mem_of_getElem? (i := a.length - start)
  rw [windowAt_toArray, List.getElem?_take_of_lt (by omega), List.getElem?_drop,
    Nat.add_sub_cancel' hstart, List.getElem?_append_right (Nat.le_refl _), Nat.sub_self]
  rfl

/-- The way back from a place in the first part asks for bytes of that part only. -/
theorem versionStart_append_left {lower stop : Nat} (h : stop ≤ a.length) :
    versionStart (a ++ b).toArray lower stop = versionStart a.toArray lower stop := by
  induction stop with
  | zero => rfl
  | succ stop ih =>
      have hbyte : (a ++ b)[stop]? = a[stop]? := List.getElem?_append_left h
      rw [versionStart, versionStart, List.getElem?_toArray, List.getElem?_toArray, hbyte,
        ih (by omega)]

/-- The way back from a place in the second part ends where it would end in that part alone, if the byte
in front of the part stops it. -/
theorem versionStart_append_right (hc : isVersionByte c = false) (last stop : Nat) :
    versionStart (a ++ c :: b).toArray (a.length + 1 + last - versionWindow) (a.length + 1 + stop)
      = a.length + 1 + versionStart b.toArray (last - versionWindow) stop := by
  induction stop with
  | zero =>
      have hbyte : (a ++ c :: b)[a.length]? = some c := by
        rw [List.getElem?_append_right (Nat.le_refl _), Nat.sub_self]
        rfl
      show versionStart _ _ (a.length + 1) = a.length + 1
      rw [versionStart, List.getElem?_toArray, hbyte, if_neg]
      rintro ⟨_, hany⟩
      rw [Option.any_some, hc] at hany
      cases hany
  | succ stop ih =>
      have hbyte : (a ++ c :: b)[a.length + 1 + stop]? = b[stop]? := by
        rw [List.getElem?_append_right (by omega), Nat.add_assoc, Nat.add_sub_cancel_left,
          Nat.add_comm, List.getElem?_cons_succ]
      -- the lower bound moves with the number, as far as it is above the beginning of the image
      have hlower : a.length + 1 + last - versionWindow ≤ a.length + 1 + stop ↔
          last - versionWindow ≤ stop := by omega
      show versionStart _ _ (a.length + 1 + stop + 1) = _
      rw [versionStart, versionStart, List.getElem?_toArray, List.getElem?_toArray, hbyte, ih]
      simp only [hlower]
      split
      · rfl
      · rfl

/-! ## Scans -/

/-- A finding in an image with so many bytes more in front. -/
def Finding.shift (count : Nat) (f : Finding) : Finding :=
  { f with position := f.position + count }

/-- What is found behind `count` bytes is what is found there without them, moved by so many. -/
theorem ite_eq_map_shift (p : Prop) [Decidable p] (text : Bytes) (count i : Nat) :
    (if p then some (⟨text, count + i⟩ : Finding) else none)
      = (if p then some ⟨text, i⟩ else none).map (Finding.shift count) := by
  split
  · rw [Option.map_some, Finding.shift, Nat.add_comm count]
  · rfl

/-- At places from which on an image shows what another image shows at its first places, a scan finds
what it finds in the other one, moved. -/
theorem filterMap_behind {image : Bytes} {hit? : Array UInt8 → Nat → Option Finding} {count : Nat}
    (hback : ∀ i, hit? image.toArray (count + i)
      = (hit? b.toArray i).map (Finding.shift count)) :
    ((List.range b.length).map (count + ·)).filterMap (hit? image.toArray)
      = (scan b hit?).map (Finding.shift count) := by
  rw [List.filterMap_map, scan, List.map_filterMap]
  apply List.filterMap_congr
  intro i _
  exact hback i

/-- A scan finds in two parts with the byte `c` between them what it finds in each. -/
def SplitsAt (find : Bytes → List Finding) (c : UInt8) : Prop :=
  ∀ a b, find (a ++ c :: b) = find a ++ (find b).map (Finding.shift (a.length + 1))

/-- A scan splits at a byte if at each place it finds what it finds there in the part that the place
belongs to, and nothing at the end of a part. -/
theorem scan_splitsAt {hit? : Array UInt8 → Nat → Option Finding}
    (hend : ∀ a : Bytes, hit? a.toArray a.length = none)
    (hfront : ∀ (a b : Bytes) (i : Nat), i ≤ a.length →
      hit? (a ++ c :: b).toArray i = hit? a.toArray i)
    (hback : ∀ (a b : Bytes) (i : Nat), hit? (a ++ c :: b).toArray (a.length + 1 + i)
      = (hit? b.toArray i).map (Finding.shift (a.length + 1))) :
    SplitsAt (fun image => scan image hit?) c := by
  intro a b
  have hlen : (a ++ c :: b).length = a.length + 1 + b.length := by
    rw [List.length_append, List.length_cons]
    omega
  have hinFront : (List.range (a.length + 1)).filterMap (hit? (a ++ c :: b).toArray)
      = scan a hit? := by
    have hsame : ∀ i ∈ List.range (a.length + 1),
        hit? (a ++ c :: b).toArray i = hit? a.toArray i :=
      fun i hi => hfront a b i (Nat.le_of_lt_succ (List.mem_range.1 hi))
    rw [List.filterMap_congr hsame, List.range_succ, List.filterMap_append,
      List.filterMap_cons_none (hend a), List.filterMap_nil, List.append_nil]
    rfl
  show scan (a ++ c :: b) hit? = _
  rw [scan, hlen, List.range_add, List.filterMap_append, hinFront, filterMap_behind (hback a b)]

/-- Bytes at which a scan splits, in front of an image, only move its findings. -/
theorem SplitsAt.replicate_append {find : Bytes → List Finding} (h : SplitsAt find c)
    (hnil : find [] = []) (count : Nat) (image : Bytes) :
    find (List.replicate count c ++ image) = (find image).map (Finding.shift count) := by
  induction count with
  | zero =>
      show find image = _
      rw [show Finding.shift 0 = id from rfl, List.map_id]
  | succ count ih =>
      show find ([] ++ c :: (List.replicate count c ++ image)) = _
      rw [h [] _, hnil, ih, List.nil_append, List.map_map]
      apply List.map_congr_left
      intro f _
      rfl

/-! ## Dates -/

/-- Whether a byte may stand in a date. -/
def isDateByte (b : UInt8) : Bool :=
  isDigitByte b || b == 0x2f

/-- Every byte of a date may stand in one. -/
theorem isDateByte_of_mem {text : Bytes} (h : isDate text = true) (hc : c ∈ text) :
    isDateByte c = true := by
  unfold isDate at h
  split at h
  · simp only [List.all_cons, List.all_nil, Bool.and_eq_true, beq_iff_eq] at h
    simp only [List.mem_cons, List.not_mem_nil, or_false] at hc
    rw [isDateByte, Bool.or_eq_true, beq_iff_eq]
    grind
  · cases h

/-- A date in the first part is found in the whole. -/
theorem dateAt?_append_left {i : Nat} (h : i + 8 ≤ a.length) :
    dateAt? (a ++ b).toArray i = dateAt? a.toArray i := by
  rw [dateAt?, dateAt?, windowAt_append_left h]

/-- The dates at places of the second part are those of that part. -/
theorem dateAt?_append_right (i : Nat) :
    dateAt? (a ++ b).toArray (a.length + i)
      = (dateAt? b.toArray i).map (Finding.shift a.length) := by
  have hwindow : windowAt (a ++ b).toArray (a.length + i) (a.length + i + 8)
      = windowAt b.toArray i (i + 8) := windowAt_append_right i (i + 8)
  rw [dateAt?, dateAt?, hwindow]
  exact ite_eq_map_shift _ _ _ _

/-- The scan for dates splits at each byte that belongs to no date. -/
theorem findDates_splitsAt (hc : isDateByte c = false) : SplitsAt findDates c := by
  apply scan_splitsAt
  · intro a
    exact dateAt?_eq_none (by omega)
  · intro a b i hi
    rcases Nat.lt_or_ge a.length (i + 8) with hover | hin
    · rw [dateAt?_eq_none hover, dateAt?, if_neg]
      intro hdate
      have hbyte := isDateByte_of_mem hdate (mem_windowAt_separator hi hover)
      rw [hc] at hbyte
      cases hbyte
    · exact dateAt?_append_left hin
  · intro a b i
    have hdate := dateAt?_append_right (a := a ++ [c]) (b := b) i
    rwa [List.length_append, List.length_singleton, ← List.append_cons] at hdate

/-! ## Version strings -/

/-- A digit may stand in a version string. -/
theorem isVersionByte_of_isDigit (h : IsDigit c) : isVersionByte c = true := by
  have hvisible : 0x20 ≤ c := UInt8.le_trans (by decide) h.1
  refine isVersionByte_iff.2 ⟨hvisible, ?_⟩
  rintro rfl
  exact absurd h (by decide)

/-- Every byte of a number may stand in a version string. -/
theorem isVersionByte_of_mem {text : Bytes} (h : isVersionNumber text = true) (hc : c ∈ text) :
    isVersionByte c = true := by
  obtain ⟨x, y, hx, hy, rfl⟩ := isVersionNumber_iff.1 h
  simp only [List.mem_cons, List.not_mem_nil, or_false] at hc
  rcases hc with rfl | rfl | rfl
  · exact isVersionByte_of_isDigit hx
  · decide
  · exact isVersionByte_of_isDigit hy

/-- A version string in the first part is found in the whole. -/
theorem versionAt?_append_left {i : Nat} (h : i + 3 ≤ a.length) :
    versionAt? (a ++ b).toArray i = versionAt? a.toArray i := by
  rw [versionAt?, versionAt?, versionStart_append_left (by omega), windowAt_append_left h,
    windowAt_append_left h]

/-- The scan for version strings splits at each byte that may not stand in one. -/
theorem findVersions_splitsAt (hc : isVersionByte c = false) : SplitsAt findVersions c := by
  apply scan_splitsAt
  · intro a
    exact versionAt?_eq_none (by omega)
  · intro a b i hi
    rcases Nat.lt_or_ge a.length (i + 3) with hover | hin
    · rw [versionAt?_eq_none hover, versionAt?, if_neg]
      intro hnumber
      have hbyte := isVersionByte_of_mem hnumber (mem_windowAt_separator hi hover)
      rw [hc] at hbyte
      cases hbyte
    · exact versionAt?_append_left hin
  · intro a b i
    have hnumber : windowAt (a ++ c :: b).toArray (a.length + 1 + i) (a.length + 1 + i + 3)
        = windowAt b.toArray i (i + 3) := windowAt_append_cons_right i (i + 3)
    have htext : windowAt (a ++ c :: b).toArray
        (versionStart (a ++ c :: b).toArray (a.length + 1 + i + 3 - versionWindow)
          (a.length + 1 + i)) (a.length + 1 + i + 3)
        = windowAt b.toArray (versionStart b.toArray (i + 3 - versionWindow) i) (i + 3) := by
      rw [Nat.add_assoc _ i, versionStart_append_right hc, windowAt_append_cons_right]
    rw [versionAt?, versionAt?, hnumber, htext]
    dsimp only
    split
    · exact ite_eq_map_shift _ _ _ _
    · rfl

/-! ## The image that ships -/

variable {symbols : SymbolTable} {raw : Bytes} {options : FinalizeOptions} {final : FinalImage}

/-- If the symbols leave the table or its entry point undefined, the scans find in the final image what
they find in the payload, as far behind as there are bytes in front of the payload. -/
theorem finalize_findings (h : (finalize symbols raw options).result = .ok final)
    (hundefined : symbols.offset? Landmark.compatTable.name = none ∨
      symbols.offset? Landmark.compatEntry.name = none) :
    raw.length ≤ final.image.length ∧
    findDates final.image
      = (findDates raw).map (Finding.shift (final.image.length - raw.length)) ∧
    findVersions final.image
      = (findVersions raw).map (Finding.shift (final.image.length - raw.length)) := by
  obtain ⟨range, patched, haccepted, hpatched, rfl⟩ := finalize_eq_ok_iff.1 h
  rw [CompatTable.result_patch_of_undefined hundefined] at hpatched
  obtain rfl := Except.ok.inj hpatched
  have hlen : (padded raw (.resolve options.requestedKib raw.length)).length - raw.length
      = (SizeClass.resolve options.requestedKib raw.length).bytes - raw.length := by
    rw [padded, List.length_append, List.length_replicate, Nat.add_sub_cancel]
  refine ⟨?_, ?_, ?_⟩
  · show raw.length ≤ (padded raw _).length
    rw [padded, List.length_append]
    omega
  · show findDates (padded raw _) = _
    rw [Option.getD_none, hlen]
    exact (findDates_splitsAt (by decide)).replicate_append rfl _ raw
  · show findVersions (padded raw _) = _
    rw [Option.getD_none, hlen]
    exact (findVersions_splitsAt (by decide)).replicate_append rfl _ raw

/-- Symbols of a payload of sixteen bytes at the end of the standard window, without a table. -/
def plainSymbols : SymbolTable :=
  .ofList [⟨Landmark.codeStart.name, 0xffff0, 0, none⟩, ⟨Landmark.codeEnd.name, 0x100000, 0, none⟩,
    ⟨Landmark.initEnd.name, 0xffff8, 0, none⟩]

/-- Such a payload: the text `Rev 1.0 12/31/99`. -/
def datedPayload : Bytes :=
  [0x52, 0x65, 0x76, 0x20, 0x31, 0x2e, 0x30, 0x20, 0x31, 0x32, 0x2f, 0x33, 0x31, 0x2f, 0x39, 0x39]

/-- The version and the date of that payload stand 1008 bytes further on in its image of 1 KiB. -/
theorem finalize_findings_datedPayload :
    ∃ final, (finalize plainSymbols datedPayload ⟨1, .standard⟩).result = .ok final ∧
      plainSymbols.offset? Landmark.compatTable.name = none ∧
      findDates final.image = [⟨datedPayload.drop 8, 1016⟩] ∧
      findVersions final.image = [⟨datedPayload.take 7, 1012⟩] := by
  have h : (finalize plainSymbols datedPayload ⟨1, .standard⟩).result
      = .ok ⟨List.replicate 1008 0 ++ datedPayload, ⟨16, 8, ⟨1024⟩⟩⟩ := rfl
  have hundefined : plainSymbols.offset? Landmark.compatTable.name = none := rfl
  obtain ⟨_, hdates, hversions⟩ := finalize_findings h (.inl hundefined)
  refine ⟨_, h, hundefined, ?_, ?_⟩
  · rw [hdates, List.length_append, List.length_replicate, Nat.add_sub_cancel]
    decide
  · rw [hversions, List.length_append, List.length_replicate, Nat.add_sub_cancel]
    decide

end RomImage
