/-
# Findings and the bytes around them

What bytes in front of an image, behind it, or between two images do to the findings in them.  None of
them hides a finding (`findings_append`): bytes behind an image change nothing at the places that are
settled by then, and bytes in front can only let the way back from a number go further, so that a version
string grows and keeps its mark.  New findings come up where the images meet, unless a byte between them
keeps them apart; the bytes that do are just those that may not stand in a finding
(`splitsAt_iff`).
-/
import RomImage.Proofs.SeparatedScans

namespace RomImage

variable {a b : Bytes} {c : UInt8} {f : Finding} {hit? : Array UInt8 → Nat → Option Finding}

/-! ## Scans of longer images -/

/-- If the places from which `width` bytes lie in the image show the same in the longer one, and no finding
stands elsewhere, bytes behind an image only add findings behind its own. -/
theorem scan_prefix_append {width : Nat} (hwidth : 0 < width)
    (hsame : ∀ i, i + width ≤ a.length → hit? (a ++ b).toArray i = hit? a.toArray i)
    (hnone : ∀ (image : Bytes) (i : Nat), image.length < i + width →
      hit? image.toArray i = none) :
    scan a hit? <+: scan (a ++ b) hit? := by
  obtain ⟨more, hmore⟩ := Nat.exists_eq_add_of_le
    (show a.length + 1 - width ≤ (a ++ b).length + 1 - width by
      rw [List.length_append]
      omega)
  have hfront : (List.range (a.length + 1 - width)).filterMap (hit? (a ++ b).toArray)
      = (List.range (a.length + 1 - width)).filterMap (hit? a.toArray) := by
    apply List.filterMap_congr
    intro i hi
    have hlt := List.mem_range.1 hi
    exact hsame i (by omega)
  rw [scan_eq_of_width hwidth (hnone a), scan_eq_of_width hwidth (hnone (a ++ b)), hmore,
    List.range_add, List.filterMap_append, hfront]
  exact List.prefix_append _ _

/-- If what is found at a place does not depend on what is in front of it, bytes in front of an image only
add findings in front of its own. -/
theorem scan_suffix_append (hback : ∀ i, hit? (a ++ b).toArray (a.length + i)
      = (hit? b.toArray i).map (Finding.shift a.length)) :
    (scan b hit?).map (Finding.shift a.length) <:+ scan (a ++ b) hit? := by
  show _ <:+ (List.range (a ++ b).length).filterMap (hit? (a ++ b).toArray)
  rw [List.length_append, List.range_add, List.filterMap_append, filterMap_behind hback]
  exact List.suffix_append _ _

/-! ## Version strings with bytes in front -/

theorem getElem?_append_length_add (i : Nat) : (a ++ b)[a.length + i]? = b[i]? := by
  rw [List.getElem?_append_right (Nat.le_add_right _ _), Nat.add_sub_cancel_left]

theorem IsNumberAt.behind {position : Nat} (h : IsNumberAt b position) :
    IsNumberAt (a ++ b) (a.length + position) := by
  simp only [IsNumberAt, Nat.add_assoc, getElem?_append_length_add]
  exact h

theorem VisibleIn.behind {start stop : Nat} (h : VisibleIn b start stop) :
    VisibleIn (a ++ b) (a.length + start) (a.length + stop) := by
  intro j hj hlt
  obtain ⟨i, rfl⟩ := Nat.exists_eq_add_of_le (show a.length ≤ j by omega)
  rw [getElem?_append_length_add]
  exact h i (by omega) (by omega)

/-- A version string of the second part is the end of one of the whole, with the same number. -/
theorem IsVersionString.behind {start : Nat} (h : IsVersionString b start f) :
    ∃ start' g, IsVersionString (a ++ b) start' g ∧ g.position = a.length + f.position ∧
      f.text <:+ g.text := by
  obtain ⟨start', hleast⟩ :
      ∃ s, IsLeast (versionStarts (a ++ b) (a.length + f.position)) s :=
    ⟨_, isLeast_versionStarts _ _⟩
  obtain ⟨hbound, hvisible⟩ := h.start_least.1
  -- the way back in the part can be gone in the whole, where it may go on
  have hfurther : start' ≤ a.length + start := hleast.2 ⟨by omega, hvisible.behind⟩
  have htext : f.text = ((a ++ b).take (a.length + f.position + 3)).drop (a.length + start) := by
    rw [h.text_eq, Nat.add_assoc, List.take_length_add_append, List.drop_length_add_append]
  have hsuffix : f.text <:+ ((a ++ b).take (a.length + f.position + 3)).drop start' := by
    rw [htext]
    exact List.drop_suffix_drop_left _ hfurther
  exact ⟨start', ⟨_, a.length + f.position⟩,
    ⟨h.number.behind, hleast, rfl, h.marked.of_suffix hsuffix⟩, rfl, hsuffix⟩

/-! ## Nothing is hidden -/

/-- Bytes around an image hide none of its findings.  With bytes behind it, the findings are followed by
others.  With bytes in front of it, each version string is the end of one whose number is the same, and
the dates are preceded by others. -/
theorem findings_append (a b : Bytes) :
    findVersions a <+: findVersions (a ++ b) ∧
    (∀ f ∈ findVersions b, ∃ g ∈ findVersions (a ++ b),
      g.position = a.length + f.position ∧ f.text <:+ g.text) ∧
    findDates a <+: findDates (a ++ b) ∧
    (findDates b).map (Finding.shift a.length) <:+ findDates (a ++ b) := by
  refine ⟨?_, ?_, ?_, ?_⟩
  · exact scan_prefix_append (by decide) (fun i hi => versionAt?_append_left hi)
      fun image i hi => versionAt?_eq_none hi
  · intro f hf
    obtain ⟨start, h⟩ := mem_findVersions_iff.1 hf
    obtain ⟨start', g, hg, hposition, hsuffix⟩ := h.behind (a := a)
    exact ⟨g, mem_findVersions_iff.2 ⟨start', hg⟩, hposition, hsuffix⟩
  · exact scan_prefix_append (by decide) (fun i hi => dateAt?_append_left hi)
      fun image i hi => dateAt?_eq_none hi
  · exact scan_suffix_append fun i => dateAt?_append_right i

/-- The text `Rev 1.0 12/31/99` twice: the first version string and the first date are found as they are,
the second version string grows over the date in front of it, and the second date is found behind it. -/
theorem findings_append_datedPayload :
    [⟨datedPayload.take 7, 4⟩] <+: findVersions (datedPayload ++ datedPayload) ∧
      (∃ g ∈ findVersions (datedPayload ++ datedPayload),
        g.position = 16 + 4 ∧ datedPayload.take 7 <:+ g.text) ∧
      [⟨datedPayload.drop 8, 8⟩] <+: findDates (datedPayload ++ datedPayload) ∧
      [⟨datedPayload.drop 8, 16 + 8⟩] <:+ findDates (datedPayload ++ datedPayload) := by
  have hversions : findVersions datedPayload = [⟨datedPayload.take 7, 4⟩] := by decide
  have hdates : findDates datedPayload = [⟨datedPayload.drop 8, 8⟩] := by decide
  have h := findings_append datedPayload datedPayload
  rw [hversions, hdates] at h
  obtain ⟨hfirst, hlonger, hfirst', hlast⟩ := h
  exact ⟨hfirst, hlonger _ List.mem_cons_self, hfirst', hlast⟩

/-! ## Bytes that keep findings apart -/

theorem isVersionByte_eq_false_iff : isVersionByte c = false ↔ c < 0x20 ∨ c = 0x24 := by
  rw [← Bool.not_eq_true, isVersionByte_iff, not_and_or, UInt8.not_le, not_not]

theorem isDateByte_eq_false_iff : isDateByte c = false ↔ ¬ IsDigit c ∧ c ≠ 0x2f := by
  rw [isDateByte, Bool.or_eq_false_iff, ← Bool.not_eq_true, isDigitByte_iff, beq_eq_false_iff_ne]

/-- A byte that may stand in a version string can join the mark `Ver` to the number `1.2`. -/
theorem isVersionString_across (hc : 0x20 ≤ c ∧ c ≠ 0x24) :
    IsVersionString ([0x56, 0x65, 0x72] ++ c :: [0x31, 0x2e, 0x32]) 0
      ⟨[0x56, 0x65, 0x72] ++ c :: [0x31, 0x2e, 0x32], 4⟩ := by
  have hvisible : VisibleIn ([0x56, 0x65, 0x72] ++ c :: [0x31, 0x2e, 0x32]) 0 4 := by
    intro j _ hlt
    match j, hlt with
    | 0, _ => exact ⟨0x56, rfl, by decide⟩
    | 1, _ => exact ⟨0x65, rfl, by decide⟩
    | 2, _ => exact ⟨0x72, rfl, by decide⟩
    | 3, _ => exact ⟨c, rfl, hc⟩
  exact
    { number := ⟨0x31, 0x32, by decide, by decide, rfl, rfl, rfl⟩
      start_least := ⟨⟨show 4 - 124 ≤ 0 by decide, hvisible⟩, fun s _ => Nat.zero_le s⟩
      text_eq := rfl
      marked := ⟨_, .ver, (List.prefix_append _ _).isInfix⟩ }

/-- Eight bytes that are a date are found. -/
theorem mem_findDates_of_isDate {text : Bytes} (h : isDate text = true) :
    ⟨text, 0⟩ ∈ findDates text := by
  have hlen := length_of_isDate h
  have hwindow : windowAt text.toArray 0 (0 + 8) = text := by
    rw [windowAt_toArray, List.drop_zero, List.take_of_length_le (by omega)]
  apply List.mem_filterMap.2
  refine ⟨0, List.mem_range.2 (by omega), ?_⟩
  rw [dateAt?, hwindow, if_pos h]

/-- A byte that may stand in a date can join two parts to a date that hold none themselves. -/
theorem exists_isDate_across (hc : isDateByte c = true) :
    ∃ a b, findDates a = [] ∧ findDates b = [] ∧ isDate (a ++ c :: b) = true := by
  rw [isDateByte, Bool.or_eq_true, beq_iff_eq] at hc
  rcases hc with hdigit | rfl
  · refine ⟨[], [0x31, 0x2f, 0x32, 0x32, 0x2f, 0x33, 0x33], by decide, by decide, ?_⟩
    simp only [List.nil_append, isDate, List.all_cons, hdigit]
    decide
  · exact ⟨[0x31, 0x31], [0x32, 0x32, 0x2f, 0x33, 0x33], by decide, by decide, by decide⟩

/-- Where a scan splits, nothing comes up between images without a finding. -/
theorem SplitsAt.eq_nil {find : Bytes → List Finding} (h : SplitsAt find c) (ha : find a = [])
    (hb : find b = []) : find (a ++ c :: b) = [] := by
  rw [h a b, ha, hb]
  rfl

/-- The scan for version strings splits at the bytes below the space and at the dollar sign, and at no
others.  The scan for dates splits at all bytes but digits and slashes. -/
theorem splitsAt_iff (c : UInt8) :
    (SplitsAt findVersions c ↔ c < 0x20 ∨ c = 0x24) ∧
    (SplitsAt findDates c ↔ ¬ IsDigit c ∧ c ≠ 0x2f) := by
  rw [← isVersionByte_eq_false_iff, ← isDateByte_eq_false_iff]
  refine ⟨⟨fun h => ?_, findVersions_splitsAt⟩, ⟨fun h => ?_, findDates_splitsAt⟩⟩
  · rw [← Bool.not_eq_true]
    intro hc
    have hfound := mem_findVersions_iff.2 ⟨0, isVersionString_across (isVersionByte_iff.1 hc)⟩
    rw [h.eq_nil (by decide) (by decide)] at hfound
    cases hfound
  · rw [← Bool.not_eq_true]
    intro hc
    obtain ⟨a, b, ha, hb, hdate⟩ := exists_isDate_across hc
    have hfound := mem_findDates_of_isDate hdate
    rw [h.eq_nil ha hb] at hfound
    cases hfound

end RomImage
