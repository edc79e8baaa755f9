/-
# Dates, byte by byte

What the scan for dates finds, told without the scan.  A date takes eight bytes, slashes at two of them and
digits at the others (`IsDateAt`).  The scan lists the places of dates, also where dates overlap, and the
advisory counts them (`findDates_lists`).  Dates can overlap in few ways only, since a date begins with two
digits and no slash of another date can stand there (`IsDateAt.distance`).
-/
import RomImage.Proofs.VersionStrings

namespace RomImage

variable {image text : Bytes} {f : Finding} {i j : Nat}

/-! ## Places of dates -/

/-- A date begins at the position: eight bytes lie in the image from there on, a slash at the offsets 2 and
5 and a digit at every other one. -/
structure IsDateAt (image : Bytes) (position : Nat) : Prop where
  fits : position + 8 ≤ image.length
  slash : ∀ k, k = 2 ∨ k = 5 → image[position + k]? = some 0x2f
  digit : ∀ k < 8, k ≠ 2 → k ≠ 5 → ∃ b, image[position + k]? = some b ∧ IsDigit b

section

variable {a b slash c d slash' e f : UInt8}

theorem isDate_eight_iff :
    isDate [a, b, slash, c, d, slash', e, f] = true ↔
      (slash = 0x2f ∧ slash' = 0x2f) ∧
        IsDigit a ∧ IsDigit b ∧ IsDigit c ∧ IsDigit d ∧ IsDigit e ∧ IsDigit f := by
  simp [isDate, isDigitByte_iff]

theorem isDateAt_eight_iff :
    IsDateAt [a, b, slash, c, d, slash', e, f] 0 ↔
      (slash = 0x2f ∧ slash' = 0x2f) ∧
        IsDigit a ∧ IsDigit b ∧ IsDigit c ∧ IsDigit d ∧ IsDigit e ∧ IsDigit f := by
  constructor
  · intro h
    refine ⟨⟨by simpa using h.slash 2 (.inl rfl), by simpa using h.slash 5 (.inr rfl)⟩, ?_⟩
    have hdigit : ∀ k ∈ [0, 1, 3, 4, 6, 7], ∃ x,
        [a, b, slash, c, d, slash', e, f][k]? = some x ∧ IsDigit x := by
      intro k hk
      have hplace : k < 8 ∧ k ≠ 2 ∧ k ≠ 5 := by
        simp only [List.mem_cons, List.not_mem_nil, or_false] at hk
        omega
      rw [← Nat.zero_add k]
      exact h.digit k hplace.1 hplace.2.1 hplace.2.2
    simpa using hdigit
  · rintro ⟨⟨rfl, rfl⟩, ha, hb, hc, hd, he, hf⟩
    refine ⟨Nat.le_refl 8, ?_, ?_⟩
    · rintro k (rfl | rfl) <;> rfl
    · intro k hk htwo hfive
      match k, hk with
      | 0, _ => exact ⟨a, rfl, ha⟩
      | 1, _ => exact ⟨b, rfl, hb⟩
      | 2, _ => exact absurd rfl htwo
      | 3, _ => exact ⟨c, rfl, hc⟩
      | 4, _ => exact ⟨d, rfl, hd⟩
      | 5, _ => exact absurd rfl hfive
      | 6, _ => exact ⟨e, rfl, he⟩
      | 7, _ => exact ⟨f, rfl, hf⟩

end

/-- A date stands in eight bytes. -/
theorem isDate_iff : isDate text = true ↔ text.length = 8 ∧ IsDateAt text 0 := by
  constructor
  · intro h
    have hlen := length_of_isDate h
    match text, hlen with
    | [_, _, _, _, _, _, _, _], _ => exact ⟨rfl, isDateAt_eight_iff.2 (isDate_eight_iff.1 h)⟩
  · rintro ⟨hlen, hdate⟩
    match text, hlen with
    | [_, _, _, _, _, _, _, _], _ => exact isDate_eight_iff.2 (isDateAt_eight_iff.1 hdate)

/-- Only the eight bytes count, wherever they stand. -/
theorem IsDateAt.of_same_bytes {image' : Bytes} (h : IsDateAt image i)
    (hbytes : ∀ k < 8, image'[j + k]? = image[i + k]?) : IsDateAt image' j where
  fits := by
    obtain ⟨b, hb, _⟩ := h.digit 7 (by decide) (by decide) (by decide)
    rw [← hbytes 7 (by decide)] at hb
    have hlast := (List.getElem?_eq_some_iff.1 hb).1
    omega
  slash k hk := by
    rw [hbytes k (by omega)]
    exact h.slash k hk
  digit k hk htwo hfive := by
    rw [hbytes k hk]
    exact h.digit k hk htwo hfive

/-- The scan stops at the places of dates. -/
theorem isDate_windowAt_iff :
    isDate (windowAt image.toArray i (i + 8)) = true ↔ IsDateAt image i := by
  have hget : ∀ k < 8, ((image.drop i).take 8)[0 + k]? = image[i + k]? := by
    intro k hk
    rw [Nat.zero_add, List.getElem?_take_of_lt hk, List.getElem?_drop]
  rw [windowAt_toArray, Nat.add_sub_cancel_left, isDate_iff]
  constructor
  · rintro ⟨_, hdate⟩
    exact hdate.of_same_bytes fun k hk => (hget k hk).symm
  · intro hdate
    have hfits := hdate.fits
    refine ⟨?_, hdate.of_same_bytes hget⟩
    rw [List.length_take, List.length_drop]
    omega

/-! ## Distances -/

/-- No slash of a date is one of the two bytes with which another date begins. -/
theorem IsDateAt.slash_ne (hi : IsDateAt image i) (hj : IsDateAt image j) {k m : Nat}
    (hk : k = 2 ∨ k = 5) (hm : m < 2) : i + k ≠ j + m := by
  intro hsame
  obtain ⟨b, hb, hdigit⟩ := hj.digit m (by omega) (by omega) (by omega)
  rw [← hsame, hi.slash k hk] at hb
  obtain rfl := Option.some.inj hb
  exact absurd hdigit (by decide)

/-- A later date begins at the second or the third pair of digits of an earlier one, at its last digit, or
behind it. -/
theorem IsDateAt.distance (hi : IsDateAt image i) (hj : IsDateAt image j) (hlt : i < j) :
    j - i = 3 ∨ j - i = 6 ∨ j - i = 7 ∨ 8 ≤ j - i := by
  have hone := hi.slash_ne hj (.inl rfl) (show 1 < 2 by decide)
  have htwo := hi.slash_ne hj (.inl rfl) (show 0 < 2 by decide)
  have hfour := hi.slash_ne hj (.inr rfl) (show 1 < 2 by decide)
  have hfive := hi.slash_ne hj (.inr rfl) (show 0 < 2 by decide)
  omega

/-! ## Findings -/

/-- The scan finds at each place the date that begins there. -/
theorem dateAt?_eq_some_iff :
    dateAt? image.toArray i = some f ↔
      f.position = i ∧ IsDateAt image i ∧ f.text = (image.drop i).take 8 := by
  rw [dateAt?]
  constructor
  · intro h
    split at h
    · rename_i hdate
      cases h
      exact ⟨rfl, isDate_windowAt_iff.1 hdate, by rw [windowAt_toArray, Nat.add_sub_cancel_left]⟩
    · cases h
  · rintro ⟨rfl, hdate, htext⟩
    rw [if_pos (isDate_windowAt_iff.2 hdate), windowAt_toArray, Nat.add_sub_cancel_left, ← htext]

/-- A date is found where it begins. -/
theorem position_of_dateAt? (h : dateAt? image.toArray i = some f) : f.position = i :=
  (dateAt?_eq_some_iff.1 h).1

/-- The findings of the scan are the dates of the image. -/
theorem mem_findDates_iff :
    f ∈ findDates image ↔
      IsDateAt image f.position ∧ f.text = (image.drop f.position).take 8 := by
  rw [findDates, mem_scan_iff, dateAt?_eq_some_iff, eq_self, true_and]
  · intro i f h
    exact position_of_dateAt? h
  · intro i hi
    exact dateAt?_eq_none (by omega)

/-- A date begins exactly where one is found. -/
theorem isDateAt_iff_exists_mem : IsDateAt image i ↔ ∃ f ∈ findDates image, f.position = i := by
  constructor
  · intro h
    exact ⟨⟨(image.drop i).take 8, i⟩, mem_findDates_iff.2 ⟨h, rfl⟩, rfl⟩
  · rintro ⟨f, hf, rfl⟩
    exact (mem_findDates_iff.1 hf).1

/-- Dates are found by increasing position. -/
theorem pairwise_findDates (image : Bytes) :
    (findDates image).Pairwise fun f g => f.position < g.position :=
  pairwise_position_scan fun _ _ => position_of_dateAt?

/-! ## The advisory -/

/-- An image holds no date, a single one, or more than one. -/
theorem findDates_cases (image : Bytes) :
    (findDates image = [] ∧ ∀ i, ¬ IsDateAt image i) ∨
    (∃ f, findDates image = [f] ∧ ∀ i, IsDateAt image i ↔ i = f.position) ∨
    ∃ f g rest, findDates image = f :: g :: rest ∧ f.position < g.position ∧
      IsDateAt image f.position ∧ IsDateAt image g.position := by
  have hplaces : ∀ i, IsDateAt image i ↔ ∃ f ∈ findDates image, f.position = i :=
    fun i => isDateAt_iff_exists_mem
  have hsorted := pairwise_findDates image
  rcases hfound : findDates image with _ | ⟨f, _ | ⟨g, rest⟩⟩
  · refine .inl ⟨rfl, fun i hi => ?_⟩
    obtain ⟨f, hf, _⟩ := (hplaces i).1 hi
    rw [hfound] at hf
    cases hf
  · refine .inr (.inl ⟨f, rfl, fun i => ?_⟩)
    rw [hplaces, hfound]
    simp [eq_comm]
  · rw [hfound] at hsorted hplaces
    refine .inr (.inr ⟨f, g, rest, rfl, ?_, (hplaces _).2 ⟨f, by simp, rfl⟩,
      (hplaces _).2 ⟨g, by simp, rfl⟩⟩)
    exact (List.pairwise_cons.1 hsorted).1 g List.mem_cons_self

/-- A missing date is reported exactly if there is none. -/
theorem checkDates_eq_missing_iff :
    checkDates image = some .missing ↔ ∀ i, ¬ IsDateAt image i := by
  rcases findDates_cases image with ⟨hfound, hnone⟩ | ⟨f, hfound, hone⟩ |
    ⟨f, g, rest, hfound, _, hf, _⟩
  · simp [checkDates, hfound, hnone]
  · simp [checkDates, hfound, hone]
  · simp only [checkDates, hfound, Option.some.injEq, reduceCtorEq, false_iff, not_forall, not_not]
    exact ⟨f.position, hf⟩

/-- Nothing is reported exactly if there is a single date. -/
theorem checkDates_eq_none_iff : checkDates image = none ↔ ∃! i, IsDateAt image i := by
  rcases findDates_cases image with ⟨hfound, hnone⟩ | ⟨f, hfound, hone⟩ |
    ⟨f, g, rest, hfound, hlt, hf, hg⟩
  · simp only [checkDates, hfound, reduceCtorEq, false_iff]
    rintro ⟨i, hi, _⟩
    exact hnone i hi
  · simp [checkDates, hfound, hone]
  · simp only [checkDates, hfound, reduceCtorEq, false_iff]
    rintro ⟨i, _, hunique⟩
    have hsame : f.position = g.position := (hunique _ hf).trans (hunique _ hg).symm
    omega

/-- Several dates are reported exactly if there are two, and then all dates are listed. -/
theorem checkDates_eq_multiple_iff {dates : List Finding} :
    checkDates image = some (.multiple dates) ↔
      dates = findDates image ∧ ∃ i j, i < j ∧ IsDateAt image i ∧ IsDateAt image j := by
  rcases findDates_cases image with ⟨hfound, hnone⟩ | ⟨f, hfound, hone⟩ |
    ⟨f, g, rest, hfound, hlt, hf, hg⟩
  · simp [checkDates, hfound, hnone]
  · simp only [checkDates, hfound, reduceCtorEq, false_iff, hone]
    rintro ⟨_, i, j, hlt, rfl, rfl⟩
    omega
  · simp only [checkDates, hfound, Option.some.injEq, DateAdvisory.multiple.injEq]
    constructor
    · rintro rfl
      exact ⟨rfl, f.position, g.position, hlt, hf, hg⟩
    · rintro ⟨rfl, _⟩
      rfl

/-- The scan lists the dates of an image and nothing else, by increasing position and each once.  Two of them
are 3, 6 or 7 bytes apart if they overlap.  The advisory says that there is none, nothing if there is a
single one, and lists them all if there are more. -/
theorem findDates_lists (image : Bytes) :
    ((findDates image).Pairwise fun f g => f.position < g.position) ∧
    (∀ f, f ∈ findDates image ↔
      IsDateAt image f.position ∧ f.text = (image.drop f.position).take 8) ∧
    ((findDates image).Pairwise fun f g => g.position - f.position = 3 ∨
      g.position - f.position = 6 ∨ g.position - f.position = 7 ∨ 8 ≤ g.position - f.position) ∧
    (checkDates image = some .missing ↔ ∀ i, ¬ IsDateAt image i) ∧
    (checkDates image = none ↔ ∃! i, IsDateAt image i) ∧
    ∀ dates, checkDates image = some (.multiple dates) ↔
      dates = findDates image ∧ ∃ i j, i < j ∧ IsDateAt image i ∧ IsDateAt image j := by
  refine ⟨pairwise_findDates image, fun f => mem_findDates_iff, ?_, checkDates_eq_missing_iff,
    checkDates_eq_none_iff, fun dates => checkDates_eq_multiple_iff⟩
  apply (pairwise_findDates image).imp_of_mem
  intro f g hf hg hlt
  exact (mem_findDates_iff.1 hf).1.distance (mem_findDates_iff.1 hg).1 hlt

/-- In the text `11/22/33/44/551/22/66` four dates overlap, 3, 6 and 7 bytes apart. -/
example : (findDates [0x31, 0x31, 0x2f, 0x32, 0x32, 0x2f, 0x33, 0x33, 0x2f, 0x34, 0x34, 0x2f, 0x35, 0x35,
    0x31, 0x2f, 0x32, 0x32, 0x2f, 0x36, 0x36]).map Finding.position = [0, 3, 6, 13] := by
  decide

end RomImage
