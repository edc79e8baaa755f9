/-
# What the fields of a table held before

Amending a compatibility table sets its balance byte and the two bytes of its entry point, and what these
held before leaves no trace: no check reads them, the entry point is set before the balance byte is made,
and the balance byte counts as zero in its own sum.  Images that agree elsewhere (`SameButFields`) are
patched by one and the same computation, and no other images come to the same bytes
(`patch_eq_of_sameButFields`).
-/
import RomImage.Proofs.Faultless

namespace RomImage

namespace CompatTable

variable {a b payload : Bytes} {symbols : SymbolTable} {window : RomWindow}
  {start table entryAddress : UInt32} {place : Nat}

/-- The images agree, except that the balance byte of the table at `place` and the two bytes of its entry
point may differ. -/
structure SameButFields (place : Nat) (a b : Bytes) : Prop where
  length_eq : a.length = b.length
  frame : ∀ i, i ≠ place + 4 → i ≠ place + 14 → i ≠ place + 15 → a[i]? = b[i]?

namespace SameButFields

theorem symm (h : SameButFields place a b) : SameButFields place b a :=
  ⟨h.length_eq.symm, fun i hbalance hentry hentry' => (h.frame i hbalance hentry hentry').symm⟩

theorem trans {c : Bytes} (h : SameButFields place a b) (h' : SameButFields place b c) :
    SameButFields place a c :=
  ⟨h.length_eq.trans h'.length_eq, fun i hbalance hentry hentry' =>
    (h.frame i hbalance hentry hentry').trans (h'.frame i hbalance hentry hentry')⟩

/-! ## Amending -/

/-- Once the entry point is set, only the balance bytes may differ. -/
theorem getElem?_entered (h : SameButFields place a b) (hhead : place + headLength ≤ a.length)
    (entry : UInt16) (i : Nat) (hi : i ≠ place + balanceField) :
    (entered a place entry)[i]? = (entered b place entry)[i]? := by
  rw [entered, entered, getElem?_written hhead, getElem?_written (h.length_eq ▸ hhead)]
  split
  · rfl
  · rename_i hout
    simp only [entryField, entryBytes, List.length_cons, List.length_nil] at hout
    exact h.frame i hi (by omega) (by omega)

/-- A located table is amended, or refused, in the same way. -/
theorem amend_eq (h : SameButFields place a b)
    (hplace : locate table start a.length = .ok place) (entry : UInt16) :
    amend a place entry = amend b place entry := by
  have hhead := (locate_eq_ok_iff.1 hplace).2
  obtain ⟨declared, hdeclared, hamend⟩ := amend_of_locate entry hplace
  obtain ⟨declared', hdeclared', hamend'⟩ := amend_of_locate entry (h.length_eq ▸ hplace)
  -- the declared length stands outside the fields
  obtain rfl : declared = declared' := by
    rw [lengthField, h.frame _ (by omega) (by omega) (by omega)] at hdeclared
    exact Option.some.inj (hdeclared.symm.trans hdeclared')
  have hlen : (entered a place entry).length = (entered b place entry).length := by
    rw [length_entered entry hhead, length_entered entry (h.length_eq ▸ hhead), h.length_eq]
  have hbalanceAt := balanceField_lt_entered entry hhead
  have hothers := h.getElem?_entered hhead entry
  rw [hamend, hamend', h.length_eq, amended, amended, balanced_congr hlen hbalanceAt hothers,
    balanceOf_congr hlen hbalanceAt hothers]

/-! ## Patching -/

/-- The table that the symbols define is patched, or refused, by the same computation. -/
theorem patch_eq (h : SameButFields place a b)
    (hstart : symbols.offset? Landmark.codeStart.name = some start)
    (htable : symbols.offset? Landmark.compatTable.name = some table)
    (hplace : start.toNat + place = table.toNat) :
    patch a symbols window = patch b symbols window := by
  unfold patch
  rw [htable, SymbolTable.landmark_eq_ok_iff.2 hstart, ← h.length_eq]
  cases symbols.offset? Landmark.compatEntry.name with
  | none => rfl
  | some address =>
      simp only [mapError_ok, Logged.ofExcept_ok_bind]
      cases hlocate : locate table start a.length with
      | error e => simp only [Logged.ofExcept_error_bind]
      | ok located =>
          obtain rfl : located = place := by
            have hdiff := (locate_eq_ok_iff.1 hlocate).1
            omega
          simp only [Logged.ofExcept_ok_bind, h.amend_eq hlocate]

end SameButFields

/-- A patched image agrees with the raw one outside the fields of the table. -/
theorem sameButFields_of_patch
    (hstart : symbols.offset? Landmark.codeStart.name = some start)
    (htable : symbols.offset? Landmark.compatTable.name = some table)
    (hplace : start.toNat + place = table.toNat)
    (h : (patch a symbols window).result = .ok (some payload)) : SameButFields place a payload := by
  obtain ⟨located, entry, declared, hcan, rfl⟩ := patch_eq_some_iff.1 h
  obtain ⟨start', table', hstart', htable', hdiff⟩ := hcan.place_eq
  obtain rfl := Option.some.inj (hstart.symm.trans hstart')
  obtain rfl := Option.some.inj (htable.symm.trans htable')
  obtain rfl : located = place := by omega
  have hspec := isAmended_amended entry hcan.head_le hcan.declared_eq
  exact ⟨hspec.length_eq.symm, fun i hbalance hentry hentry' =>
    (hspec.frame i hbalance hentry hentry').symm⟩

/-- If the symbols define the start of the code, a table that does not lie below it, and an entry point,
then two images that agree outside the fields of the table are patched by the same computation, which
ends in a patched image or in a refusal.  Only images that agree in this way are patched to the same
bytes. -/
theorem patch_eq_of_sameButFields
    (hstart : symbols.offset? Landmark.codeStart.name = some start)
    (htable : symbols.offset? Landmark.compatTable.name = some table)
    (hentry : symbols.offset? Landmark.compatEntry.name = some entryAddress)
    (hplace : start.toNat + place = table.toNat) (h : SameButFields place a b) :
    patch a symbols window = patch b symbols window ∧
      (patch a symbols window).result ≠ .ok none ∧
      (∀ broken, (patch a symbols window).result ≠ .error (.fault broken)) ∧
      ∀ c payload, (patch a symbols window).result = .ok (some payload) →
        (patch c symbols window).result = .ok (some payload) → SameButFields place a c := by
  refine ⟨h.patch_eq hstart htable hplace, ?_, patch_ne_fault a symbols window, ?_⟩
  · intro hnone
    rcases patch_eq_none_iff.1 hnone with hundefined | hundefined
    · rw [htable] at hundefined
      cases hundefined
    · rw [hentry] at hundefined
      cases hundefined
  · intro c payload ha hc
    exact (sameButFields_of_patch hstart htable hplace ha).trans
      (sameButFields_of_patch hstart htable hplace hc).symm

/-- The bare table with an old balance byte and an old entry point. -/
def staleTable : Bytes :=
  written (written (bareTable 16) 4 [0xaa]) 14 [0xbb, 0xcc]

/-- It differs from the bare table in these fields only. -/
theorem sameButFields_staleTable : SameButFields 0 (bareTable 16) staleTable := by
  refine ⟨rfl, fun i hbalance hentry hentry' => ?_⟩
  rw [staleTable, getElem?_written (by decide),
    if_neg (by simp only [List.length_cons, List.length_nil]; omega),
    getElem?_written_singleton (by decide), if_neg (by omega)]

/-- The old bytes are gone from the patched table. -/
theorem patch_eq_of_sameButFields_staleTable :
    SameButFields 0 (bareTable 16) staleTable ∧
      patch (bareTable 16) tableSymbols .standard = patch staleTable tableSymbols .standard ∧
      (patch staleTable tableSymbols .standard).result
        = .ok (some [0x49, 0, 0, 0, 0x61, 16, 0, 0, 0, 0, 0, 0, 0, 0, 0x34, 0x12]) := by
  have hstart : tableSymbols.offset? Landmark.codeStart.name = some 0xf0000 := rfl
  have htable : tableSymbols.offset? Landmark.compatTable.name = some 0xf0000 := rfl
  have hentry : tableSymbols.offset? Landmark.compatEntry.name = some 0xf1234 := rfl
  have hsame : patch (bareTable 16) tableSymbols .standard
      = patch staleTable tableSymbols .standard :=
    (patch_eq_of_sameButFields hstart htable hentry rfl sameButFields_staleTable).1
  exact ⟨sameButFields_staleTable, hsame, rfl⟩

end CompatTable

end RomImage
