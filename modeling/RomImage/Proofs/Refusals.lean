/-
# Refusals in order

When no final image is made, and why.  `Check.all` lists the checks in the order in which they are
made, and `Check.refusal?` says of each, over exact integers, whether and how it refuses a payload;
the checks of the compatibility table concern only symbols that define both the table and its entry
point.  The outcome of finalizing is the first refusal in that order (`errorOf_finalize`), and each
check has errors of its own (`Check.RefusesWith`).
-/
import RomImage.Proofs.ShippedImage

namespace RomImage

/-- The checks that a payload goes through. -/
inductive Check
  /-- The payload fits the size class. -/
  | romSize
  /-- A landmark is defined. -/
  | landmark (place : Landmark)
  /-- The code ends with the window. -/
  | codeEnd
  /-- The payload is as long as the code range. -/
  | payloadLength
  /-- The head of the table lies in the payload. -/
  | tableHead
  /-- The entry point is in the 64 KiB from the base on. -/
  | entryPoint
  /-- The length that the table declares lies in the payload. -/
  | tableLength
  deriving DecidableEq, Repr

namespace Check

/-- The checks of the code range, in order. -/
def layout : List Check :=
  [romSize, landmark .codeStart, landmark .codeEnd, landmark .initEnd, codeEnd, payloadLength]

/-- The checks of the compatibility table, in order. -/
def compat : List Check :=
  [tableHead, entryPoint, tableLength]

/-- All checks, in order. -/
def all : List Check :=
  layout ++ compat

/-- How a check refuses a payload, if it does.  A check does not concern symbols that leave one of the
addresses undefined that it needs. -/
def refusal? (symbols : SymbolTable) (raw : Bytes) (options : FinalizeOptions) :
    Check → Option FinalizeError
  | romSize =>
    let size := (SizeClass.resolve options.requestedKib raw.length).bytes
    if raw.length ≤ size then none else some (.layout (.romTooLarge raw.length size))
  | landmark place =>
    match symbols.offset? place.name with
    | some _ => none
    | none => some (.layout (.missingSymbol ⟨place.name⟩))
  | codeEnd => do
    let stop ← symbols.offset? Landmark.codeEnd.name
    let expected := options.window.base.toNat + options.window.size.toNat
    if stop.toNat = expected then none else some (.layout (.codeEndMismatch expected stop))
  | payloadLength => do
    let start ← symbols.offset? Landmark.codeStart.name
    let stop ← symbols.offset? Landmark.codeEnd.name
    if (raw.length : Int) = (stop.toNat - start.toNat) % 0x100000000 then none
    else some (.layout (.unknownExtraData raw.length (stop - start)))
  | tableHead => do
    let table ← symbols.offset? Landmark.compatTable.name
    let _ ← symbols.offset? Landmark.compatEntry.name
    let start ← symbols.offset? Landmark.codeStart.name
    if start.toNat ≤ table.toNat ∧ table.toNat - start.toNat + 16 ≤ raw.length then none
    else some (.compat (.tableOutOfRange (table - start).toNat 16 raw.length))
  | entryPoint => do
    let _ ← symbols.offset? Landmark.compatTable.name
    let entry ← symbols.offset? Landmark.compatEntry.name
    let base := options.window.base
    if base.toNat ≤ entry.toNat ∧ entry.toNat ≤ base.toNat + 0xffff then none
    else some (.compat (.entryOutOfRange entry base))
  | tableLength => do
    let table ← symbols.offset? Landmark.compatTable.name
    let _ ← symbols.offset? Landmark.compatEntry.name
    let start ← symbols.offset? Landmark.codeStart.name
    let place := table.toNat - start.toNat
    let declared ← raw[place + 5]?
    if place + declared.toNat ≤ raw.length then none
    else some (.compat (.tableOutOfRange place declared.toNat raw.length))

end Check

variable {symbols : SymbolTable} {raw : Bytes} {options : FinalizeOptions}

/-! ## The code range -/

/-- The length of a code range, modulo the size of the address space. -/
theorem cast_toNat_sub (start stop : UInt32) :
    ((stop - start).toNat : Int) = (stop.toNat - start.toNat) % 0x100000000 := by
  have hstart := start.toNat_lt
  rw [UInt32.toNat_sub]
  omega

/-- The length that a code range has modulo the size of the address space is the check of it. -/
theorem refusal?_payloadLength {start stop : UInt32}
    (hstart : symbols.offset? Landmark.codeStart.name = some start)
    (hstop : symbols.offset? Landmark.codeEnd.name = some stop) :
    Check.refusal? symbols raw options .payloadLength =
      if raw.length = (stop - start).toNat then none
      else some (.layout (.unknownExtraData raw.length (stop - start))) := by
  have hiff : (raw.length : Int) = (stop.toNat - start.toNat) % 0x100000000 ↔
      raw.length = (stop - start).toNat := by
    rw [← cast_toNat_sub]
    exact Int.ofNat_inj
  simp only [Check.refusal?, hstart, hstop, bind, Option.bind, hiff]

/-- A code range is refused by the first of its checks that refuses. -/
theorem errorOf_validate (symbols : SymbolTable) (raw : Bytes) (options : FinalizeOptions) :
    errorOf ((CodeRange.validate symbols raw.length
        (.resolve options.requestedKib raw.length) options.window).mapError FinalizeError.layout)
      = Check.layout.findSome? (Check.refusal? symbols raw options) := by
  have hwindow : options.window.stop = options.window.base.toNat + options.window.size.toNat := rfl
  unfold CodeRange.validate SymbolTable.landmark SymbolTable.require
  rw [hwindow]
  simp only [Check.layout, List.findSome?_cons, List.findSome?_nil]
  -- the checks are taken in order, and one that refuses ends both sides
  rcases Nat.lt_or_ge (SizeClass.resolve options.requestedKib raw.length).bytes raw.length
    with hlong | hfits
  · rw [if_pos hlong, Check.refusal?, if_neg (Nat.not_le.2 hlong)]
    rfl
  rw [if_neg (Nat.not_lt.2 hfits)]
  have hsize : Check.refusal? symbols raw options .romSize = none := if_pos hfits
  rw [hsize]
  rcases hstart : symbols.offset? Landmark.codeStart.name with _ | start
  · simp only [Check.refusal?, hstart]
    rfl
  rcases hstop : symbols.offset? Landmark.codeEnd.name with _ | stop
  · simp only [Check.refusal?, hstart, hstop]
    rfl
  rw [refusal?_payloadLength hstart hstop]
  rcases hinit : symbols.offset? Landmark.initEnd.name with _ | initEnd
  · simp only [Check.refusal?, hstart, hstop, hinit]
    rfl
  simp only [Check.refusal?, hstart, hstop, hinit, mapError_ok, bind, Except.bind, Option.bind]
  by_cases hend : stop.toNat = options.window.base.toNat + options.window.size.toNat
  · rw [if_neg (not_not_intro hend), if_pos hend]
    by_cases hlen : raw.length = (stop - start).toNat
    · rw [if_neg (not_not_intro hlen), if_pos hlen]
      rfl
    · rw [if_pos hlen, if_neg hlen]
      rfl
  · rw [if_pos hend, if_neg hend]
    rfl

/-! ## The compatibility table -/

section

variable {start table address : UInt32} {place : Nat}

/-- Locating a table that is defined is the check of its head. -/
theorem errorOf_locate (hstart : symbols.offset? Landmark.codeStart.name = some start)
    (htable : symbols.offset? Landmark.compatTable.name = some table)
    (haddress : symbols.offset? Landmark.compatEntry.name = some address) :
    errorOf ((CompatTable.locate table start raw.length).mapError FinalizeError.compat)
      = Check.refusal? symbols raw options .tableHead := by
  simp only [Check.refusal?, hstart, htable, haddress, bind, Option.bind]
  by_cases hhead : start.toNat ≤ table.toNat ∧ table.toNat - start.toNat + 16 ≤ raw.length
  · have hplace := CompatTable.locate_eq_ok_iff.2 ⟨Nat.add_sub_of_le hhead.1, hhead.2⟩
    rw [hplace, if_pos hhead]
    rfl
  · rw [CompatTable.locate_eq_error hhead, if_neg hhead]
    rfl

/-- Taking the entry point relative to the base is the check of it. -/
theorem errorOf_relativeEntry (htable : symbols.offset? Landmark.compatTable.name = some table)
    (haddress : symbols.offset? Landmark.compatEntry.name = some address) :
    errorOf ((CompatTable.relativeEntry address options.window.base).mapError FinalizeError.compat)
      = Check.refusal? symbols raw options .entryPoint := by
  simp only [Check.refusal?, htable, haddress, bind, Option.bind]
  by_cases hnear : options.window.base.toNat ≤ address.toNat ∧
      address.toNat ≤ options.window.base.toNat + 0xffff
  · obtain ⟨entry, hentry⟩ := CompatTable.exists_relativeEntry hnear.1 hnear.2
    rw [hentry, if_pos hnear]
    rfl
  · rw [CompatTable.relativeEntry_eq_error hnear, if_neg hnear]
    rfl

/-- Amending a table that has been located is the check of the length that it declares. -/
theorem errorOf_amend (hstart : symbols.offset? Landmark.codeStart.name = some start)
    (htable : symbols.offset? Landmark.compatTable.name = some table)
    (haddress : symbols.offset? Landmark.compatEntry.name = some address)
    (hplace : CompatTable.locate table start raw.length = .ok place) (entry : UInt16) :
    errorOf ((CompatTable.amend raw place entry).mapError FinalizeError.compat)
      = Check.refusal? symbols raw options .tableLength := by
  obtain ⟨declared, hdeclared, hamend⟩ := CompatTable.amend_of_locate entry hplace
  have hdiff := (CompatTable.locate_eq_ok_iff.1 hplace).1
  have hsub : table.toNat - start.toNat = place := by omega
  rw [CompatTable.lengthField] at hdeclared
  simp only [Check.refusal?, hstart, htable, haddress, hsub, hdeclared, hamend, bind, Option.bind]
  by_cases hlength : place + declared.toNat ≤ raw.length
  · rw [if_pos hlength, if_pos hlength]
    rfl
  · rw [if_neg hlength, if_neg hlength]
    rfl

end

/-- The checks of a table do not concern symbols that leave it or its entry point undefined. -/
theorem refusal?_compat_of_undefined {check : Check}
    (h : symbols.offset? Landmark.compatTable.name = none ∨
      symbols.offset? Landmark.compatEntry.name = none) (hmem : check ∈ Check.compat) :
    check.refusal? symbols raw options = none := by
  have hcases : check = .tableHead ∨ check = .entryPoint ∨ check = .tableLength := by
    simpa [Check.compat] using hmem
  cases htable : symbols.offset? Landmark.compatTable.name with
  | none => rcases hcases with rfl | rfl | rfl <;> simp [Check.refusal?, htable]
  | some table =>
      have haddress := h.resolve_left (by simp [htable])
      rcases hcases with rfl | rfl | rfl <;> simp [Check.refusal?, htable, haddress]

/-- If the start of the code is defined, a table is refused by the first of its checks that refuses. -/
theorem errorOf_patch {start : UInt32}
    (hstart : symbols.offset? Landmark.codeStart.name = some start) :
    errorOf ((CompatTable.patch raw symbols options.window).result.mapError FinalizeError.compat)
      = Check.compat.findSome? (Check.refusal? symbols raw options) := by
  rcases CompatTable.undefined_or_defined symbols with
    hundefined | ⟨table, address, htable, haddress⟩
  · have hnone : Check.compat.findSome? (Check.refusal? symbols raw options) = none := by
      rw [List.findSome?_eq_none_iff]
      intro check hmem
      exact refusal?_compat_of_undefined hundefined hmem
    rw [CompatTable.result_patch_of_undefined hundefined, hnone]
    rfl
  · rw [CompatTable.result_patch_of_defined htable haddress,
      SymbolTable.landmark_eq_ok_iff.2 hstart]
    simp only [mapError_ok, bind, Except.bind]
    rw [Check.compat, List.findSome?_cons, List.findSome?_cons, List.findSome?_cons,
      ← errorOf_locate hstart htable haddress, ← errorOf_relativeEntry htable haddress]
    -- the steps are taken in the order of the checks, and the first error ends both
    cases hplace : CompatTable.locate table start raw.length with
    | error e => rfl
    | ok place =>
        cases hentry : CompatTable.relativeEntry address options.window.base with
        | error e => rfl
        | ok entry =>
            rw [← errorOf_amend hstart htable haddress hplace entry]
            dsimp only
            cases hamend : CompatTable.amend raw place entry with
            | error e => rfl
            | ok outcome => rfl

/-! ## All checks -/

/-- A payload is refused by the first check that refuses it. -/
theorem errorOf_finalize (symbols : SymbolTable) (raw : Bytes) (options : FinalizeOptions) :
    errorOf (finalize symbols raw options).result
      = Check.all.findSome? (Check.refusal? symbols raw options) := by
  rw [Check.all, List.findSome?_append, ← errorOf_validate]
  cases hrange : (finalize symbols raw options).result with
  | ok final =>
      obtain ⟨range, patched, haccepted, hpatched, _⟩ := finalize_eq_ok_iff.1 hrange
      rw [CodeRange.validate_eq_ok_iff.2 haccepted, ← errorOf_patch haccepted.start_eq, hpatched]
      rfl
  | error e =>
      rw [result_finalize] at hrange
      simp only [bind_eq_error_iff] at hrange
      rcases hrange with hlayout | ⟨range, hrange, hrest⟩
      · rw [hlayout]
        rfl
      · have haccepted := CodeRange.validate_eq_ok_iff.1 (mapError_eq_ok_iff.1 hrange)
        rw [hrange, ← errorOf_patch haccepted.start_eq]
        rcases hrest with hcompat | ⟨patched, hpatched, hrest⟩
        · rw [hcompat]
          rfl
        · -- an accepted payload fits its size class, so that it can be padded
          have hlen := length_getD_of_patch (mapError_eq_ok_iff.1 hpatched)
          rw [padFront_eq_ok (by rw [hlen]; exact haccepted.fits)] at hrest
          simp [pure, Except.pure] at hrest

/-- The errors with which a check refuses payloads. -/
inductive Check.RefusesWith : Check → FinalizeError → Prop
  | romSize (payloadLen finalSize : Nat) :
    RefusesWith .romSize (.layout (.romTooLarge payloadLen finalSize))
  | landmark (place : Landmark) :
    RefusesWith (.landmark place) (.layout (.missingSymbol ⟨place.name⟩))
  | codeEnd (expected : Nat) (actual : UInt32) :
    RefusesWith .codeEnd (.layout (.codeEndMismatch expected actual))
  | payloadLength (payloadLen : Nat) (expected : UInt32) :
    RefusesWith .payloadLength (.layout (.unknownExtraData payloadLen expected))
  | tableHead (place payloadLen : Nat) :
    RefusesWith .tableHead (.compat (.tableOutOfRange place 16 payloadLen))
  | entryPoint (entry base : UInt32) :
    RefusesWith .entryPoint (.compat (.entryOutOfRange entry base))
  | tableLength (place declared payloadLen : Nat) :
    RefusesWith .tableLength (.compat (.tableOutOfRange place declared payloadLen))

/-- A condition of a check that fails is refused with its error. -/
theorem eq_of_condition_eq_some {p : Prop} [Decidable p] {e e' : FinalizeError}
    (h : (if p then none else some e) = some e') : e = e' := by
  split at h
  · cases h
  · exact Option.some.inj h

/-- A check refuses payloads with errors of its own only. -/
theorem Check.refusesWith_of_refusal? {check : Check} {e : FinalizeError}
    (h : check.refusal? symbols raw options = some e) : check.RefusesWith e := by
  cases check with
  | romSize =>
      obtain rfl := eq_of_condition_eq_some h
      constructor
  | landmark place =>
      simp only [Check.refusal?] at h
      split at h
      · cases h
      · obtain rfl := Option.some.inj h
        constructor
  | codeEnd =>
      obtain ⟨stop, _, h⟩ := Option.bind_eq_some_iff.1 h
      obtain rfl := eq_of_condition_eq_some h
      constructor
  | payloadLength =>
      obtain ⟨start, _, h⟩ := Option.bind_eq_some_iff.1 h
      obtain ⟨stop, _, h⟩ := Option.bind_eq_some_iff.1 h
      obtain rfl := eq_of_condition_eq_some h
      constructor
  | tableHead =>
      obtain ⟨table, _, h⟩ := Option.bind_eq_some_iff.1 h
      obtain ⟨entry, _, h⟩ := Option.bind_eq_some_iff.1 h
      obtain ⟨start, _, h⟩ := Option.bind_eq_some_iff.1 h
      obtain rfl := eq_of_condition_eq_some h
      constructor
  | entryPoint =>
      obtain ⟨table, _, h⟩ := Option.bind_eq_some_iff.1 h
      obtain ⟨entry, _, h⟩ := Option.bind_eq_some_iff.1 h
      obtain rfl := eq_of_condition_eq_some h
      constructor
  | tableLength =>
      obtain ⟨table, _, h⟩ := Option.bind_eq_some_iff.1 h
      obtain ⟨entry, _, h⟩ := Option.bind_eq_some_iff.1 h
      obtain ⟨start, _, h⟩ := Option.bind_eq_some_iff.1 h
      obtain ⟨declared, _, h⟩ := Option.bind_eq_some_iff.1 h
      obtain rfl := eq_of_condition_eq_some h
      constructor

/-- No check of the table finds a symbol missing. -/
theorem refusal?_ne_compat_missingSymbol (check : Check) (missing : MissingSymbol) :
    check.refusal? symbols raw options ≠ some (.compat (.missingSymbol missing)) := by
  intro h
  cases Check.refusesWith_of_refusal? h

/-- Finalizing fails with the refusal of the first check that refuses, and succeeds if none does.  The
table patcher never finds the start of the code missing. -/
theorem finalize_eq_error_iff (symbols : SymbolTable) (raw : Bytes) (options : FinalizeOptions) :
    (∀ e, (finalize symbols raw options).result = .error e ↔
      Check.all.findSome? (Check.refusal? symbols raw options) = some e) ∧
    ((∃ final, (finalize symbols raw options).result = .ok final) ↔
      ∀ check ∈ Check.all, check.refusal? symbols raw options = none) ∧
    ∀ missing, (finalize symbols raw options).result ≠ .error (.compat (.missingSymbol missing)) := by
  refine ⟨fun e => ?_, ?_, fun missing h => ?_⟩
  · rw [← errorOf_eq_some_iff, errorOf_finalize]
  · rw [← errorOf_eq_none_iff, errorOf_finalize, List.findSome?_eq_none_iff]
  · rw [← errorOf_eq_some_iff, errorOf_finalize] at h
    obtain ⟨before, check, after, _, hcheck, _⟩ := List.findSome?_eq_some_iff.1 h
    exact refusal?_ne_compat_missingSymbol check missing hcheck

end RomImage
