/-
# Images elsewhere in the address space

A payload with its landmarks and its window may be moved up in the address space, as long as none of
their addresses leaves it (`Shiftable`).  Every check compares distances only, so it refuses the moved
payload exactly if it refuses the payload in place, and for the same reason (`Check.refusal?_shift`); and
no address enters the image but the entry point, relative to the base.  So finalizing gives the same
image with the same figures, or an error of the same kind (`finalize_shift`).
-/
import RomImage.Proofs.Refusals

namespace RomImage

/-! ## Moving up -/

/-- The landmarks, each once. -/
def Landmark.all : List Landmark :=
  [codeStart, codeEnd, initEnd, compatTable, compatEntry]

/-- Whether the name is that of a landmark. -/
def isLandmarkName (name : String) : Bool :=
  Landmark.all.any (·.name == name)

/-- A symbol at an address higher by `distance` if it is a landmark, and as it was otherwise. -/
def Symbol.shift (distance : UInt32) (s : Symbol) : Symbol :=
  if isLandmarkName s.name then { s with offset := s.offset + distance } else s

/-- A symbol keeps its name. -/
@[simp]
theorem Symbol.name_shift (distance : UInt32) (s : Symbol) :
    (s.shift distance).name = s.name := by
  unfold Symbol.shift
  split <;> rfl

/-- A table with its landmarks higher by `distance`. -/
def SymbolTable.shift (distance : UInt32) (t : SymbolTable) : SymbolTable :=
  ⟨t.toList.map (Symbol.shift distance), by
    simpa only [List.pairwise_map, Symbol.name_shift] using t.sorted⟩

/-- A window at an address higher by `distance`. -/
def RomWindow.shift (distance : UInt32) (w : RomWindow) : RomWindow :=
  { w with base := w.base + distance }

@[inherit_doc RomWindow.shift]
def FinalizeOptions.shift (distance : UInt32) (options : FinalizeOptions) : FinalizeOptions :=
  { options with window := options.window.shift distance }

/-- The code range higher by `distance`. -/
def CodeRange.shift (distance : UInt32) (range : CodeRange) : CodeRange :=
  ⟨range.start + distance, range.stop + distance, range.initEnd + distance⟩

/-- A name leads to the symbol that it led to, moved if it is a landmark. -/
theorem SymbolTable.get?_shift (distance : UInt32) (t : SymbolTable) (name : String) :
    (t.shift distance).get? name = (t.get? name).map (Symbol.shift distance) := by
  have hname : ((fun s : Symbol => decide (s.name = name)) ∘ Symbol.shift distance)
      = fun s : Symbol => decide (s.name = name) := by
    funext s
    simp
  rw [get?, get?, shift, List.find?_map, hname]

/-- A landmark is higher by `distance`. -/
theorem SymbolTable.offset?_shift (distance : UInt32) (t : SymbolTable) (place : Landmark) :
    (t.shift distance).offset? place.name = (t.offset? place.name).map (· + distance) := by
  rw [offset?, offset?, get?_shift]
  cases hget : t.get? place.name with
  | none => rfl
  | some s =>
      have hname : s.name = place.name := by
        simpa using List.find?_some hget
      have hlandmark : isLandmarkName s.name = true := by
        rw [hname]
        cases place <;> decide
      simp [Symbol.shift, hlandmark]

/-- The base of the window and the landmarks that are defined stay in the address space when they are
moved up by `distance`. -/
structure Shiftable (symbols : SymbolTable) (window : RomWindow) (distance : UInt32) : Prop where
  base_lt : window.base.toNat + distance.toNat < UInt32.size
  landmark_lt : ∀ (place : Landmark) (address : UInt32),
    symbols.offset? place.name = some address → address.toNat + distance.toNat < UInt32.size

/-! ## Moved addresses -/

/-- An address that stays in the address space is moved exactly. -/
theorem toNat_add_of_lt {address distance : UInt32}
    (h : address.toNat + distance.toNat < UInt32.size) :
    (address + distance).toNat = address.toNat + distance.toNat := by
  rw [UInt32.toNat_add]
  exact Nat.mod_eq_of_lt h

/-- The way between two addresses that are moved together stays the same. -/
theorem add_sub_add (a b distance : UInt32) : a + distance - (b + distance) = a - b := by
  grind

/-! ## Errors -/

/-- A refused code range, its addresses moved. -/
def LayoutError.shift (distance : UInt32) : LayoutError → LayoutError
  | codeEndMismatch expected actual =>
    codeEndMismatch (expected + distance.toNat) (actual + distance)
  | refusal => refusal

/-- A refused table, its addresses moved. -/
def CompatError.shift (distance : UInt32) : CompatError → CompatError
  | entryOutOfRange entry base => entryOutOfRange (entry + distance) (base + distance)
  | refusal => refusal

/-- An error, its addresses moved. -/
def FinalizeError.shift (distance : UInt32) : FinalizeError → FinalizeError
  | layout refusal => layout (refusal.shift distance)
  | compat refusal => compat (refusal.shift distance)
  | fault broken => fault broken

/-- The errors are of one kind, and about the same missing symbol if one is missing. -/
inductive FinalizeError.SameKind : FinalizeError → FinalizeError → Prop
  | romTooLarge (n s n' s' : Nat) :
    SameKind (.layout (.romTooLarge n s)) (.layout (.romTooLarge n' s'))
  | codeEndMismatch (e : Nat) (a : UInt32) (e' : Nat) (a' : UInt32) :
    SameKind (.layout (.codeEndMismatch e a)) (.layout (.codeEndMismatch e' a'))
  | unknownExtraData (n : Nat) (e : UInt32) (n' : Nat) (e' : UInt32) :
    SameKind (.layout (.unknownExtraData n e)) (.layout (.unknownExtraData n' e'))
  | missingLandmark (missing : MissingSymbol) :
    SameKind (.layout (.missingSymbol missing)) (.layout (.missingSymbol missing))
  | tableOutOfRange (t n i t' n' i' : Nat) :
    SameKind (.compat (.tableOutOfRange t n i)) (.compat (.tableOutOfRange t' n' i'))
  | entryOutOfRange (e b e' b' : UInt32) :
    SameKind (.compat (.entryOutOfRange e b)) (.compat (.entryOutOfRange e' b'))
  | missingStart (missing : MissingSymbol) :
    SameKind (.compat (.missingSymbol missing)) (.compat (.missingSymbol missing))
  | tableFault (broken broken' : Fault) :
    SameKind (.compat (.fault broken)) (.compat (.fault broken'))
  | fault (broken broken' : Fault) : SameKind (.fault broken) (.fault broken')

/-- An error whose addresses are moved is of the same kind. -/
theorem FinalizeError.sameKind_shift (e : FinalizeError) (distance : UInt32) :
    e.SameKind (e.shift distance) := by
  rcases e with refusal | refusal | broken
  · cases refusal <;> constructor
  · cases refusal <;> constructor
  · constructor

/-! ## The checks of a moved payload -/

/-- Two checks of one condition, the second with its addresses moved. -/
theorem refusal_shift {p q : Prop} [Decidable p] [Decidable q] {distance : UInt32}
    {e e' : FinalizeError} (hcondition : q ↔ p) (herror : e' = e.shift distance) :
    (if q then none else some e')
      = (if p then none else some e).map (FinalizeError.shift distance) := by
  by_cases hp : p
  · rw [if_pos hp, if_pos (hcondition.2 hp)]
    rfl
  · rw [if_neg hp, if_neg (mt hcondition.1 hp), herror]
    rfl

variable {symbols : SymbolTable} {raw : Bytes} {options : FinalizeOptions} {distance : UInt32}

/-- A check refuses a moved payload exactly if it refuses the payload in place, and then for the same
reason. -/
theorem Check.refusal?_shift (h : Shiftable symbols options.window distance) (check : Check) :
    check.refusal? (symbols.shift distance) raw (options.shift distance)
      = (check.refusal? symbols raw options).map (FinalizeError.shift distance) := by
  have hbase : (options.window.base + distance).toNat
      = options.window.base.toNat + distance.toNat := toNat_add_of_lt h.base_lt
  have hmoved : ∀ {place : Landmark} {address : UInt32},
      symbols.offset? place.name = some address →
      (address + distance).toNat = address.toNat + distance.toNat :=
    fun hplace => toNat_add_of_lt (h.landmark_lt _ _ hplace)
  simp only [refusal?, FinalizeOptions.shift, RomWindow.shift, SymbolTable.offset?_shift]
  -- every condition compares addresses that have been moved by the same distance
  cases check with
  | romSize => exact refusal_shift Iff.rfl rfl
  | landmark place =>
      dsimp only
      cases symbols.offset? place.name <;> rfl
  | codeEnd =>
      cases hstop : symbols.offset? Landmark.codeEnd.name with
      | none => rfl
      | some stop =>
          have hstop' := hmoved hstop
          refine refusal_shift ?_ ?_
          · simp only [hstop', hbase]
            omega
          · simp only [hbase, FinalizeError.shift, LayoutError.shift, Nat.add_right_comm]
  | payloadLength =>
      cases hstart : symbols.offset? Landmark.codeStart.name with
      | none => rfl
      | some start =>
          cases hstop : symbols.offset? Landmark.codeEnd.name with
          | none => rfl
          | some stop =>
              have hstart' := hmoved hstart
              have hstop' := hmoved hstop
              refine refusal_shift ?_ ?_
              · rw [hstart', hstop']
                omega
              · rw [add_sub_add]
                rfl
  | tableHead =>
      cases htable : symbols.offset? Landmark.compatTable.name with
      | none => rfl
      | some table =>
          cases symbols.offset? Landmark.compatEntry.name with
          | none => rfl
          | some entry =>
              cases hstart : symbols.offset? Landmark.codeStart.name with
              | none => rfl
              | some start =>
                  have htable' := hmoved htable
                  have hstart' := hmoved hstart
                  refine refusal_shift ?_ ?_
                  · rw [htable', hstart']
                    omega
                  · rw [add_sub_add]
                    rfl
  | entryPoint =>
      cases symbols.offset? Landmark.compatTable.name with
      | none => rfl
      | some table =>
          cases hentry : symbols.offset? Landmark.compatEntry.name with
          | none => rfl
          | some entry =>
              have hentry' := hmoved hentry
              refine refusal_shift ?_ rfl
              rw [hentry', hbase]
              omega
  | tableLength =>
      cases htable : symbols.offset? Landmark.compatTable.name with
      | none => rfl
      | some table =>
          cases symbols.offset? Landmark.compatEntry.name with
          | none => rfl
          | some entry =>
              cases hstart : symbols.offset? Landmark.codeStart.name with
              | none => rfl
              | some start =>
                  have hplace : (table + distance).toNat - (start + distance).toNat
                      = table.toNat - start.toNat := by
                    rw [hmoved htable, hmoved hstart]
                    omega
                  simp only [Option.map_some, bind, Option.bind, hplace]
                  cases raw[table.toNat - start.toNat + 5]? with
                  | none => rfl
                  | some declared => exact refusal_shift Iff.rfl rfl

/-- The error of a moved payload is that of the payload in place, its addresses moved. -/
theorem errorOf_finalize_shift (raw : Bytes) (h : Shiftable symbols options.window distance) :
    errorOf (finalize (symbols.shift distance) raw (options.shift distance)).result
      = (errorOf (finalize symbols raw options).result).map (FinalizeError.shift distance) := by
  rw [errorOf_finalize, errorOf_finalize, List.map_findSome?]
  congr 1
  funext check
  exact Check.refusal?_shift h check

/-! ## The image of a moved payload -/

/-- An accepted code range is accepted when it is moved. -/
theorem CodeRange.Accepted.shift {payloadLen : Nat} {size : SizeClass} {window : RomWindow}
    {range : CodeRange} (h : Shiftable symbols window distance)
    (haccepted : Accepted symbols payloadLen size window range) :
    Accepted (symbols.shift distance) payloadLen size (window.shift distance)
      (range.shift distance) := by
  have hlandmark : ∀ {place : Landmark} {address : UInt32},
      symbols.offset? place.name = some address →
      (symbols.shift distance).offset? place.name = some (address + distance) := by
    intro place address hplace
    rw [SymbolTable.offset?_shift, hplace]
    rfl
  refine ⟨haccepted.fits, hlandmark haccepted.start_eq, hlandmark haccepted.stop_eq,
    hlandmark haccepted.initEnd_eq, ?_, ?_⟩
  · have hstop := toNat_add_of_lt (h.landmark_lt _ _ haccepted.stop_eq)
    have hbase := toNat_add_of_lt h.base_lt
    have hend := haccepted.stop_toNat
    simp only [RomWindow.stop, RomWindow.shift, CodeRange.shift] at hend ⊢
    omega
  · rw [CodeRange.shift, add_sub_add]
    exact haccepted.length_eq

/-- The code that stays after start-up has the same size when the range is moved. -/
theorem CodeRange.fixedSize_shift {range : CodeRange}
    (hstop : range.stop.toNat + distance.toNat < UInt32.size)
    (hinit : range.initEnd.toNat + distance.toNat < UInt32.size) :
    (range.shift distance).fixedSize = range.fixedSize := by
  have hle : range.initEnd + distance ≤ range.stop + distance ↔ range.initEnd ≤ range.stop := by
    rw [UInt32.le_iff_toNat_le, UInt32.le_iff_toNat_le, toNat_add_of_lt hstop,
      toNat_add_of_lt hinit]
    omega
  simp only [fixedSize, CodeRange.shift, hle, add_sub_add]

/-- A table is patched, or left alone, in the same way when it is moved. -/
theorem CompatTable.patch_shift {window : RomWindow} {patched : Option Bytes}
    (h : Shiftable symbols window distance)
    (hpatched : (patch raw symbols window).result = .ok patched) :
    (patch raw (symbols.shift distance) (window.shift distance)).result = .ok patched := by
  cases patched with
  | none =>
      rw [patch_eq_none_iff] at hpatched ⊢
      simp only [SymbolTable.offset?_shift, Option.map_eq_none_iff]
      exact hpatched
  | some payload =>
      obtain ⟨place, entry, declared, hcan, rfl⟩ := patch_eq_some_iff.1 hpatched
      obtain ⟨start, table, hstart, htable, hplace⟩ := hcan.place_eq
      obtain ⟨address, haddress, hnear⟩ := hcan.entry_eq
      refine patch_eq_some_iff.2 ⟨place, entry, declared, ⟨?_, ?_, hcan.head_le, hcan.declared_eq,
        hcan.declared_le⟩, rfl⟩
      · refine ⟨start + distance, table + distance, ?_, ?_, ?_⟩
        · rw [SymbolTable.offset?_shift, hstart]
          rfl
        · rw [SymbolTable.offset?_shift, htable]
          rfl
        · rw [toNat_add_of_lt (h.landmark_lt _ _ hstart),
            toNat_add_of_lt (h.landmark_lt _ _ htable)]
          omega
      · refine ⟨address + distance, ?_, ?_⟩
        · rw [SymbolTable.offset?_shift, haddress]
          rfl
        · rw [RomWindow.shift, toNat_add_of_lt h.base_lt,
            toNat_add_of_lt (h.landmark_lt _ _ haddress)]
          omega

/-- Finalizing a moved payload gives the same image with the same figures if the payload in place has
one, and otherwise an error of the same kind, which differs in its addresses only. -/
theorem finalize_shift (raw : Bytes) (options : FinalizeOptions)
    (h : Shiftable symbols options.window distance) :
    (∀ final, (finalize symbols raw options).result = .ok final →
      (finalize (symbols.shift distance) raw (options.shift distance)).result = .ok final) ∧
    ∀ e, (finalize symbols raw options).result = .error e →
      ∃ e', (finalize (symbols.shift distance) raw (options.shift distance)).result = .error e' ∧
        e' = e.shift distance ∧ e.SameKind e' := by
  constructor
  · intro final hfinal
    obtain ⟨range, patched, haccepted, hpatched, rfl⟩ := finalize_eq_ok_iff.1 hfinal
    have hfixed : (range.shift distance).fixedSize = range.fixedSize :=
      CodeRange.fixedSize_shift (h.landmark_lt _ _ haccepted.stop_eq)
        (h.landmark_lt _ _ haccepted.initEnd_eq)
    refine finalize_eq_ok_iff.2 ⟨range.shift distance, patched, haccepted.shift h,
      CompatTable.patch_shift h hpatched, ?_⟩
    rw [hfixed]
    rfl
  · intro e he
    refine ⟨e.shift distance, ?_, rfl, e.sameKind_shift distance⟩
    have herror := errorOf_finalize_shift raw h
    rw [he, errorOf_error, Option.map_some] at herror
    exact errorOf_eq_some_iff.1 herror

/-- The small image is made near the end of the address space too, and a payload that lacks a byte is
refused there for the same reason. -/
theorem finalize_shift_smallImage :
    Shiftable smallSymbols .standard 0xffeffff0 ∧
      (finalize (smallSymbols.shift 0xffeffff0) (CompatTable.bareTable 16)
        (FinalizeOptions.shift 0xffeffff0 ⟨1, .standard⟩)).result = .ok smallImage ∧
      ∃ e', (finalize (smallSymbols.shift 0xffeffff0) (CompatTable.bareTable 16).tail
        (FinalizeOptions.shift 0xffeffff0 ⟨1, .standard⟩)).result = .error e' ∧
        e' = .layout (.unknownExtraData 15 16) ∧
        (FinalizeError.layout (.unknownExtraData 15 16)).SameKind e' := by
  have h : Shiftable smallSymbols .standard 0xffeffff0 := by
    refine ⟨by decide, fun place address hplace => ?_⟩
    cases place <;> obtain rfl := Option.some.inj hplace <;> decide
  exact ⟨h, (finalize_shift (CompatTable.bareTable 16) ⟨1, .standard⟩ h).1 smallImage rfl,
    (finalize_shift (CompatTable.bareTable 16).tail ⟨1, .standard⟩ h).2 _ rfl⟩

end RomImage
