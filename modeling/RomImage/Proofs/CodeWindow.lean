/-
# Accepted code ranges

What it takes for a code range to be accepted (`CodeRange.Accepted`, `validate_eq_ok_iff`), and what
the check of its length is worth.  The length is compared modulo `0x100000000`: a range whose start lies
behind its end is accepted when the payload is as long as the way around the address space, and a
payload that is no longer than the end address of the window is exactly the code range
(`validate_exact_iff`).
-/
import RomImage.Proofs.Outcome
import RomImage.Rom.CodeRange

namespace RomImage

/-! ## Addresses -/

/-- The difference of two addresses is the way from the one to the other, around the end of the
address space if need be. -/
theorem toNat_sub_eq_iff {start stop : UInt32} {n : Nat} :
    (stop - start).toNat = n ↔
      n < 0x100000000 ∧
        (start.toNat + n = stop.toNat ∨ start.toNat + n = stop.toNat + 0x100000000) := by
  have hstart := start.toNat_lt
  have hstop := stop.toNat_lt
  rw [UInt32.toNat_sub]
  omega

/-- A landmark is found exactly if it is defined. -/
theorem SymbolTable.landmark_eq_ok_iff {symbols : SymbolTable} {place : Landmark}
    {address : UInt32} :
    symbols.landmark place = .ok address ↔ symbols.offset? place.name = some address := by
  unfold landmark require
  cases symbols.offset? place.name <;> simp

namespace CodeRange

/-! ## Acceptance -/

/-- The code range of a payload that passes every check. -/
structure Accepted (symbols : SymbolTable) (payloadLen : Nat) (size : SizeClass)
    (window : RomWindow) (range : CodeRange) : Prop where
  /-- The payload fits the size class. -/
  fits : payloadLen ≤ size.bytes
  start_eq : symbols.offset? Landmark.codeStart.name = some range.start
  stop_eq : symbols.offset? Landmark.codeEnd.name = some range.stop
  initEnd_eq : symbols.offset? Landmark.initEnd.name = some range.initEnd
  /-- The code ends where the window does. -/
  stop_toNat : range.stop.toNat = window.stop
  /-- The payload is as long as the range, modulo the size of the address space. -/
  length_eq : payloadLen = (range.stop - range.start).toNat

variable {symbols : SymbolTable} {payloadLen : Nat} {size : SizeClass} {window : RomWindow}
  {range : CodeRange}

/-- A range is accepted exactly if it passes every check. -/
theorem validate_eq_ok_iff :
    validate symbols payloadLen size window = .ok range ↔
      Accepted symbols payloadLen size window range := by
  unfold validate
  simp only [guard_eq_ok_iff, bind_eq_ok_iff, mapError_eq_ok_iff,
    SymbolTable.landmark_eq_ok_iff, Except.ok.injEq, Decidable.not_not]
  constructor
  · rintro ⟨hfits, start, hstart, stop, hstop, initEnd, hinit, hend, hlen, rfl⟩
    exact ⟨Nat.not_lt.1 hfits, hstart, hstop, hinit, hend, hlen⟩
  · intro h
    exact ⟨Nat.not_lt.2 h.fits, _, h.start_eq, _, h.stop_eq, _, h.initEnd_eq, h.stop_toNat,
      h.length_eq, rfl⟩

/-! ## The length of an accepted range -/

/-- The range goes forward, and it is exactly as long as the payload. -/
def IsExact (range : CodeRange) (payloadLen : Nat) : Prop :=
  range.start ≤ range.stop ∧ range.start.toNat + payloadLen = range.stop.toNat

/-- An accepted range goes forward, and is then exact, or leads around the end of the address
space. -/
theorem Accepted.exact_or_reversed (h : Accepted symbols payloadLen size window range) :
    range.IsExact payloadLen ∨
      range.stop < range.start ∧
        range.start.toNat + payloadLen = range.stop.toNat + 0x100000000 := by
  obtain ⟨hlt, hforward | haround⟩ := toNat_sub_eq_iff.1 h.length_eq.symm
  · left
    exact ⟨UInt32.le_iff_toNat_le.2 (by omega), hforward⟩
  · right
    exact ⟨UInt32.lt_iff_toNat_lt.2 (by omega), haround⟩

/-- An accepted range is exact if and only if the payload is no longer than the end address. -/
theorem Accepted.isExact_iff (h : Accepted symbols payloadLen size window range) :
    range.IsExact payloadLen ↔ payloadLen ≤ window.stop := by
  have hstop := h.stop_toNat
  have hlt := range.start.toNat_lt
  constructor
  · rintro ⟨_, hlen⟩
    omega
  · intro hle
    rcases h.exact_or_reversed with hexact | ⟨_, haround⟩
    · exact hexact
    · omega

/-- Among the accepted ranges, those that are exact are told by the length of the payload; and a range
that runs backward is accepted if and only if the code ends with the window, the payload fits the size
class, and it is as long as the way from the start around the address space to the end. -/
theorem validate_exact_iff (symbols : SymbolTable) (payloadLen : Nat) (size : SizeClass)
    (window : RomWindow) :
    (∀ range, validate symbols payloadLen size window = .ok range →
      (range.start ≤ range.stop ∧ range.start.toNat + payloadLen = range.stop.toNat ↔
        payloadLen ≤ window.stop)) ∧
    ((∃ range, validate symbols payloadLen size window = .ok range ∧
        range.stop < range.start) ↔
      payloadLen ≤ size.bytes ∧
        ∃ start stop initEnd : UInt32,
          symbols.offset? Landmark.codeStart.name = some start ∧
          symbols.offset? Landmark.codeEnd.name = some stop ∧
          symbols.offset? Landmark.initEnd.name = some initEnd ∧
          stop.toNat = window.base.toNat + window.size.toNat ∧ stop < start ∧
          start.toNat + payloadLen = stop.toNat + 0x100000000) := by
  refine ⟨fun range h => (validate_eq_ok_iff.1 h).isExact_iff, ?_⟩
  constructor
  · rintro ⟨range, h, hback⟩
    have haccepted := validate_eq_ok_iff.1 h
    have hback' := UInt32.lt_iff_toNat_lt.1 hback
    refine ⟨haccepted.fits, range.start, range.stop, range.initEnd, haccepted.start_eq,
      haccepted.stop_eq, haccepted.initEnd_eq, haccepted.stop_toNat, hback, ?_⟩
    rcases haccepted.exact_or_reversed with ⟨hle, _⟩ | ⟨_, haround⟩
    · exact absurd (UInt32.le_iff_toNat_le.1 hle) (by omega)
    · exact haround
  · rintro ⟨hfits, start, stop, initEnd, hstart, hstop, hinit, hend, hback, hlen⟩
    have hback' := UInt32.lt_iff_toNat_lt.1 hback
    have hdiff := toNat_sub_eq_iff.2 ⟨by omega, .inr hlen⟩
    exact ⟨⟨start, stop, initEnd⟩,
      validate_eq_ok_iff.2 ⟨hfits, hstart, hstop, hinit, hend, hdiff.symm⟩, hback⟩

/-! ## A range that runs backward -/

/-- Landmarks whose code starts near the end of the address space and ends near its beginning. -/
def backwardSymbols : SymbolTable :=
  .ofList [⟨Landmark.codeStart.name, 0xfffff000, 0, none⟩,
    ⟨Landmark.codeEnd.name, 0x3000, 0, none⟩, ⟨Landmark.initEnd.name, 0x1000, 0, none⟩]

/-- A payload of 16 KiB is accepted as the code of a range that runs backward. -/
theorem validate_backward :
    ∃ range, validate backwardSymbols 0x4000 (.resolve 0 0x4000) ⟨0, 0x3000⟩ = .ok range ∧
      ¬ (range.start ≤ range.stop ∧ range.start.toNat + 0x4000 = range.stop.toNat) :=
  ⟨⟨0xfffff000, 0x3000, 0x1000⟩, rfl, by decide⟩

/-- The length of that payload tells that its range is not exact. -/
theorem validate_exact_iff_backward :
    validate backwardSymbols 0x4000 (.resolve 0 0x4000) ⟨0, 0x3000⟩
        = .ok ⟨0xfffff000, 0x3000, 0x1000⟩ ∧
      ((0xfffff000 : UInt32) ≤ 0x3000 ∧ 0xfffff000 + 0x4000 = 0x3000 ↔ 0x4000 ≤ 0x3000) :=
  ⟨rfl, (validate_exact_iff backwardSymbols 0x4000 (.resolve 0 0x4000) ⟨0, 0x3000⟩).1
    ⟨0xfffff000, 0x3000, 0x1000⟩ rfl⟩

end CodeRange

end RomImage
