/-
# Symbols that agree on the landmarks

Finalizing asks the symbols for the addresses of the landmarks and for nothing else: on two tables that
agree on these, it is the same computation, records included.  The end of the start-up part is asked for
only to be defined, and to be told: wherever it is, the same payloads are refused in the same way and the
same image is made; what differs is the size of the code that stays, and the record that names the range
(`finalize_eq_of_agree`).
-/
import Mathlib.Data.List.Forall2
import RomImage.Proofs.FinalizeLog

namespace RomImage

variable {s t : SymbolTable} {raw image : Bytes} {options : FinalizeOptions} {window : RomWindow}
  {a b : UInt32}

/-- The tables give a landmark the same address, or leave it both undefined. -/
def SymbolTable.AgreeOn (s t : SymbolTable) (place : Landmark) : Prop :=
  s.offset? place.name = t.offset? place.name

/-! ## Tables that agree -/

/-- A landmark that has to be defined is the same in tables that agree on it. -/
theorem SymbolTable.landmark_congr {place : Landmark} (h : s.AgreeOn t place) :
    s.landmark place = t.landmark place := by
  unfold landmark require
  rw [h]

/-- Patching a table asks for landmarks only, and not for the end of the start-up part. -/
theorem CompatTable.patch_congr (hagree : ∀ place, place ≠ .initEnd → s.AgreeOn t place) :
    patch image s window = patch image t window := by
  have htable := hagree .compatTable nofun
  have hentry := hagree .compatEntry nofun
  unfold patch
  rw [htable, hentry, SymbolTable.landmark_congr (hagree .codeStart nofun)]

/-- Checking a code range asks for landmarks only. -/
theorem CodeRange.validate_congr {payloadLen : Nat} {size : SizeClass}
    (hagree : ∀ place, place ≠ .initEnd → s.AgreeOn t place) (hinit : s.AgreeOn t .initEnd) :
    validate s payloadLen size window = validate t payloadLen size window := by
  unfold validate
  rw [SymbolTable.landmark_congr (hagree .codeStart nofun),
    SymbolTable.landmark_congr (hagree .codeEnd nofun), SymbolTable.landmark_congr hinit]

/-! ## Another end of the start-up part -/

/-- The code range with another end of its start-up part. -/
def CodeRange.withInitEnd (range : CodeRange) (initEnd : UInt32) : CodeRange :=
  { range with initEnd := initEnd }

/-- The final image with another size of the code that stays after start-up. -/
def FinalImage.withFixed (final : FinalImage) (fixed : UInt32) : FinalImage :=
  { final with usage := { final.usage with fixed := fixed } }

/-- The records are the same, or name one code range with different ends of its start-up part. -/
def Record.SameButInitEnd (a b : UInt32) (r r' : Record) : Prop :=
  r = r' ∨ ∃ range : CodeRange,
    r = (range.withInitEnd a).record ∧ r' = (range.withInitEnd b).record

/-- Records are the same as themselves. -/
theorem Record.sameButInitEnd_self (a b : UInt32) (records : List Record) :
    List.Forall₂ (SameButInitEnd a b) records records :=
  List.forall₂_same.2 fun _ _ => .inl rfl

/-- The check of a code range accepts the same ranges, whatever the end of their start-up part, and
refuses the others in the same way. -/
theorem CodeRange.validate_withInitEnd {payloadLen : Nat} {size : SizeClass}
    (hagree : ∀ place, place ≠ .initEnd → s.AgreeOn t place)
    (hs : s.offset? Landmark.initEnd.name = some a)
    (ht : t.offset? Landmark.initEnd.name = some b) :
    validate t payloadLen size window
      = (validate s payloadLen size window).map (·.withInitEnd b) := by
  unfold validate
  rw [SymbolTable.landmark_congr (hagree .codeStart nofun),
    SymbolTable.landmark_congr (hagree .codeEnd nofun),
    SymbolTable.landmark_eq_ok_iff.2 hs, SymbolTable.landmark_eq_ok_iff.2 ht]
  split
  · rfl
  · cases t.landmark .codeStart with
    | error missing => rfl
    | ok start =>
        cases t.landmark .codeEnd with
        | error missing => rfl
        | ok stop =>
            simp only [mapError_ok, bind, Except.bind]
            split
            · rfl
            · split <;> rfl

/-- The result of finalizing with another end of the start-up part differs in the size of the code that
stays only. -/
theorem result_finalize_withInitEnd (raw : Bytes) (options : FinalizeOptions)
    (hagree : ∀ place, place ≠ .initEnd → s.AgreeOn t place)
    (hs : s.offset? Landmark.initEnd.name = some a)
    (ht : t.offset? Landmark.initEnd.name = some b) :
    ∃ fixed, (finalize t raw options).result
      = (finalize s raw options).result.map (·.withFixed fixed) := by
  rw [result_finalize, result_finalize]
  dsimp only
  rw [← CompatTable.patch_congr hagree, CodeRange.validate_withInitEnd hagree hs ht]
  cases CodeRange.validate s raw.length (.resolve options.requestedKib raw.length)
      options.window with
  | error refusal => exact ⟨0, rfl⟩
  | ok range =>
      refine ⟨(range.withInitEnd b).fixedSize, ?_⟩
      cases (CompatTable.patch raw s options.window).result with
      | error refusal => rfl
      | ok patched =>
          show ((padFront (patched.getD raw) _).mapError _ >>= _)
            = Except.map _ ((padFront (patched.getD raw) _).mapError _ >>= _)
          cases padFront (patched.getD raw) (.resolve options.requestedKib raw.length) <;> rfl

/-- Of the records before the table is patched, only that of the range names the end of its start-up
part. -/
theorem sameButInitEnd_recordsBeforePatch (raw : Bytes) (options : FinalizeOptions)
    (range : CodeRange) (b : UInt32) :
    List.Forall₂ (Record.SameButInitEnd range.initEnd b) (recordsBeforePatch raw options range)
      (recordsBeforePatch raw options (range.withInitEnd b)) :=
  .cons (.inl rfl) (.cons (.inr ⟨range, rfl, rfl⟩) (Record.sameButInitEnd_self _ _ _))

/-- The log of finalizing with another end of the start-up part differs in the record of the range
only. -/
theorem records_finalize_withInitEnd (hagree : ∀ place, place ≠ .initEnd → s.AgreeOn t place)
    (hs : s.offset? Landmark.initEnd.name = some a)
    (ht : t.offset? Landmark.initEnd.name = some b) :
    List.Forall₂ (Record.SameButInitEnd a b) (finalize s raw options).records
      (finalize t raw options).records := by
  have hrange : rangeOf t raw options = (rangeOf s raw options).map (·.withInitEnd b) :=
    CodeRange.validate_withInitEnd hagree hs ht
  cases haccepted : rangeOf s raw options with
  | error refusal =>
      rw [haccepted] at hrange
      rw [finalize_of_refused haccepted, finalize_of_refused hrange]
      exact Record.sameButInitEnd_self a b _
  | ok range =>
      rw [haccepted] at hrange
      have hinit := (CodeRange.validate_eq_ok_iff.1 haccepted).initEnd_eq
      rw [hs] at hinit
      obtain rfl := Option.some.inj hinit
      rw [records_finalize_of_accepted haccepted, records_finalize_of_accepted hrange,
        CompatTable.patch_congr hagree]
      exact List.rel_append (sameButInitEnd_recordsBeforePatch raw options range b)
        (Record.sameButInitEnd_self _ _ _)

/-! ## What the symbols decide -/

/-- Finalizing depends on the symbols by the addresses of the landmarks only: symbols that agree on all
of them give the same result with the same log.  If they agree on all but the end of the start-up part,
which both define, the one is refused exactly as the other is, and the images are the same; what may
differ is the size of the code that stays, and the record that names the end of the start-up part. -/
theorem finalize_eq_of_agree (s t : SymbolTable) (raw : Bytes) (options : FinalizeOptions)
    (hagree : ∀ place : Landmark, place ≠ .initEnd →
      s.offset? place.name = t.offset? place.name) :
    (s.offset? Landmark.initEnd.name = t.offset? Landmark.initEnd.name →
      finalize s raw options = finalize t raw options) ∧
    ∀ a b, s.offset? Landmark.initEnd.name = some a → t.offset? Landmark.initEnd.name = some b →
      (∀ e, (finalize s raw options).result = .error e ↔
        (finalize t raw options).result = .error e) ∧
      (∀ final, (finalize s raw options).result = .ok final →
        ∃ fixed, (finalize t raw options).result = .ok (final.withFixed fixed)) ∧
      List.Forall₂ (Record.SameButInitEnd a b) (finalize s raw options).records
        (finalize t raw options).records := by
  constructor
  · intro hinit
    unfold finalize
    simp only [CodeRange.validate_congr hagree hinit, CompatTable.patch_congr hagree]
  · intro a b hs ht
    obtain ⟨fixed, hresult⟩ := result_finalize_withInitEnd raw options hagree hs ht
    refine ⟨?_, ?_, records_finalize_withInitEnd hagree hs ht⟩
    · intro e
      rw [hresult]
      cases (finalize s raw options).result <;> simp [Except.map]
    · intro final hfinal
      refine ⟨fixed, ?_⟩
      rw [hresult, hfinal]
      rfl

/-! ## Symbols of the small image -/

/-- The symbols of the small payload with one more, and with the size and section of another. -/
def detailedSymbols : SymbolTable :=
  (smallSymbols.insert ⟨"reset_vector", 0xffff0, 5, some ".text"⟩).insert
    ⟨Landmark.compatTable.name, 0xffff0, 16, some ".rodata"⟩

/-- The symbols of the small payload with the start-up part up to the end of the code. -/
def lateSymbols : SymbolTable :=
  smallSymbols.insert ⟨Landmark.initEnd.name, 0x100000, 0, none⟩

/-- The small image is made with these symbols too. -/
theorem finalize_eq_of_agree_smallSymbols :
    finalize smallSymbols (CompatTable.bareTable 16) ⟨1, .standard⟩
        = finalize detailedSymbols (CompatTable.bareTable 16) ⟨1, .standard⟩ ∧
      (finalize smallSymbols (CompatTable.bareTable 16) ⟨1, .standard⟩).result = .ok smallImage ∧
      (∃ fixed, (finalize lateSymbols (CompatTable.bareTable 16) ⟨1, .standard⟩).result
        = .ok (smallImage.withFixed fixed)) ∧
      List.Forall₂ (Record.SameButInitEnd 0xffff8 0x100000)
        (finalize smallSymbols (CompatTable.bareTable 16) ⟨1, .standard⟩).records
        (finalize lateSymbols (CompatTable.bareTable 16) ⟨1, .standard⟩).records := by
  have hdetailed : ∀ place : Landmark, place ≠ .initEnd →
      smallSymbols.offset? place.name = detailedSymbols.offset? place.name := by
    intro place _
    cases place <;> rfl
  have hlate : ∀ place : Landmark, place ≠ .initEnd →
      smallSymbols.offset? place.name = lateSymbols.offset? place.name := by
    intro place hplace
    cases place with
    | initEnd => exact absurd rfl hplace
    | _ => rfl
  have hmade : (finalize smallSymbols (CompatTable.bareTable 16) ⟨1, .standard⟩).result
      = .ok smallImage := rfl
  obtain ⟨_, himage, hrecords⟩ := (finalize_eq_of_agree smallSymbols lateSymbols
    (CompatTable.bareTable 16) ⟨1, .standard⟩ hlate).2 0xffff8 0x100000 rfl rfl
  exact ⟨(finalize_eq_of_agree smallSymbols detailedSymbols (CompatTable.bareTable 16)
    ⟨1, .standard⟩ hdetailed).1 rfl, hmade, himage smallImage hmade, hrecords⟩

end RomImage
