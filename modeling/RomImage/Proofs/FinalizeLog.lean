/-
# What finalizing logs

The log of finalizing, from its outcomes.  A refused code range ends the log after the first record
(`finalize_of_refused`); once the range is accepted, the log goes on with the range, with the warnings
about the payload as it was given, and at last with what patching its table says
(`records_finalize_of_accepted`).  So the warnings depend on the range and the payload only, and a table
is said to be patched after them, exactly if it is.
-/
import RomImage.Proofs.ShippedImage

namespace RomImage

variable {symbols : SymbolTable} {raw image : Bytes} {options : FinalizeOptions}
  {window : RomWindow}

/-! ## Records -/

/-- The texts of the warnings among the records. -/
def warnings (records : List Record) : List String :=
  (records.filter (·.level = .warn)).map (·.message)

/-- What is to be said about the dates of an image and then about its version strings. -/
def advice (image : Bytes) : List String :=
  ((checkDates image).map DateAdvisory.message).toList ++
    ((checkVersions image).map VersionAdvisory.message).toList

/-- A record that says that a table has been patched. -/
def Record.TellsPatched (r : Record) : Prop :=
  r.level = .debug ∧ "patched CSM table".toList <+: r.message.toList

/-- The record of a size class. -/
def SizeClass.record (size : SizeClass) (payloadLen : Nat) : Record :=
  ⟨.debug, "final size " ++ size.label ++ " for " ++ toString payloadLen ++ " bytes of payload"⟩

/-- The record of an accepted code range. -/
def CodeRange.record (range : CodeRange) : Record :=
  ⟨.debug, "code window " ++ hex range.start.toNat ++ ".." ++ hex range.stop.toNat ++
    ", init ends at " ++ hex range.initEnd.toNat⟩

/-- The record of an image that has no table. -/
def CompatTable.noTableRecord : Record :=
  ⟨.debug, "no CSM compatibility table"⟩

/-- The warnings of two logs, one after the other. -/
theorem warnings_append (front back : List Record) :
    warnings (front ++ back) = warnings front ++ warnings back := by
  rw [warnings, List.filter_append, List.map_append]
  rfl

/-- Every text that is warned of is one of the warnings. -/
theorem warnings_map_warn (texts : List String) :
    warnings (texts.map (Record.mk .warn)) = texts := by
  induction texts with
  | nil => rfl
  | cons text texts ih =>
      show text :: warnings (texts.map (Record.mk .warn)) = text :: texts
      rw [ih]

/-- The size of an image says nothing of a patched table. -/
theorem SizeClass.not_tellsPatched_record (size : SizeClass) (payloadLen : Nat) :
    ¬ (size.record payloadLen).TellsPatched := by
  rintro ⟨_, htext⟩
  simp [record] at htext

/-- A code range says nothing of a patched table. -/
theorem CodeRange.not_tellsPatched_record (range : CodeRange) :
    ¬ range.record.TellsPatched := by
  rintro ⟨_, htext⟩
  simp [record] at htext

/-- A table that is not there is not said to be patched. -/
theorem CompatTable.not_tellsPatched_noTableRecord : ¬ noTableRecord.TellsPatched := by
  rintro ⟨_, htext⟩
  simp [noTableRecord] at htext

/-- No warning says that a table has been patched. -/
theorem not_tellsPatched_of_mem_warn {texts : List String} {r : Record}
    (h : r ∈ texts.map (Record.mk .warn)) : ¬ r.TellsPatched := by
  rintro ⟨hlevel, _⟩
  obtain ⟨text, _, rfl⟩ := List.mem_map.1 h
  cases hlevel

/-! ## The steps -/

/-- Warning about an image logs what is to be said about it. -/
theorem records_warnAbout {ε : Type} (image : Bytes) :
    (warnAbout image : Logged ε Unit).records = (advice image).map (Record.mk .warn) := by
  unfold warnAbout advice
  cases checkDates image <;> cases checkVersions image <;> rfl

/-- Patching a table ends in one of three ways: it fails without a record, it finds no table and says so,
or it gives a patched image and says that. -/
theorem CompatTable.patch_cases (image : Bytes) (symbols : SymbolTable) (window : RomWindow) :
    (∃ e, patch image symbols window = ⟨[], .error e⟩) ∨
      patch image symbols window = ⟨[noTableRecord], .ok none⟩ ∨
      ∃ payload r, r.TellsPatched ∧ patch image symbols window = ⟨[r], .ok (some payload)⟩ := by
  unfold patch
  cases htable : symbols.offset? Landmark.compatTable.name with
  | none => exact .inr (.inl rfl)
  | some table =>
      cases hentry : symbols.offset? Landmark.compatEntry.name with
      | none => exact .inr (.inl rfl)
      | some address =>
          -- each step either fails or leaves the log to the next one
          cases hstart : symbols.landmark .codeStart with
          | error missing => exact .inl ⟨_, rfl⟩
          | ok start =>
              simp only [mapError_ok, Logged.ofExcept_ok_bind]
              cases hplace : locate table start image.length with
              | error e => exact .inl ⟨e, rfl⟩
              | ok place =>
                  simp only [Logged.ofExcept_ok_bind]
                  cases hnear : relativeEntry address window.base with
                  | error e => exact .inl ⟨e, rfl⟩
                  | ok entry =>
                      simp only [Logged.ofExcept_ok_bind]
                      cases hamend : amend image place entry with
                      | error e => exact .inl ⟨e, rfl⟩
                      | ok amended =>
                          refine .inr (.inr ⟨amended.image, _, ⟨rfl, ?_⟩, rfl⟩)
                          simp only [String.toList_append, List.append_assoc]
                          exact List.prefix_append_of_prefix (by decide)

/-! ## The log -/

/-- The outcome of the check that finalizing makes of the code range. -/
def rangeOf (symbols : SymbolTable) (raw : Bytes) (options : FinalizeOptions) :
    Except LayoutError CodeRange :=
  CodeRange.validate symbols raw.length (.resolve options.requestedKib raw.length) options.window

/-- A refused code range ends finalizing after its first record. -/
theorem finalize_of_refused {refusal : LayoutError}
    (h : rangeOf symbols raw options = .error refusal) :
    finalize symbols raw options
      = ⟨[(SizeClass.resolve options.requestedKib raw.length).record raw.length],
          .error (.layout refusal)⟩ := by
  rw [rangeOf] at h
  unfold finalize
  simp only [h]
  rfl

/-- The records of finalizing before its table is patched: the size, the code range, and the warnings
about the payload. -/
def recordsBeforePatch (raw : Bytes) (options : FinalizeOptions) (range : CodeRange) : List Record :=
  (SizeClass.resolve options.requestedKib raw.length).record raw.length :: range.record ::
    (advice raw).map (Record.mk .warn)

/-- After an accepted code range, the log of finalizing goes on with the range, the warnings about the
payload and the log of patching its table. -/
theorem records_finalize_of_accepted {range : CodeRange}
    (h : rangeOf symbols raw options = .ok range) :
    (finalize symbols raw options).records = recordsBeforePatch raw options range ++
      (CompatTable.patch raw symbols options.window).records := by
  rw [rangeOf] at h
  unfold finalize
  simp only [h, mapError_ok, Logged.ofExcept_ok_bind]
  rw [Logged.records_bind_ok (a := ()) rfl, Logged.records_bind_ok (a := ()) rfl,
    Logged.records_bind_ok (a := ()) (result_warnAbout raw), records_warnAbout,
    Logged.records_bind_of_silent]
  · rfl
  · intro patched
    cases padFront (patched.getD raw) (.resolve options.requestedKib raw.length) <;> rfl

/-- The warnings before the table is patched are those about the payload. -/
theorem warnings_recordsBeforePatch (raw : Bytes) (options : FinalizeOptions) (range : CodeRange) :
    warnings (recordsBeforePatch raw options range) = advice raw :=
  warnings_map_warn (advice raw)

/-- Before the table is patched, no record says that it is. -/
theorem not_tellsPatched_of_mem_recordsBeforePatch {range : CodeRange} {r : Record}
    (h : r ∈ recordsBeforePatch raw options range) : ¬ r.TellsPatched := by
  rcases List.mem_cons.1 h with rfl | h
  · exact SizeClass.not_tellsPatched_record _ _
  · rcases List.mem_cons.1 h with rfl | h
    · exact CodeRange.not_tellsPatched_record range
    · exact not_tellsPatched_of_mem_warn h

/-- Patching a table logs no warning. -/
theorem warnings_records_patch (image : Bytes) (symbols : SymbolTable) (window : RomWindow) :
    warnings (CompatTable.patch image symbols window).records = [] := by
  rcases CompatTable.patch_cases image symbols window with
    ⟨e, hpatch⟩ | hpatch | ⟨payload, r, ⟨hlevel, _⟩, hpatch⟩
  · rw [hpatch]
    rfl
  · rw [hpatch]
    rfl
  · rw [hpatch, warnings, List.filter_cons_of_neg (by rw [hlevel]; decide)]
    rfl

/-- A record says that a table is patched if and only if the table is patched. -/
theorem exists_tellsPatched_iff (image : Bytes) (symbols : SymbolTable) (window : RomWindow) :
    (∃ r ∈ (CompatTable.patch image symbols window).records, r.TellsPatched) ↔
      ∃ payload, (CompatTable.patch image symbols window).result = .ok (some payload) := by
  rcases CompatTable.patch_cases image symbols window with
    ⟨e, hpatch⟩ | hpatch | ⟨payload, r, hr, hpatch⟩
  · rw [hpatch]
    simp
  · rw [hpatch]
    simp [CompatTable.not_tellsPatched_noTableRecord]
  · rw [hpatch]
    simp [hr]

/-- If no element but the last may be of some kind, one of that kind is the last. -/
theorem split_at_last {α : Type} {p : α → Prop} {front before after : List α} {x y : α}
    (hfront : ∀ z ∈ front, ¬ p z) (hy : p y) (h : front ++ [x] = before ++ y :: after) :
    before = front ∧ after = [] := by
  rcases List.append_eq_append_iff.1 h with ⟨rest, rfl, hrest⟩ | ⟨rest, rfl, hrest⟩
  · cases rest with
    | nil => exact ⟨List.append_nil front, (List.cons.inj hrest).2.symm⟩
    | cons z rest => simp at hrest
  · cases rest with
    | nil => exact ⟨(List.append_nil before).symm, (List.cons.inj hrest).2⟩
    | cons z rest =>
        obtain ⟨rfl, _⟩ := List.cons.inj hrest
        exact absurd hy (hfront y (by simp))

/-- If a record says that a table is patched, the warnings are before it, and nothing behind it. -/
theorem split_at_tellsPatched {range : CodeRange} {before after : List Record} {r : Record}
    (hrange : rangeOf symbols raw options = .ok range) (hr : r.TellsPatched)
    (h : (finalize symbols raw options).records = before ++ r :: after) :
    before = recordsBeforePatch raw options range ∧ after = [] := by
  have hfront := fun z (hz : z ∈ recordsBeforePatch raw options range) =>
    not_tellsPatched_of_mem_recordsBeforePatch hz
  rw [records_finalize_of_accepted hrange] at h
  rcases CompatTable.patch_cases raw symbols options.window with
    ⟨e, hpatch⟩ | hpatch | ⟨payload, r', _, hpatch⟩
  · rw [hpatch, List.append_nil] at h
    have hmem : r ∈ recordsBeforePatch raw options range := by
      rw [h]
      exact List.mem_append_right _ List.mem_cons_self
    exact absurd hr (hfront r hmem)
  · rw [hpatch] at h
    exact split_at_last hfront hr h
  · rw [hpatch] at h
    exact split_at_last hfront hr h

/-- The warnings of finalizing are what is to be said about the payload as it was given, once the code
range is accepted, whether or not its table can then be patched, and none if the range is refused.  A
table is said to be patched exactly if the range is accepted and the table is patched, and then in the
last record, behind all warnings. -/
theorem finalize_warnings (symbols : SymbolTable) (raw : Bytes) (options : FinalizeOptions) :
    (∀ refusal, rangeOf symbols raw options = .error refusal →
      warnings (finalize symbols raw options).records = []) ∧
    (∀ range, rangeOf symbols raw options = .ok range →
      warnings (finalize symbols raw options).records = advice raw) ∧
    ((∃ r ∈ (finalize symbols raw options).records, r.TellsPatched) ↔
      (∃ range, rangeOf symbols raw options = .ok range) ∧
        ∃ payload, (CompatTable.patch raw symbols options.window).result = .ok (some payload)) ∧
    ∀ before r after, (finalize symbols raw options).records = before ++ r :: after →
      r.TellsPatched → warnings before = advice raw ∧ after = [] := by
  cases hrange : rangeOf symbols raw options with
  | error refusal =>
      rw [finalize_of_refused hrange]
      have hsize := SizeClass.not_tellsPatched_record
        (SizeClass.resolve options.requestedKib raw.length) raw.length
      refine ⟨fun _ _ => rfl, nofun, by simp [hsize], ?_⟩
      intro before r after h hr
      have hmem : r ∈ before ++ r :: after := List.mem_append_right _ List.mem_cons_self
      rw [← h, List.mem_singleton] at hmem
      exact absurd (hmem ▸ hr) hsize
  | ok range =>
      refine ⟨nofun, ?_, ?_, ?_⟩
      · intro _ _
        rw [records_finalize_of_accepted hrange, warnings_append, warnings_records_patch,
          warnings_recordsBeforePatch, List.append_nil]
      · rw [records_finalize_of_accepted hrange, ← exists_tellsPatched_iff]
        constructor
        · rintro ⟨r, hmem, hr⟩
          rcases List.mem_append.1 hmem with hmem | hmem
          · exact absurd hr (not_tellsPatched_of_mem_recordsBeforePatch hmem)
          · exact ⟨⟨range, rfl⟩, r, hmem, hr⟩
        · rintro ⟨_, r, hmem, hr⟩
          exact ⟨r, List.mem_append_right _ hmem, hr⟩
      · intro before r after h hr
        obtain ⟨rfl, rfl⟩ := split_at_tellsPatched hrange hr h
        exact ⟨warnings_recordsBeforePatch raw options range, rfl⟩

/-- The small payload holds no date, which is all that is warned of, before its table is said to be
patched; and a payload that lacks a byte is refused without a warning. -/
theorem finalize_warnings_smallImage :
    warnings (finalize smallSymbols (CompatTable.bareTable 16).tail ⟨1, .standard⟩).records = [] ∧
      warnings (finalize smallSymbols (CompatTable.bareTable 16) ⟨1, .standard⟩).records
        = [DateAdvisory.missing.message] ∧
      ∃ before r, (finalize smallSymbols (CompatTable.bareTable 16) ⟨1, .standard⟩).records
          = before ++ [r] ∧
        r.TellsPatched ∧ warnings before = [DateAdvisory.missing.message] := by
  have hrefused : rangeOf smallSymbols (CompatTable.bareTable 16).tail ⟨1, .standard⟩
      = .error (.unknownExtraData 15 16) := rfl
  have haccepted : rangeOf smallSymbols (CompatTable.bareTable 16) ⟨1, .standard⟩
      = .ok ⟨0xffff0, 0x100000, 0xffff8⟩ := rfl
  have hpatched : (CompatTable.patch (CompatTable.bareTable 16) smallSymbols .standard).result
      = .ok (some [0x49, 0, 0, 0, 0x61, 16, 0, 0, 0, 0, 0, 0, 0, 0, 0x34, 0x12]) := rfl
  have hadvice : advice (CompatTable.bareTable 16) = [DateAdvisory.missing.message] := rfl
  obtain ⟨_, hwarnings, hpatch, hlast⟩ :=
    finalize_warnings smallSymbols (CompatTable.bareTable 16) ⟨1, .standard⟩
  obtain ⟨r, hmem, hr⟩ := hpatch.2 ⟨⟨_, haccepted⟩, _, hpatched⟩
  obtain ⟨before, after, hrecords⟩ := List.append_of_mem hmem
  obtain ⟨hbefore, rfl⟩ := hlast before r after hrecords hr
  refine ⟨?_, hadvice ▸ hwarnings _ haccepted, before, r, hrecords, hr, hadvice ▸ hbefore⟩
  exact (finalize_warnings smallSymbols (CompatTable.bareTable 16).tail ⟨1, .standard⟩).1 _
    hrefused

end RomImage
