/-
# Runs of edits

What a buffer holds after any run of edits, some of which may be refused.  Whether an edit is made depends on
the length of the buffer only (`Edit.Fits`), and that never changes; so each byte is the one that the last
edit made at its place has put there, or the first one if there was no such edit
(`Edit.run_lastWritten`).
-/
import Mathlib.Data.List.Induction
import RomImage.Proofs.Balancing

namespace RomImage.Edit

variable {data : Bytes} {edit : Edit} {edits : List Edit} {i : Nat} {b : UInt8}

/-! ## What an edit says -/

/-- All that the edit reads or writes lies in data of this length. -/
def Fits (dataLen : Nat) : Edit → Prop
  | .overwrite offset new => offset + new.length ≤ dataLen
  | .balance start size field => start + field < dataLen ∧ start + size ≤ dataLen

/-- The place is one where the edit writes. -/
def Covers (i : Nat) : Edit → Prop
  | .overwrite offset new => offset ≤ i ∧ i < offset + new.length
  | .balance start _ field => i = start + field

/-- The byte is what the edit puts at a place that it covers: the new byte for this place, or the one that
completes the other bytes of the range, as they stand in the data, to a multiple of 256. -/
def Puts (data : Bytes) (i : Nat) (b : UInt8) : Edit → Prop
  | .overwrite offset new => new[i - offset]? = some b
  | .balance start size field =>
    (b.toNat + byteTotal ((bytesIn data start size).eraseIdx field)) % 256 = 0

/-- The edit is made in data of this length and covers the place. -/
def Reaches (dataLen i : Nat) (edit : Edit) : Prop :=
  edit.Fits dataLen ∧ edit.Covers i

/-! ## One edit -/

/-- An edit succeeds exactly if it fits. -/
theorem apply_isOk_iff (hword : data.length < wordCount) :
    (∃ result, edit.apply data = .ok result) ↔ edit.Fits data.length := by
  cases edit with
  | overwrite offset new =>
      show (∃ result, RomImage.overwrite data offset new = .ok result) ↔
        offset + new.length ≤ data.length
      rw [overwrite_isOk_iff, rangeFits_iff]
      omega
  | balance start size field =>
      show (∃ result, RomImage.balance data start size field = .ok result) ↔
        start + field < data.length ∧ start + size ≤ data.length
      simp only [balance_eq_ok_iff, rangeFits_iff, exists_and_left, exists_eq', and_true]
      omega

theorem length_of_apply {result : Bytes} (h : edit.apply data = .ok result) :
    result.length = data.length := by
  cases edit with
  | overwrite offset new => exact length_of_overwrite h
  | balance start size field =>
      obtain ⟨hfield, _, rfl⟩ := balance_eq_ok_iff.1 h
      exact length_balanced (rangeFits_iff.1 hfield).2

/-- No edit changes the length, whether it is made or refused. -/
@[simp]
theorem length_step (data : Bytes) (edit : Edit) : (edit.step data).length = data.length := by
  unfold step
  split
  · rename_i result h
    exact length_of_apply h
  · rfl

theorem step_of_apply {result : Bytes} (h : edit.apply data = .ok result) :
    edit.step data = result := by
  rw [step, h]

/-- What an edit that succeeds does to a place: it puts its byte there, or leaves the place as it is. -/
theorem getElem?_of_apply {result : Bytes} (h : edit.apply data = .ok result) :
    (edit.Covers i → ∀ b, result[i]? = some b ↔ edit.Puts data i b) ∧
      (¬ edit.Covers i → result[i]? = data[i]?) := by
  cases edit with
  | overwrite offset new =>
      obtain ⟨hfits, rfl⟩ := overwrite_eq_ok_iff.1 h
      rw [Covers, getElem?_written (rangeFits_iff.1 hfits).2]
      refine ⟨fun hcovers b => ?_, fun hcovers => ?_⟩
      · rw [if_pos hcovers, Puts]
      · rw [if_neg hcovers]
  | balance start size field =>
      obtain ⟨hfield, _, rfl⟩ := balance_eq_ok_iff.1 h
      have hin : start + field < data.length := (rangeFits_iff.1 hfield).2
      rw [Covers, getElem?_balanced hin]
      refine ⟨fun hcovers b => ?_, fun hcovers => ?_⟩
      · rw [if_pos hcovers, Puts, balances_iff hin, Option.some.injEq, eq_comm]
      · rw [if_neg hcovers]

/-- Where an edit reaches, the byte after it is the one that it puts there. -/
theorem getElem?_step_of_reaches (hword : data.length < wordCount)
    (h : edit.Reaches data.length i) : (edit.step data)[i]? = some b ↔ edit.Puts data i b := by
  obtain ⟨hfits, hcovers⟩ := h
  obtain ⟨result, hresult⟩ := (apply_isOk_iff hword).2 hfits
  rw [step_of_apply hresult]
  exact (getElem?_of_apply hresult).1 hcovers b

/-- Where an edit does not reach, the byte stays. -/
theorem getElem?_step_of_not_reaches (hword : data.length < wordCount)
    (h : ¬ edit.Reaches data.length i) : (edit.step data)[i]? = data[i]? := by
  cases happly : edit.apply data with
  | error e => rw [step, happly]
  | ok result =>
      have hfits := (apply_isOk_iff hword).1 ⟨result, happly⟩
      have hcovers : ¬ edit.Covers i := fun hcovers => h ⟨hfits, hcovers⟩
      rw [step_of_apply happly]
      exact (getElem?_of_apply happly).2 hcovers

/-! ## Runs -/

@[simp]
theorem run_nil (data : Bytes) : run data [] = data := rfl

/-- The last edit of a run is made in the buffer that the others leave. -/
theorem run_concat (data : Bytes) (edits : List Edit) (edit : Edit) :
    run data (edits ++ [edit]) = edit.step (run data edits) := by
  rw [run, List.foldl_append]
  rfl

/-- A run does not change the length. -/
@[simp]
theorem length_run (data : Bytes) (edits : List Edit) : (run data edits).length = data.length := by
  induction edits using List.reverseRecOn with
  | nil => rfl
  | append_singleton edits edit ih => rw [run_concat, length_step, ih]

/-- The edits of a run that succeed are those that fit the buffer it began with. -/
theorem outcomes_isOk_iff (hword : data.length < wordCount) (edits : List Edit) :
    List.Forall₂ (fun edit outcome => (∃ result, outcome = .ok result) ↔ edit.Fits data.length)
      edits (outcomes data edits) := by
  induction edits generalizing data with
  | nil => exact .nil
  | cons edit edits ih =>
      have hstep : (edit.step data).length < wordCount := by rwa [length_step]
      have hrest := ih hstep
      rw [length_step] at hrest
      exact .cons (apply_isOk_iff hword) hrest

/-! ## The last edit at a place -/

/-- The byte stands at the place after the run: the last of the edits that reach the place puts it there, in
the buffer that the edits before it leave; or none reaches the place, and the byte has been there from the
beginning. -/
inductive LastWritten (data : Bytes) (edits : List Edit) (i : Nat) (b : UInt8) : Prop
  | put {front back : List Edit} {edit : Edit} :
    edits = front ++ edit :: back → edit.Reaches data.length i → edit.Puts (run data front) i b →
    (∀ later ∈ back, ¬ later.Reaches data.length i) → LastWritten data edits i b
  | kept : (∀ edit ∈ edits, ¬ edit.Reaches data.length i) → data[i]? = some b →
    LastWritten data edits i b

/-- An element of a list with one more at the end is that one, or stands in front of it. -/
theorem concat_eq_append_cons {α : Type} {xs front back : List α} {x y : α}
    (h : xs ++ [x] = front ++ y :: back) :
    (xs = front ∧ x = y ∧ back = []) ∨ ∃ between, xs = front ++ y :: between ∧ back = between ++ [x] := by
  rcases List.eq_nil_or_concat back with rfl | ⟨between, last, rfl⟩
  · obtain ⟨hfront, hlast⟩ := List.append_singleton_inj.1 h
    exact .inl ⟨hfront, hlast, rfl⟩
  · rw [List.concat_eq_append, ← List.cons_append, ← List.append_assoc] at h
    obtain ⟨hxs, rfl⟩ := List.append_singleton_inj.1 h
    exact .inr ⟨between, hxs, List.concat_eq_append⟩

/-- Without edits the bytes are those of the beginning. -/
theorem lastWritten_nil_iff : LastWritten data [] i b ↔ data[i]? = some b := by
  constructor
  · intro h
    cases h with
    | put hedits => simp at hedits
    | kept _ hbyte => exact hbyte
  · exact .kept (List.forall_mem_nil _)

/-- If the last edit of a run reaches the place, what it puts there stands. -/
theorem lastWritten_concat_of_reaches (hreaches : edit.Reaches data.length i) :
    LastWritten data (edits ++ [edit]) i b ↔ edit.Puts (run data edits) i b := by
  constructor
  · intro h
    cases h with
    | put hedits _ hputs hlater =>
        rcases concat_eq_append_cons hedits with ⟨rfl, rfl, _⟩ | ⟨between, _, rfl⟩
        · exact hputs
        · exact absurd hreaches (hlater edit (by simp))
    | kept hnone _ => exact absurd hreaches (hnone edit (by simp))
  · intro hputs
    exact .put rfl hreaches hputs (List.forall_mem_nil _)

/-- If the last edit of a run does not reach the place, what stood there before stands. -/
theorem lastWritten_concat_of_not_reaches (hreaches : ¬ edit.Reaches data.length i) :
    LastWritten data (edits ++ [edit]) i b ↔ LastWritten data edits i b := by
  constructor
  · intro h
    cases h with
    | put hedits hearlier hputs hlater =>
        rcases concat_eq_append_cons hedits with ⟨_, rfl, _⟩ | ⟨between, rfl, rfl⟩
        · exact absurd hearlier hreaches
        · exact .put rfl hearlier hputs fun later hmem => hlater later (by simp [hmem])
    | kept hnone hbyte => exact .kept (fun earlier hmem => hnone earlier (by simp [hmem])) hbyte
  · intro h
    cases h with
    | @put front back earlier hedits hearlier hputs hlater =>
        have hconcat : edits ++ [edit] = front ++ earlier :: (back ++ [edit]) := by
          rw [hedits, List.append_assoc, List.cons_append]
        refine .put hconcat hearlier hputs ?_
        rw [List.forall_mem_append, List.forall_mem_singleton]
        exact ⟨hlater, hreaches⟩
    | kept hnone hbyte =>
        refine .kept ?_ hbyte
        rw [List.forall_mem_append, List.forall_mem_singleton]
        exact ⟨hnone, hreaches⟩

/-- A run leaves at each place the byte that was written there last. -/
theorem getElem?_run_iff (hword : data.length < wordCount) (edits : List Edit) (i : Nat) (b : UInt8) :
    (run data edits)[i]? = some b ↔ LastWritten data edits i b := by
  induction edits using List.reverseRecOn generalizing b with
  | nil => rw [run_nil, lastWritten_nil_iff]
  | append_singleton edits edit ih =>
      have hlen := length_run data edits
      rw [run_concat]
      by_cases hreaches : edit.Reaches data.length i
      · rw [lastWritten_concat_of_reaches hreaches]
        exact getElem?_step_of_reaches (hlen ▸ hword) (hlen ▸ hreaches)
      · rw [lastWritten_concat_of_not_reaches hreaches, ← ih,
          getElem?_step_of_not_reaches (hlen ▸ hword) (hlen ▸ hreaches)]

/-- A run of edits never changes the length of a buffer, which is a word as every length is.  Those of its
edits succeed that fit this length, by exact sums.  After the run each byte is the one that the last
successful edit at its place has put there, or the one of the beginning if there was none. -/
theorem run_lastWritten (hword : data.length < wordCount) (edits : List Edit) :
    (run data edits).length = data.length ∧
    List.Forall₂ (fun edit outcome => (∃ result, outcome = .ok result) ↔ edit.Fits data.length)
      edits (outcomes data edits) ∧
    ∀ i b, (run data edits)[i]? = some b ↔ LastWritten data edits i b :=
  ⟨length_run data edits, outcomes_isOk_iff hword edits, getElem?_run_iff hword edits⟩

/-- Six bytes. -/
def sixBytes : Bytes := [1, 2, 3, 4, 5, 6]

/-- Edits of them: the second changes a byte that the first has written, the third goes beyond the end, and
the fourth writes nothing there. -/
def overlappingEdits : List Edit :=
  [.overwrite 1 [0xaa, 0xbb], .balance 0 4 2, .overwrite 5 [9, 9], .overwrite 6 [], .overwrite 3 [7]]

/-- After these edits the balance byte stands that was made when the fourth byte was still 4. -/
theorem run_lastWritten_overlappingEdits :
    sixBytes.length < wordCount ∧
      run sixBytes overlappingEdits = [1, 0xaa, 0x51, 7, 5, 6] ∧
      LastWritten sixBytes overlappingEdits 2 0x51 := by
  have hword : sixBytes.length < wordCount := by decide
  have hrun : run sixBytes overlappingEdits = [1, 0xaa, 0x51, 7, 5, 6] := rfl
  obtain ⟨_, _, hbytes⟩ := run_lastWritten hword overlappingEdits
  refine ⟨hword, hrun, (hbytes 2 0x51).1 ?_⟩
  rw [hrun]
  rfl

end RomImage.Edit
