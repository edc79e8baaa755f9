/-
# Bytes and their edits

Images are lists of bytes; offsets and lengths are 64-bit words, kept as natural numbers and added
with `addWord`.  An operation that is asked for bytes which are not there raises a `Fault`: the
caller has broken the operation's precondition, and no sensible answer exists.

A payload is changed in place in two ways: by writing bytes over others (`overwrite`), and by balancing a
range with a byte that makes its sum zero (`balance`).  Neither changes the length of the data, and a run
of edits leaves the data as it was at each edit that is refused.
-/
import RomImage.Text.Basic

namespace RomImage

/-! ## Words and ranges -/

/-- A run of bytes: a payload, an image, a file's contents. -/
abbrev Bytes := List UInt8

/-- A broken precondition. -/
inductive Fault
  /-- A range to write does not lie inside the data. -/
  | overwriteOutOfRange (offset len dataLen : Nat)
  /-- A range to read does not lie inside the data. -/
  | sliceOutOfRange (start stop dataLen : Nat)
  /-- A payload is longer than the image it should fill. -/
  | payloadTooLong (payloadLen kib : Nat)
  /-- A sum or product does not fit in a 64-bit word. -/
  | wordOverflow
  deriving DecidableEq, Repr

/-- The wording of the faults that have one. -/
def Fault.message : Fault → Option String
  | overwriteOutOfRange offset len dataLen =>
    some ("substitution out of range: " ++ hex offset ++ "+" ++ hex len ++ " > " ++ hex dataLen)
  | payloadTooLong payloadLen kib =>
    some ("payload of " ++ toString payloadLen ++ " bytes exceeds " ++ toString kib ++ "KiB")
  | sliceOutOfRange .. => none
  | wordOverflow => none

/-- The number of different 64-bit words. -/
def wordCount : Nat := UInt64.size

/-- The sum of two words, a fault if it is no word. -/
def addWord (a b : Nat) : Except Fault Nat :=
  if a + b < wordCount then .ok (a + b) else .error .wordOverflow

/-- Two words whose sum is a word are added exactly. -/
theorem addWord_eq_ok {a b : Nat} (h : a + b < wordCount) : addWord a b = .ok (a + b) := by
  simp [addWord, h]

/-- Whether the range of `len` bytes at `offset` lies inside data of length `dataLen`. -/
def rangeFits (dataLen offset len : Nat) : Bool :=
  offset + len < wordCount && offset + len ≤ dataLen

/-- A range that fits ends, as an exact sum, inside the data. -/
theorem rangeFits_iff {dataLen offset len : Nat} :
    rangeFits dataLen offset len = true ↔ offset + len < wordCount ∧ offset + len ≤ dataLen := by
  simp [rangeFits]

/-- The bytes of `data` from `start` up to `stop`. -/
def slice (data : Bytes) (start stop : Nat) : Except Fault Bytes :=
  if start ≤ stop ∧ stop ≤ data.length then .ok ((data.drop start).take (stop - start))
  else .error (.sliceOutOfRange start stop data.length)

/-- The byte of `data` at `offset`. -/
def byteAt (data : Bytes) (offset : Nat) : Except Fault UInt8 :=
  match data[offset]? with
  | some b => .ok b
  | none => .error (.sliceOutOfRange offset (offset + 1) data.length)

/-! ## Overwriting -/

/-- `data` with `new` written over the bytes at `offset`. -/
def overwrite (data : Bytes) (offset : Nat) (new : Bytes) : Except Fault Bytes :=
  if rangeFits data.length offset new.length then
    .ok (data.take offset ++ new ++ data.drop (offset + new.length))
  else .error (.overwriteOutOfRange offset new.length data.length)

/-- Overwriting keeps the length. -/
theorem length_of_overwrite {data new result : Bytes} {offset : Nat}
    (h : overwrite data offset new = .ok result) : result.length = data.length := by
  unfold overwrite at h
  split at h
  · rename_i hfits
    obtain ⟨_, hle⟩ := rangeFits_iff.1 hfits
    cases h
    simp only [List.length_append, List.length_take, List.length_drop]
    omega
  · cases h

/-- Overwriting succeeds exactly on a range that fits. -/
theorem overwrite_isOk_iff {data new : Bytes} {offset : Nat} :
    (∃ result, overwrite data offset new = .ok result) ↔
      rangeFits data.length offset new.length = true := by
  unfold overwrite
  split <;> simp_all

/-! ## Balancing -/

/-- The sum of the bytes, modulo 256. -/
def byteSum (data : Bytes) : UInt8 :=
  data.foldl (· + ·) 0

/-- The byte that brings the sum of `data` to zero. -/
def balanceByte (data : Bytes) : UInt8 :=
  -byteSum data

/-- The sum is brought to zero. -/
theorem byteSum_add_balanceByte (data : Bytes) : byteSum data + balanceByte data = 0 := by
  exact UInt8.add_right_neg (byteSum data)

/-- Writes at `start + field` the byte that brings the sum of the `size` bytes at `start` to zero.
The field counts as zero in the sum, whatever it held before. -/
def balance (data : Bytes) (start size field : Nat) : Except Fault Bytes := do
  let fieldAt ← addWord start field
  let cleared ← overwrite data fieldAt [0]
  let stop ← addWord start size
  let range ← slice cleared start stop
  overwrite cleared fieldAt [balanceByte range]

/-! ## Runs of edits -/

/-- One change of a buffer. -/
inductive Edit
  | overwrite (offset : Nat) (new : Bytes)
  | balance (start size field : Nat)
  deriving DecidableEq, Repr

/-- The buffer after one edit. -/
def Edit.apply (data : Bytes) : Edit → Except Fault Bytes
  | .overwrite offset new => RomImage.overwrite data offset new
  | .balance start size field => RomImage.balance data start size field

/-- The buffer after one edit of a run: an edit that is refused changes nothing. -/
def Edit.step (data : Bytes) (edit : Edit) : Bytes :=
  match edit.apply data with
  | .ok result => result
  | .error _ => data

/-- The buffer after a run of edits. -/
def Edit.run (data : Bytes) (edits : List Edit) : Bytes :=
  edits.foldl Edit.step data

/-- What each edit of a run gives, applied to the buffer that the edits before it left. -/
def Edit.outcomes (data : Bytes) : List Edit → List (Except Fault Bytes)
  | [] => []
  | edit :: edits => edit.apply data :: outcomes (edit.step data) edits

end RomImage
