/-
# Records and strings of an object file

How the parts of an object file are found again.  A part that stands at an offset is the range of the
file at that offset (`fileRange?_eq_some`); the numbers of a record that fit in their fields are read back
(`ByteOrder.fields_record`), and records that stand one after the other are decoded one by one
(`mapM_consecutive_cons`); and an offset names the string that stands there in a table
(`StringTable.lookup_eq_some_iff`).
-/
import Mathlib.Algebra.Group.Nat.Defs
import Mathlib.Data.List.TakeWhile
import RomImage.Object.Builder
import RomImage.Proofs.Utf8Flaws

namespace RomImage

/-! ## Ranges -/

/-- A step that gives something hands it to the rest of the reader. -/
theorem bind_of_eq_some {α β : Type} {x : Option α} {a : α} (h : x = some a) (f : α → Option β) :
    (x >>= f) = f a := by
  rw [h]
  rfl

/-- A condition that holds lets the reader go on. -/
theorem bind_guard {β : Type} {p : Prop} [Decidable p] (h : p) (f : Unit → Option β) :
    (guard p >>= f) = f () :=
  bind_of_eq_some (if_pos h) f

/-- A part of a file is the range at the offset of what stands in front of it. -/
theorem fileRange?_eq_some {file front part back : Bytes} {offset len : Nat}
    (hfile : file = front ++ (part ++ back)) (hoffset : front.length = offset)
    (hlen : part.length = len) : fileRange? file offset len = some part := by
  have hfits : offset + len ≤ file.length := by
    rw [hfile, List.length_append, List.length_append]
    omega
  rw [fileRange?, if_pos hfits, hfile, List.drop_left' hoffset, List.take_left' hlen]

/-- A range that a file has lies inside the file. -/
theorem le_length_of_fileRange? {file part : Bytes} {offset len : Nat}
    (h : fileRange? file offset len = some part) : offset + len ≤ file.length := by
  unfold fileRange? at h
  split at h
  · assumption
  · cases h

/-! ## Numbers and records -/

/-- A number that fits in its bytes is read back from them. -/
theorem littleEndian_littleEndianBytes {width n : Nat} (h : n < 256 ^ width) :
    littleEndian (littleEndianBytes width n) = n := by
  induction width generalizing n with
  | zero =>
      rw [Nat.pow_zero, Nat.lt_one_iff] at h
      rw [h]
      rfl
  | succ width ih =>
      rw [Nat.pow_succ'] at h
      have hrest := ih (Nat.div_lt_of_lt_mul h)
      unfold littleEndian at hrest ⊢
      rw [littleEndianBytes, List.foldr_cons, hrest, UInt8.toNat_ofNat']
      omega

/-- A number that fits in its bytes is read back from them, in either order. -/
theorem ByteOrder.number_bytes (order : ByteOrder) {width n : Nat} (h : n < 256 ^ width) :
    order.number (order.bytes width n) = n := by
  cases order <;> simp [number, bytes, littleEndian_littleEndianBytes h]

/-- Numbers that fit in their fields. -/
inductive FieldsFit : List Nat → List Nat → Prop
  | nil : FieldsFit [] []
  | cons {width n : Nat} {widths ns : List Nat} (h : n < 256 ^ width) (hs : FieldsFit widths ns) :
    FieldsFit (width :: widths) (n :: ns)

@[simp]
theorem fieldsFit_nil_iff : FieldsFit [] [] ↔ True :=
  iff_true_intro .nil

/-- Numbers fit in their fields one by one. -/
@[simp]
theorem fieldsFit_cons_iff {width n : Nat} {widths ns : List Nat} :
    FieldsFit (width :: widths) (n :: ns) ↔ n < 256 ^ width ∧ FieldsFit widths ns := by
  constructor
  · rintro (_ | ⟨h, hs⟩)
    exact ⟨h, hs⟩
  · rintro ⟨h, hs⟩
    exact .cons h hs

variable {enc : Encoding}

/-- A record with a number for each field is as long as its fields together. -/
theorem length_record {widths ns : List Nat} (h : widths.length = ns.length) :
    (enc.order.record widths ns).length = recordLength widths := by
  induction widths generalizing ns with
  | nil => rfl
  | cons width widths ih =>
      cases ns with
      | nil => cases h
      | cons n ns =>
          rw [ByteOrder.record, recordLength, List.length_append, ByteOrder.length_bytes,
            ih (Nat.succ.inj h)]

/-- Numbers that fit in their fields are read back from a record, whatever follows it. -/
theorem ByteOrder.fields_record (order : ByteOrder) {widths ns : List Nat}
    (h : FieldsFit widths ns) (rest : Bytes) :
    order.fields widths (order.record widths ns ++ rest) = ns := by
  induction h with
  | nil => rfl
  | cons hn _ ih =>
      rw [record, fields, List.append_assoc, List.take_left' (order.length_bytes _ _),
        List.drop_left' (order.length_bytes _ _), ih, order.number_bytes hn]

/-- The numbers of a record are read back from it. -/
theorem fields_record_self {widths ns : List Nat} (h : FieldsFit widths ns) :
    enc.order.fields widths (enc.order.record widths ns) = ns := by
  have hread := enc.order.fields_record h []
  rwa [List.append_nil] at hread

/-- The first of some records is decoded before the others. -/
theorem mapM_consecutive_cons {α : Type} {decode : Bytes → Option α} {len count : Nat}
    {first rest : Bytes} {x : α} {xs : List α} (hlen : first.length = len)
    (hfirst : decode first = some x) (hrest : (consecutive len count rest).mapM decode = some xs) :
    (consecutive len (count + 1) (first ++ rest)).mapM decode = some (x :: xs) := by
  rw [consecutive, List.take_left' hlen, List.drop_left' hlen, List.mapM_cons, hfirst, hrest]
  rfl

/-- What a reader of some parts gives is read from one of them. -/
theorem exists_of_mem_mapM {α β : Type} {f : α → Option β} {xs : List α} {ys : List β} {y : β}
    (h : xs.mapM f = some ys) (hy : y ∈ ys) : ∃ x, f x = some y := by
  induction xs generalizing ys with
  | nil =>
      cases h
      cases hy
  | cons x xs ih =>
      simp only [List.mapM_cons, bind, Option.bind_eq_some_iff, pure, Option.some.injEq] at h
      obtain ⟨first, hfirst, rest, hrest, rfl⟩ := h
      rcases List.mem_cons.1 hy with rfl | hy
      · exact ⟨x, hfirst⟩
      · exact ih hrest hy

/-- The size that a definition keeps is the size, or the greatest that fits in 32 bits. -/
theorem toNat_cut (size : Nat) :
    (UInt32.ofNat (min size (UInt32.size - 1))).toNat = min size 0xffffffff := by
  have hlt : min size (UInt32.size - 1) < UInt32.size := by
    rw [UInt32.size]
    omega
  exact UInt32.toNat_ofNat_of_lt hlt

/-! ## Strings -/

open ObjectBuilder

/-- A string and its end are the encoding of the string with a zero character. -/
theorem stringBytes_eq (name : String) : stringBytes name = encodeUtf8 (name.toList ++ ['\x00']) := by
  rw [encodeUtf8_append]
  rfl

/-- Strings one after the other are valid text. -/
theorem decodeStrict_strings (names : List String) :
    decodeStrict (0 :: names.flatMap stringBytes)
      = some ('\x00' :: names.flatMap fun name => name.toList ++ ['\x00']) := by
  have hbytes : (0 :: names.flatMap stringBytes : Bytes)
      = encodeUtf8 ('\x00' :: names.flatMap fun name => name.toList ++ ['\x00']) := by
    have hflat : names.flatMap stringBytes
        = encodeUtf8 (names.flatMap fun name => name.toList ++ ['\x00']) := by
      simp only [encodeUtf8, List.flatMap_assoc]
      congr 1
      funext name
      exact stringBytes_eq name
    rw [hflat]
    rfl
  rw [hbytes, decodeStrict_encodeUtf8]

/-- The string stands in the table at the offset: it is not empty, and where it ends there is a zero byte or
the end of the table. -/
def StringTable.Holds (t : StringTable) (offset : Nat) (name : String) : Prop :=
  name ≠ "" ∧ '\x00' ∉ name.toList ∧ ∃ front back,
    t.bytes = front ++ encodeUtf8 name.toList ++ back ∧ front.length = offset ∧
    ∀ b, back.head? = some b → b = 0

/-- The string that an offset names is the one that stands there. -/
theorem StringTable.lookup_eq_some_iff {t : StringTable} {offset : Nat} {name : String} :
    t.lookup offset = some name ↔ t.Holds offset name := by
  constructor
  · intro h
    rw [lookup] at h
    split at h
    · rename_i c cs hstring
      obtain rfl := Option.some.inj h
      have hencoded := decodeStrict_eq_some_iff.1 hstring
      have hsplit := List.takeWhile_append_dropWhile (p := (· != 0)) (l := t.bytes.drop offset)
      rw [hencoded] at hsplit
      refine ⟨?_, ?_, t.bytes.take offset, (t.bytes.drop offset).dropWhile (· != 0), ?_, ?_, ?_⟩
      · rw [Ne, String.ofList_eq_empty_iff]
        exact List.cons_ne_nil c cs
      · rw [String.toList_ofList]
        intro hzero
        have hbyte : (0 : UInt8) ∈ encodeUtf8 (c :: cs) :=
          List.mem_flatMap.2 ⟨_, hzero, List.mem_singleton_self 0⟩
        rw [← hencoded] at hbyte
        simpa using List.mem_takeWhile_imp hbyte
      · rw [String.toList_ofList, List.append_assoc, hsplit, List.take_append_drop]
      · -- an offset beyond the end would leave no byte to encode the first character
        have hlt : offset < t.bytes.length := by
          by_contra hge
          rw [List.drop_eq_nil_of_le (Nat.le_of_not_lt hge)] at hstring
          cases hstring
        rw [List.length_take, Nat.min_eq_left (Nat.le_of_lt hlt)]
      · intro b hb
        have hnot := List.head?_dropWhile_not (· != 0) (t.bytes.drop offset)
        rw [hb] at hnot
        simpa using hnot
    · cases h
  · rintro ⟨hne, hzero, front, back, hbytes, hfront, hback⟩
    have hvisible : ∀ b ∈ encodeUtf8 name.toList, (b != 0) = true := by
      intro b hb
      rw [bne_iff_ne]
      rintro rfl
      exact zero_not_mem_encodeUtf8 hzero hb
    have hend : back.takeWhile (· != 0) = [] := by
      cases back with
      | nil => rfl
      | cons b back =>
          rw [hback b rfl]
          rfl
    have hstring : (t.bytes.drop offset).takeWhile (· != 0) = encodeUtf8 name.toList := by
      rw [hbytes, List.append_assoc, List.drop_left' hfront, List.takeWhile_append_of_pos hvisible,
        hend, List.append_nil]
    rw [lookup, hstring, decodeStrict_encodeUtf8]
    cases hname : name.toList with
    | nil => exact absurd (String.toList_eq_nil_iff.1 hname) hne
    | cons c cs =>
        dsimp only
        rw [← hname, String.ofList_toList]

/-- A string and its end are named by the offset where they stand. -/
theorem StringTable.lookup_eq_some {t : StringTable} {offset : Nat} {name : String} {rest : Bytes}
    (hbytes : t.bytes.drop offset = stringBytes name ++ rest) (hne : name ≠ "")
    (hzero : '\x00' ∉ name.toList) : t.lookup offset = some name := by
  have hlt : offset < t.bytes.length := by
    by_contra hge
    rw [List.drop_eq_nil_of_le (Nat.le_of_not_lt hge), stringBytes, List.append_assoc, eq_comm,
      List.append_eq_nil_iff] at hbytes
    cases hbytes.2
  refine lookup_eq_some_iff.2 ⟨hne, hzero, t.bytes.take offset, 0 :: rest, ?_, ?_, ?_⟩
  · rw [List.append_assoc, ← List.singleton_append, ← List.append_assoc (encodeUtf8 _), ← stringBytes,
      ← hbytes, List.take_append_drop]
  · rw [List.length_take, Nat.min_eq_left (Nat.le_of_lt hlt)]
  · intro b hb
    exact (Option.some.inj hb).symm

/-- A section of valid text is read as the table of its strings. -/
theorem StringTable.read_eq_some {file bytes : Bytes} {sections : List SectionHeader}
    {index : Nat} {s : SectionHeader} {text : List Char} (hindex : index ≠ escapeIndex)
    (hs : sections[index]? = some s) (hplaced : s.placed file.length = true)
    (hrange : fileRange? file s.offset s.size = some bytes)
    (htext : decodeStrict bytes = some text) : read file sections index = some ⟨bytes⟩ := by
  rw [read, if_neg hindex, hs]
  dsimp only
  rw [bind_guard hplaced, bind_of_eq_some hrange, bind_of_eq_some htext]

end RomImage
