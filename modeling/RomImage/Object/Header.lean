/-
# Records of object files

An object file has words of 32 or of 64 bits and stores them with the least or the most significant
byte first.  Its records are sequences of unsigned fields; a record is written and read by the widths
of its fields (`ByteOrder.record`, `ByteOrder.fields`).

At the front of the file stand the identification and the header, and the header tells where the section
headers are.  Of a header only the class, the byte order and the places of the tables matter here; nothing
else is checked.
-/
import RomImage.Bytes

namespace RomImage

/-! ## Encodings -/

/-- The size of an object file's words. -/
inductive ObjectClass
  | bits32
  | bits64
  deriving DecidableEq, Repr

/-- Which byte of a number comes first. -/
inductive ByteOrder
  | little
  | big
  deriving DecidableEq, Repr

/-- How an object file stores its records. -/
structure Encoding where
  objectClass : ObjectClass
  order : ByteOrder
  deriving DecidableEq, Repr

/-- The width in bytes of an address, an offset or a size. -/
def ObjectClass.wordWidth : ObjectClass → Nat
  | bits32 => 4
  | bits64 => 8

/-! ## Numbers -/

/-- The number that bytes denote with the least significant first. -/
def littleEndian (bytes : Bytes) : Nat :=
  bytes.foldr (fun b n => b.toNat + 256 * n) 0

/-- A number in `width` bytes, the least significant first. -/
def littleEndianBytes : Nat → Nat → Bytes
  | 0, _ => []
  | width + 1, n => UInt8.ofNat n :: littleEndianBytes width (n / 256)

/-- The number that bytes denote. -/
def ByteOrder.number : ByteOrder → Bytes → Nat
  | little, bytes => littleEndian bytes
  | big, bytes => littleEndian bytes.reverse

/-- A number in `width` bytes. -/
def ByteOrder.bytes : ByteOrder → Nat → Nat → Bytes
  | little, width, n => littleEndianBytes width n
  | big, width, n => (littleEndianBytes width n).reverse

/-- A number takes as many bytes as it is given. -/
theorem length_littleEndianBytes (width n : Nat) : (littleEndianBytes width n).length = width := by
  induction width generalizing n with
  | zero => rfl
  | succ width ih => simp [littleEndianBytes, ih]

/-- A number takes as many bytes as it is given, in either order. -/
@[simp]
theorem ByteOrder.length_bytes (order : ByteOrder) (width n : Nat) :
    (order.bytes width n).length = width := by
  cases order <;> simp [bytes, length_littleEndianBytes]

/-! ## Records -/

/-- The numbers at the front of `bytes`, in fields of the given widths. -/
def ByteOrder.fields (order : ByteOrder) : List Nat → Bytes → List Nat
  | [], _ => []
  | width :: widths, bytes =>
    order.number (bytes.take width) :: order.fields widths (bytes.drop width)

/-- Numbers in fields of the given widths. -/
def ByteOrder.record (order : ByteOrder) : List Nat → List Nat → Bytes
  | width :: widths, n :: ns => order.bytes width n ++ order.record widths ns
  | _, _ => []

/-- The length of a record with fields of the given widths. -/
def recordLength : List Nat → Nat
  | [] => 0
  | width :: widths => width + recordLength widths

/-- The bytes of a file from `offset` on, `len` of them. -/
def fileRange? (file : Bytes) (offset len : Nat) : Option Bytes :=
  if offset + len ≤ file.length then some ((file.drop offset).take len) else none

/-- The records of `len` bytes, `count` of them, that follow each other at the front of `bytes`. -/
def consecutive (len : Nat) : Nat → Bytes → List Bytes
  | 0, _ => []
  | count + 1, bytes => bytes.take len :: consecutive len count (bytes.drop len)

/-! ## The file header -/

/-- The bytes that every object file begins with. -/
def objectMagic : Bytes :=
  [0x7f, 0x45, 0x4c, 0x46]

/-- The length of the identification. -/
def identLength : Nat := 16

/-- The class that a byte of the identification stands for. -/
def ObjectClass.ofByte? (b : UInt8) : Option ObjectClass :=
  if b = 1 then some bits32 else if b = 2 then some bits64 else none

/-- The byte order that a byte of the identification stands for. -/
def ByteOrder.ofByte? (b : UInt8) : Option ByteOrder :=
  if b = 1 then some little else if b = 2 then some big else none

/-- The encoding that the identification announces in the two bytes after the magic ones. -/
def Encoding.ofIdent? (ident : Bytes) : Option Encoding :=
  match ident.drop objectMagic.length with
  | classByte :: orderByte :: _ => do
    let objectClass ← ObjectClass.ofByte? classByte
    let order ← ByteOrder.ofByte? orderByte
    some ⟨objectClass, order⟩
  | _ => none

/-- The places of the tables of an object file. -/
structure ObjectHeader where
  programOffset : Nat
  programCount : Nat
  sectionOffset : Nat
  sectionCount : Nat
  /-- The index of the section that holds the names of the sections. -/
  namesIndex : Nat
  deriving DecidableEq, Repr

/-- The widths of the fields that follow the identification. -/
def ObjectClass.headerWidths (c : ObjectClass) : List Nat :=
  [2, 2, 4, c.wordWidth, c.wordWidth, c.wordWidth, 4, 2, 2, 2, 2, 2, 2]

/-- The header of a file. -/
def ObjectHeader.read (e : Encoding) (file : Bytes) : Option ObjectHeader := do
  let record ← fileRange? file identLength (recordLength e.objectClass.headerWidths)
  match e.order.fields e.objectClass.headerWidths record with
  | [_, _, _, _, programOffset, sectionOffset, _, _, _, programCount, _, sectionCount,
      namesIndex] =>
    some ⟨programOffset, programCount, sectionOffset, sectionCount, namesIndex⟩
  | _ => none

/-- The length of a program header. -/
def ObjectClass.programLength : ObjectClass → Nat
  | bits32 => 32
  | bits64 => 56

/-- Whether the program headers, if there are any, lie inside a file. -/
def ObjectHeader.programsFit (h : ObjectHeader) (e : Encoding) (fileLen : Nat) : Bool :=
  h.programCount == 0 ||
    h.programOffset + h.programCount * e.objectClass.programLength ≤ fileLen

/-! ## Section headers -/

/-- The header of a section, as far as it matters. -/
structure SectionHeader where
  /-- Where the section's name stands among the names of the sections. -/
  nameOffset : Nat
  kind : Nat
  address : Nat
  offset : Nat
  size : Nat
  /-- The index of a section that belongs to this one. -/
  link : Nat
  entrySize : Nat
  deriving DecidableEq, Repr

/-- The kinds of section that are treated in a way of their own. -/
def SectionHeader.symbolKind : Nat := 2

@[inherit_doc SectionHeader.symbolKind]
def SectionHeader.relaKind : Nat := 4

@[inherit_doc SectionHeader.symbolKind]
def SectionHeader.emptyKind : Nat := 8

@[inherit_doc SectionHeader.symbolKind]
def SectionHeader.relKind : Nat := 9

/-- The kinds of section that hold the versions of symbols: those defined, those needed, and the one
of each symbol. -/
def SectionHeader.versionKinds : List Nat :=
  [0x6ffffffd, 0x6ffffffe, 0x6fffffff]

/-- The widths of the fields of a section header. -/
def ObjectClass.sectionWidths (c : ObjectClass) : List Nat :=
  [4, 4, c.wordWidth, c.wordWidth, c.wordWidth, c.wordWidth, 4, 4, c.wordWidth, c.wordWidth]

/-- A section header, from its bytes. -/
def SectionHeader.decode (e : Encoding) (record : Bytes) : Option SectionHeader :=
  match e.order.fields e.objectClass.sectionWidths record with
  | [nameOffset, kind, _, address, offset, size, link, _, _, entrySize] =>
    some ⟨nameOffset, kind, address, offset, size, link, entrySize⟩
  | _ => none

/-- The section headers of a file: none if it has no place for them, and else always the first, whose
size field holds the count if the file header says zero. -/
def ObjectHeader.sections (h : ObjectHeader) (e : Encoding) (file : Bytes) :
    Option (List SectionHeader) := do
  if h.sectionOffset = 0 then return []
  let len := recordLength e.objectClass.sectionWidths
  let first ← SectionHeader.decode e (← fileRange? file h.sectionOffset len)
  let count := if h.sectionCount = 0 then first.size else h.sectionCount
  let region ← fileRange? file h.sectionOffset (max 1 count * len)
  (consecutive len (max 1 count) region).mapM (SectionHeader.decode e)

/-- Whether the place of a section's bytes makes sense: it lies inside the file and its address range
inside the address space.  Nothing is asked of a section without bytes. -/
def SectionHeader.placed (s : SectionHeader) (fileLen : Nat) : Bool :=
  s.kind == emptyKind || s.size == 0 ||
    (s.offset + s.size ≤ fileLen && s.address + s.size < wordCount)

/-- Whether a section lies inside the file; one without bytes has its place there too, at the end of
the file at the latest. -/
def SectionHeader.inside (s : SectionHeader) (fileLen : Nat) : Bool :=
  s.offset + s.size ≤ fileLen

/-- Whether a section holds relocations. -/
def SectionHeader.holdsRelocations (s : SectionHeader) : Bool :=
  s.kind == relaKind || s.kind == relKind

end RomImage
