/-
# Building object files

An object file made from a list of named symbol entries, in any class and byte order: the header, the
symbol section, the names of the symbols, the names of the sections, and four section headers.
A first symbol entry and a first section header are empty, as the format asks.
-/
import RomImage.Object.File

namespace RomImage

/-- A symbol entry with its name. -/
structure NamedEntry where
  name : String
  value : Nat
  size : Nat
  /-- The index of the section that the symbol belongs to. -/
  sectionIndex : Nat
  deriving DecidableEq, Repr

namespace ObjectBuilder

/-! ## Strings -/

/-- A string as a string table holds it. -/
def stringBytes (name : String) : Bytes :=
  encodeUtf8 name.toList ++ [0]

/-- The strings of the symbols: an empty one, then the names in order. -/
def symbolStrings (entries : List NamedEntry) : Bytes :=
  0 :: entries.flatMap fun e => stringBytes e.name

/-- The strings of the sections. -/
def sectionStrings : Bytes :=
  0 :: [".symtab", ".strtab", ".shstrtab"].flatMap stringBytes

/-! ## Records -/

/-- The fields of a symbol entry whose name stands at `nameOffset`: a global symbol of no kind. -/
def symbolFields (c : ObjectClass) (nameOffset : Nat) (e : NamedEntry) : List Nat :=
  match c with
  | .bits32 => [nameOffset, e.value, e.size, 0x10, 0, e.sectionIndex]
  | .bits64 => [nameOffset, 0x10, 0, e.sectionIndex, e.value, e.size]

/-- The entries whose names stand from `nameOffset` on. -/
def symbolRecords (enc : Encoding) : Nat → List NamedEntry → Bytes
  | _, [] => []
  | nameOffset, e :: es =>
    enc.order.record enc.objectClass.symbolWidths (symbolFields enc.objectClass nameOffset e) ++
      symbolRecords enc (nameOffset + (stringBytes e.name).length) es

/-- The length of a symbol entry. -/
def symbolLength (c : ObjectClass) : Nat :=
  recordLength c.symbolWidths

/-- The bytes of the symbol section: an empty entry, then the entries in order. -/
def symbolBytes (enc : Encoding) (entries : List NamedEntry) : Bytes :=
  List.replicate (symbolLength enc.objectClass) 0 ++ symbolRecords enc 1 entries

/-! ## Places -/

/-- The length of the file header. -/
def headerLength (c : ObjectClass) : Nat :=
  identLength + recordLength c.headerWidths

/-- Where the names of the symbols begin. -/
def symbolStringsAt (enc : Encoding) (entries : List NamedEntry) : Nat :=
  headerLength enc.objectClass + (symbolBytes enc entries).length

/-- Where the names of the sections begin. -/
def sectionStringsAt (enc : Encoding) (entries : List NamedEntry) : Nat :=
  symbolStringsAt enc entries + (symbolStrings entries).length

/-- Where the names of the sections end. -/
def stringsEnd (enc : Encoding) (entries : List NamedEntry) : Nat :=
  sectionStringsAt enc entries + sectionStrings.length

/-- Where the section headers begin: the next multiple of four. -/
def sectionsAt (enc : Encoding) (entries : List NamedEntry) : Nat :=
  (stringsEnd enc entries + 3) / 4 * 4

/-! ## The file -/

/-- The identification: class, byte order, version one, then zeros. -/
def ident (enc : Encoding) : Bytes :=
  let classByte : UInt8 := match enc.objectClass with
    | .bits32 => 1
    | .bits64 => 2
  let orderByte : UInt8 := match enc.order with
    | .little => 1
    | .big => 2
  objectMagic ++ [classByte, orderByte, 1] ++ List.replicate 9 0

/-- The fields of the header of a relocatable file with four sections, the last of them with the names
of the sections. -/
def headerFields (enc : Encoding) (entries : List NamedEntry) : List Nat :=
  let c := enc.objectClass
  [1, 3, 1, 0, 0, sectionsAt enc entries, 0, headerLength c, c.programLength, 0,
    recordLength c.sectionWidths, 4, 3]

/-- The fields of the four section headers. -/
def sectionFields (enc : Encoding) (entries : List NamedEntry) : List (List Nat) :=
  [[0, 0, 0, 0, 0, 0, 0, 0, 1, 0],
   [1, SectionHeader.symbolKind, 0, 0, headerLength enc.objectClass,
    (symbolBytes enc entries).length, 2, 1, 1, symbolLength enc.objectClass],
   [9, 3, 0, 0, symbolStringsAt enc entries, (symbolStrings entries).length, 0, 0, 1, 0],
   [17, 3, 0, 0, sectionStringsAt enc entries, sectionStrings.length, 0, 0, 1, 0]]

/-- The object file that holds the entries. -/
def build (enc : Encoding) (entries : List NamedEntry) : Bytes :=
  ident enc ++
    enc.order.record enc.objectClass.headerWidths (headerFields enc entries) ++
    symbolBytes enc entries ++ symbolStrings entries ++ sectionStrings ++
    List.replicate (sectionsAt enc entries - stringsEnd enc entries) 0 ++
    (sectionFields enc entries).flatMap (enc.order.record enc.objectClass.sectionWidths)

end ObjectBuilder

end RomImage
