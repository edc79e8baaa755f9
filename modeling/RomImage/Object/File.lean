/-
# Object files

An object file as its readers see it: the headers of its sections, its symbol entries in file order,
and the strings that name both.  The named entries are the definitions of a symbol table.

A section of strings holds them one after the other, each ended by a zero byte.  A string is named by the
offset of its first byte; an offset into the middle of a string names the rest of it, unless it falls
inside a character.

A table of symbols comes from an object file, known by its first bytes, or else from a listing.  A
listing with invalid bytes is read all the same, each flaw shown as U+FFFD.
-/
import RomImage.Object.Header
import RomImage.Symbol.Listing
import RomImage.Text.Utf8

namespace RomImage

/-! ## String tables -/

/-- The bytes of a section of strings, all of them valid text. -/
structure StringTable where
  bytes : Bytes
  deriving DecidableEq, Repr

/-- The table without strings. -/
def StringTable.empty : StringTable :=
  ⟨[]⟩

/-- The string named by an offset, if there is one and it is not empty. -/
def StringTable.lookup (t : StringTable) (offset : Nat) : Option String :=
  match decodeStrict ((t.bytes.drop offset).takeWhile (· != 0)) with
  | some (c :: cs) => some (String.ofList (c :: cs))
  | _ => none

/-- The index that stands for one too great for its field. -/
def escapeIndex : Nat := 0xffff

/-- The strings of the section with the given index; the first section header gives the index in
place of `escapeIndex`.  A section that is not there holds no strings. -/
def StringTable.read (file : Bytes) (sections : List SectionHeader) (index : Nat) :
    Option StringTable :=
  let index :=
    if index = escapeIndex then (sections.head?.map (·.link)).getD sections.length else index
  match sections[index]? with
  | none => some empty
  | some s => do
    guard (s.placed file.length)
    let bytes ← fileRange? file s.offset s.size
    let _ ← decodeStrict bytes
    some ⟨bytes⟩

/-! ## Symbol entries -/

/-- An entry of a symbol section. -/
structure SymbolEntry where
  /-- Where the name stands among the names of the symbols. -/
  nameOffset : Nat
  value : Nat
  size : Nat
  /-- The index of the section that the symbol belongs to. -/
  sectionIndex : Nat
  deriving DecidableEq, Repr

/-- The widths of the fields of a symbol entry. -/
def ObjectClass.symbolWidths : ObjectClass → List Nat
  | bits32 => [4, 4, 4, 1, 1, 2]
  | bits64 => [4, 1, 1, 2, 8, 8]

/-- A symbol entry, from its bytes. -/
def SymbolEntry.decode (e : Encoding) (record : Bytes) : Option SymbolEntry :=
  match e.objectClass, e.order.fields e.objectClass.symbolWidths record with
  | .bits32, [nameOffset, value, size, _, _, sectionIndex] =>
    some ⟨nameOffset, value, size, sectionIndex⟩
  | .bits64, [nameOffset, _, _, sectionIndex, value, size] =>
    some ⟨nameOffset, value, size, sectionIndex⟩
  | _, _ => none

/-- The entries of a symbol section.  Their count is by the entry size that the section gives, their
bytes by that of the file's class. -/
def SectionHeader.symbols (s : SectionHeader) (e : Encoding) (file : Bytes) :
    Option (List SymbolEntry) := do
  guard (s.offset < file.length)
  let len := recordLength e.objectClass.symbolWidths
  let count := s.size / s.entrySize
  let region ← fileRange? file s.offset (count * len)
  (consecutive len count region).mapM (SymbolEntry.decode e)

/-! ## Whole files -/

/-- What an object file says about its symbols. -/
structure ObjectFile where
  sections : List SectionHeader
  sectionNames : StringTable
  symbols : List SymbolEntry
  symbolNames : StringTable
  deriving DecidableEq, Repr

/-- The last of the sections that hold symbols. -/
def symbolSection? (sections : List SectionHeader) : Option SectionHeader :=
  sections.reverse.find? (·.kind == SectionHeader.symbolKind)

/-- Whether the first section of each kind that holds versions lies inside the file. -/
def versionsPlaced (sections : List SectionHeader) (fileLen : Nat) : Bool :=
  SectionHeader.versionKinds.all fun kind =>
    (sections.find? (·.kind == kind)).all (·.inside fileLen)

/-- Reads an object file; `none` if it breaks the rules of its format. -/
def ObjectFile.read (file : Bytes) : Option ObjectFile := do
  guard (objectMagic.isPrefixOf file)
  let encoding ← Encoding.ofIdent? file
  let header ← ObjectHeader.read encoding file
  guard (header.programsFit encoding file.length)
  let sections ← header.sections encoding file
  let sectionNames ← StringTable.read file sections header.namesIndex
  guard ((sections.filter (·.holdsRelocations)).all (·.placed file.length))
  guard (versionsPlaced sections file.length)
  match symbolSection? sections with
  | none => some ⟨sections, sectionNames, [], StringTable.empty⟩
  | some s => do
    let symbols ← s.symbols encoding file
    let symbolNames ← StringTable.read file sections s.link
    some ⟨sections, sectionNames, symbols, symbolNames⟩

/-- The name of the section with the given index, if it has one. -/
def ObjectFile.sectionName? (o : ObjectFile) (index : Nat) : Option String :=
  o.sections[index]?.bind fun s => o.sectionNames.lookup s.nameOffset

/-- The definition that a symbol entry gives, if it has a name.  A size beyond 32 bits is given as the
greatest that fits. -/
def ObjectFile.definition? (o : ObjectFile) (entry : SymbolEntry) : Option Definition :=
  (o.symbolNames.lookup entry.nameOffset).map fun name =>
    ⟨name, entry.value, UInt32.ofNat (min entry.size (UInt32.size - 1)), o.sectionName? entry.sectionIndex⟩

/-- The definitions of an object file, in file order. -/
def ObjectFile.definitions (o : ObjectFile) : List Definition :=
  o.symbols.filterMap o.definition?

/-! ## Sources of symbols -/

/-- The table of the named symbols of an object file. -/
def SymbolTable.ofObject (file : Bytes) : Except SymbolError SymbolTable :=
  match ObjectFile.read file with
  | none => .error .malformedObject
  | some object => ofDefinitions object.definitions

/-- The table that a file of either kind gives. -/
def SymbolTable.ofSource (file : Bytes) : Except SymbolError SymbolTable :=
  if objectMagic.isPrefixOf file then ofObject file
  else ofListing (decodeLossy file)

end RomImage
