/-
# Reading back a built object

An object file that was built from entries is read as what was built: its section headers, its strings
and its symbol entries stand where the file header and the section headers say (`read_build`), in every
class and byte order.  So it gives the table of the symbols that the entries stand for
(`ofSource_build`).
-/
import Mathlib.Tactic.MkIffOfInductiveProp
import RomImage.Proofs.ObjectRecords
import RomImage.Proofs.TableContents
import RomImage.Object.File

namespace RomImage

/-! ## What an entry stands for -/

/-- The name of the section with the given index in a built object, if it has one. -/
def ObjectBuilder.sectionName? : Nat → Option String
  | 1 => some ".symtab"
  | 2 => some ".strtab"
  | 3 => some ".shstrtab"
  | _ => none

namespace NamedEntry

/-- The size of the entry, or the greatest that fits in 32 bits. -/
def cutSize (e : NamedEntry) : UInt32 :=
  UInt32.ofNat (min e.size (UInt32.size - 1))

/-- The definition that an entry of a built object gives. -/
def definition (e : NamedEntry) : Definition :=
  ⟨e.name, e.value, e.cutSize, ObjectBuilder.sectionName? e.sectionIndex⟩

/-- The symbol that an entry of a built object stands for. -/
def symbol (e : NamedEntry) : Symbol :=
  ⟨e.name, UInt32.ofNat e.value, e.cutSize, ObjectBuilder.sectionName? e.sectionIndex⟩

/-- What a table holds of an entry of a built object. -/
def Shows (e : NamedEntry) (s : Symbol) : Prop :=
  s.name = e.name ∧ s.offset.toNat = e.value ∧ s.size.toNat = min e.size 0xffffffff ∧
    s.sectionName = ObjectBuilder.sectionName? e.sectionIndex

/-- The size that is kept is the lesser of the size and the greatest that fits. -/
theorem toNat_cutSize (e : NamedEntry) : e.cutSize.toNat = min e.size 0xffffffff :=
  toNat_cut e.size

/-- An entry whose value has 32 bits shows its symbol and no other. -/
theorem shows_iff {e : NamedEntry} {s : Symbol} (he : e.value < UInt32.size) :
    e.Shows s ↔ e.symbol = s := by
  have hdefines : e.Shows s ↔ e.definition.Defines s := by
    rw [Shows, ← e.toNat_cutSize, UInt32.toNat_inj]
    constructor
    · rintro ⟨hname, hoffset, hsize, hsection⟩
      exact ⟨hname, hoffset, hsize, hsection⟩
    · intro h
      exact ⟨h.name_eq, h.offset_eq, h.size_eq, h.sectionName_eq⟩
  exact hdefines.trans (Definition.defines_iff he)

end NamedEntry

namespace ObjectBuilder

/-! ## Entries that can be stored -/

/-- The entries can be stored: every name can be written as a string, and every number and offset fits
in its field. -/
@[mk_iff]
structure Storable (enc : Encoding) (entries : List NamedEntry) : Prop where
  names : ∀ e ∈ entries, e.name ≠ "" ∧ '\x00' ∉ e.name.toList
  value_lt : ∀ e ∈ entries, e.value < 256 ^ enc.objectClass.wordWidth
  size_lt : ∀ e ∈ entries, e.size < 256 ^ enc.objectClass.wordWidth
  sectionIndex_lt : ∀ e ∈ entries, e.sectionIndex < 256 ^ 2
  /-- The offsets where names begin fit. -/
  nameOffset_lt : ∀ n < entries.length, (symbolStrings (entries.take n)).length < 256 ^ 4
  /-- The offset of the section headers fits, and with it all that are less. -/
  sectionsAt_lt : sectionsAt enc entries < 256 ^ enc.objectClass.wordWidth

instance (enc : Encoding) (entries : List NamedEntry) : Decidable (Storable enc entries) :=
  decidable_of_iff _ (storable_iff enc entries).symm

variable {enc : Encoding} {entries : List NamedEntry}

/-! ## Symbol entries -/

/-- The symbol entries of `entries` whose names stand from `nameOffset` on. -/
def storedEntries : Nat → List NamedEntry → List SymbolEntry
  | _, [] => []
  | nameOffset, e :: es =>
    ⟨nameOffset, e.value, e.size, e.sectionIndex⟩ ::
      storedEntries (nameOffset + (stringBytes e.name).length) es

/-- The empty entry at the front. -/
def emptyEntry : SymbolEntry :=
  ⟨0, 0, 0, 0⟩

/-- The fields of an entry fit if its numbers do. -/
theorem fieldsFit_symbolFields {e : NamedEntry} {nameOffset : Nat}
    (hname : nameOffset < 256 ^ 4) (hvalue : e.value < 256 ^ enc.objectClass.wordWidth)
    (hsize : e.size < 256 ^ enc.objectClass.wordWidth)
    (hindex : e.sectionIndex < 256 ^ 2) :
    FieldsFit enc.objectClass.symbolWidths (symbolFields enc.objectClass nameOffset e) := by
  cases hclass : enc.objectClass <;> rw [hclass] at hvalue hsize <;>
    simp_all [ObjectClass.symbolWidths, symbolFields, ObjectClass.wordWidth]

/-- An entry has a number for each field. -/
theorem length_symbolFields (nameOffset : Nat) (e : NamedEntry) :
    enc.objectClass.symbolWidths.length = (symbolFields enc.objectClass nameOffset e).length := by
  cases enc.objectClass <;> rfl

/-- An entry whose fields fit is decoded. -/
theorem decode_symbolFields {e : NamedEntry} {nameOffset : Nat}
    (h : FieldsFit enc.objectClass.symbolWidths (symbolFields enc.objectClass nameOffset e)) :
    SymbolEntry.decode enc
        (enc.order.record enc.objectClass.symbolWidths (symbolFields enc.objectClass nameOffset e))
      = some ⟨nameOffset, e.value, e.size, e.sectionIndex⟩ := by
  rw [SymbolEntry.decode, fields_record_self h]
  cases enc.objectClass <;> rfl

/-- The empty entry is decoded. -/
theorem decode_replicate_zero :
    SymbolEntry.decode enc (List.replicate (symbolLength enc.objectClass) 0) = some emptyEntry := by
  obtain ⟨objectClass, order⟩ := enc
  cases objectClass <;> cases order <;> rfl

/-- Entries that can be stored are decoded one by one. -/
theorem mapM_decode_symbolRecords {nameOffset : Nat}
    (hvalue : ∀ e ∈ entries, e.value < 256 ^ enc.objectClass.wordWidth)
    (hsize : ∀ e ∈ entries, e.size < 256 ^ enc.objectClass.wordWidth)
    (hindex : ∀ e ∈ entries, e.sectionIndex < 256 ^ 2)
    (hname : ∀ n < entries.length,
      nameOffset + ((entries.take n).flatMap fun e => stringBytes e.name).length < 256 ^ 4) :
    (consecutive (symbolLength enc.objectClass) entries.length
        (symbolRecords enc nameOffset entries)).mapM (SymbolEntry.decode enc)
      = some (storedEntries nameOffset entries) := by
  -- the names of later entries stand behind that of the first
  induction entries generalizing nameOffset with
  | nil => rfl
  | cons e es ih =>
      obtain ⟨hvalueE, hvalueEs⟩ := List.forall_mem_cons.1 hvalue
      obtain ⟨hsizeE, hsizeEs⟩ := List.forall_mem_cons.1 hsize
      obtain ⟨hindexE, hindexEs⟩ := List.forall_mem_cons.1 hindex
      have hfit : FieldsFit enc.objectClass.symbolWidths
          (symbolFields enc.objectClass nameOffset e) :=
        fieldsFit_symbolFields (hname 0 (Nat.succ_pos _)) hvalueE hsizeE hindexE
      have hnameEs : ∀ n < es.length, nameOffset + (stringBytes e.name).length +
          ((es.take n).flatMap fun e => stringBytes e.name).length < 256 ^ 4 := by
        intro n hn
        have hnext := hname (n + 1) (Nat.succ_lt_succ hn)
        rw [List.take_succ_cons, List.flatMap_cons, List.length_append] at hnext
        omega
      exact mapM_consecutive_cons (length_record (length_symbolFields nameOffset e))
        (decode_symbolFields hfit)
        (ih hvalueEs hsizeEs hindexEs hnameEs)

/-- The records of entries are as long as so many entries. -/
theorem length_symbolRecords (nameOffset : Nat) :
    (symbolRecords enc nameOffset entries).length
      = entries.length * symbolLength enc.objectClass := by
  induction entries generalizing nameOffset with
  | nil => simp [symbolRecords]
  | cons e es ih =>
      rw [symbolRecords, List.length_append, length_record (length_symbolFields nameOffset e), ih,
        List.length_cons, Nat.succ_mul, Nat.add_comm]
      rfl

/-- The symbol section holds the empty entry and the others. -/
theorem length_symbolBytes :
    (symbolBytes enc entries).length = (entries.length + 1) * symbolLength enc.objectClass := by
  rw [symbolBytes, List.length_append, List.length_replicate, length_symbolRecords, Nat.succ_mul,
    Nat.add_comm]

/-! ## Section headers -/

/-- The section headers of a built object. -/
def sectionHeaders (enc : Encoding) (entries : List NamedEntry) : List SectionHeader :=
  [⟨0, 0, 0, 0, 0, 0, 0⟩,
   ⟨1, SectionHeader.symbolKind, 0, headerLength enc.objectClass,
    (symbolBytes enc entries).length, 2, symbolLength enc.objectClass⟩,
   ⟨9, 3, 0, symbolStringsAt enc entries, (symbolStrings entries).length, 0, 0⟩,
   ⟨17, 3, 0, sectionStringsAt enc entries, sectionStrings.length, 0, 0⟩]

/-- The bytes of the section headers. -/
def sectionBytes (enc : Encoding) (entries : List NamedEntry) : Bytes :=
  (sectionFields enc entries).flatMap (enc.order.record enc.objectClass.sectionWidths)

/-- The strings end where the section headers begin at the latest. -/
theorem stringsEnd_le (enc : Encoding) (entries : List NamedEntry) :
    stringsEnd enc entries ≤ sectionsAt enc entries := by
  rw [sectionsAt]
  omega

/-- A word of either class has at least 32 bits. -/
theorem le_pow_wordWidth (c : ObjectClass) : 4294967296 ≤ 256 ^ c.wordWidth := by
  cases c <;> decide

/-- A symbol entry has at most 24 bytes. -/
theorem symbolLength_le (c : ObjectClass) : symbolLength c ≤ 24 := by
  cases c <;> decide

/-- The file header has at most 64 bytes. -/
theorem headerLength_le (c : ObjectClass) : headerLength c ≤ 64 := by
  cases c <;> decide

/-- A program header has at most 56 bytes. -/
theorem programLength_le (c : ObjectClass) : c.programLength ≤ 56 := by
  cases c <;> decide

/-- A section header has at most 64 bytes. -/
theorem recordLength_sectionWidths_le (c : ObjectClass) : recordLength c.sectionWidths ≤ 64 := by
  cases c <;> decide

/-- The names of the sections take 27 bytes. -/
theorem length_sectionStrings : sectionStrings.length = 27 := by
  decide

/-- The fields of the section headers fit. -/
theorem fieldsFit_sectionFields (h : Storable enc entries) :
    ∀ fields ∈ sectionFields enc entries, FieldsFit enc.objectClass.sectionWidths fields := by
  have hword := le_pow_wordWidth enc.objectClass
  have hentry := symbolLength_le enc.objectClass
  have hlt := h.sectionsAt_lt
  have hend := stringsEnd_le enc entries
  -- no offset and no length is greater than where the section headers begin
  simp only [stringsEnd, sectionStringsAt, symbolStringsAt, length_sectionStrings] at hend
  intro fields hfields
  simp only [sectionFields, List.mem_cons, List.not_mem_nil, or_false] at hfields
  rcases hfields with rfl | rfl | rfl | rfl <;>
    simp only [ObjectClass.sectionWidths, fieldsFit_cons_iff, fieldsFit_nil_iff, Nat.reducePow,
      SectionHeader.symbolKind, sectionStringsAt, symbolStringsAt, length_sectionStrings,
      and_true] <;>
    omega

/-- A section header whose fields fit is decoded. -/
theorem decode_sectionHeader
    {nameOffset kind flags address offset size link info align entrySize : Nat}
    (h : FieldsFit enc.objectClass.sectionWidths
      [nameOffset, kind, flags, address, offset, size, link, info, align, entrySize]) :
    SectionHeader.decode enc (enc.order.record enc.objectClass.sectionWidths
        [nameOffset, kind, flags, address, offset, size, link, info, align, entrySize])
      = some ⟨nameOffset, kind, address, offset, size, link, entrySize⟩ := by
  rw [SectionHeader.decode, fields_record_self h]

/-- The section headers are decoded one by one. -/
theorem mapM_decode_sectionBytes (h : Storable enc entries) :
    (consecutive (recordLength enc.objectClass.sectionWidths) 4 (sectionBytes enc entries)).mapM
        (SectionHeader.decode enc) = some (sectionHeaders enc entries) := by
  have hfit := fieldsFit_sectionFields h
  rw [sectionBytes]
  simp only [sectionFields, List.forall_mem_cons] at hfit ⊢
  obtain ⟨hnull, hsymtab, hstrtab, hshstrtab, _⟩ := hfit
  exact mapM_consecutive_cons (length_record rfl) (decode_sectionHeader hnull)
    (mapM_consecutive_cons (length_record rfl) (decode_sectionHeader hsymtab)
      (mapM_consecutive_cons (length_record rfl) (decode_sectionHeader hstrtab)
        (mapM_consecutive_cons (length_record rfl) (decode_sectionHeader hshstrtab) rfl)))

/-! ## The places of the parts -/

/-- The bytes of the file header after the identification. -/
def headerBytes (enc : Encoding) (entries : List NamedEntry) : Bytes :=
  enc.order.record enc.objectClass.headerWidths (headerFields enc entries)

/-- The zeros between the strings and the section headers. -/
def padding (enc : Encoding) (entries : List NamedEntry) : Bytes :=
  List.replicate (sectionsAt enc entries - stringsEnd enc entries) 0

/-- The parts of a built object in order. -/
theorem build_eq (enc : Encoding) (entries : List NamedEntry) :
    build enc entries = ident enc ++ (headerBytes enc entries ++ (symbolBytes enc entries ++
      (symbolStrings entries ++ (sectionStrings ++
        (padding enc entries ++ sectionBytes enc entries))))) := by
  simp only [build, headerBytes, padding, sectionBytes, List.append_assoc]

/-- The header stands behind the identification. -/
theorem fileRange?_headerBytes (enc : Encoding) (entries : List NamedEntry) :
    fileRange? (build enc entries) identLength (recordLength enc.objectClass.headerWidths)
      = some (headerBytes enc entries) :=
  fileRange?_eq_some (build_eq enc entries) rfl (length_record rfl)

/-- What stands in front of the symbol section. -/
theorem length_front (enc : Encoding) (entries : List NamedEntry) :
    (ident enc ++ headerBytes enc entries).length = headerLength enc.objectClass := by
  have hheader : (headerBytes enc entries).length = recordLength enc.objectClass.headerWidths :=
    length_record rfl
  rw [List.length_append, hheader]
  rfl

/-- The symbol section stands behind the header. -/
theorem fileRange?_symbolBytes (enc : Encoding) (entries : List NamedEntry) :
    fileRange? (build enc entries) (headerLength enc.objectClass) (symbolBytes enc entries).length
      = some (symbolBytes enc entries) := by
  have hfile : build enc entries = (ident enc ++ headerBytes enc entries) ++
      (symbolBytes enc entries ++ (symbolStrings entries ++ (sectionStrings ++
        (padding enc entries ++ sectionBytes enc entries)))) := by
    rw [build_eq, List.append_assoc]
  exact fileRange?_eq_some hfile (length_front enc entries) rfl

/-- The names of the symbols stand behind their section. -/
theorem fileRange?_symbolStrings (enc : Encoding) (entries : List NamedEntry) :
    fileRange? (build enc entries) (symbolStringsAt enc entries) (symbolStrings entries).length
      = some (symbolStrings entries) := by
  have hfile : build enc entries = ((ident enc ++ headerBytes enc entries) ++
      symbolBytes enc entries) ++ (symbolStrings entries ++ (sectionStrings ++
        (padding enc entries ++ sectionBytes enc entries))) := by
    rw [build_eq]
    simp only [List.append_assoc]
  refine fileRange?_eq_some hfile ?_ rfl
  rw [List.length_append, length_front, symbolStringsAt]

/-- The names of the sections stand behind those of the symbols. -/
theorem fileRange?_sectionStrings (enc : Encoding) (entries : List NamedEntry) :
    fileRange? (build enc entries) (sectionStringsAt enc entries) sectionStrings.length
      = some sectionStrings := by
  have hfile : build enc entries = ((ident enc ++ headerBytes enc entries) ++
      (symbolBytes enc entries ++ symbolStrings entries)) ++ (sectionStrings ++
        (padding enc entries ++ sectionBytes enc entries)) := by
    rw [build_eq]
    simp only [List.append_assoc]
  refine fileRange?_eq_some hfile ?_ rfl
  rw [List.length_append, length_front, List.length_append, sectionStringsAt, symbolStringsAt,
    Nat.add_assoc]

/-- What stands in front of the section headers. -/
theorem length_front_sections (enc : Encoding) (entries : List NamedEntry) :
    ((ident enc ++ headerBytes enc entries) ++ (symbolBytes enc entries ++
      (symbolStrings entries ++ (sectionStrings ++ padding enc entries)))).length
      = sectionsAt enc entries := by
  have hend := stringsEnd_le enc entries
  simp only [stringsEnd, sectionStringsAt, symbolStringsAt] at hend
  simp only [List.length_append, ← length_front enc entries, padding, List.length_replicate,
    stringsEnd, sectionStringsAt, symbolStringsAt] at hend ⊢
  omega

/-- The section headers stand at the end. -/
theorem build_eq_sections (enc : Encoding) (entries : List NamedEntry) :
    build enc entries = ((ident enc ++ headerBytes enc entries) ++ (symbolBytes enc entries ++
      (symbolStrings entries ++ (sectionStrings ++ padding enc entries)))) ++
        sectionBytes enc entries := by
  rw [build_eq]
  simp only [List.append_assoc]

/-- There are four section headers. -/
theorem length_sectionBytes (enc : Encoding) (entries : List NamedEntry) :
    (sectionBytes enc entries).length = 4 * recordLength enc.objectClass.sectionWidths := by
  have hrecord : ∀ fields : List Nat, fields.length = 10 →
      (enc.order.record enc.objectClass.sectionWidths fields).length
        = recordLength enc.objectClass.sectionWidths :=
    fun fields hfields => length_record hfields.symm
  simp only [sectionBytes, sectionFields, List.flatMap_cons, List.flatMap_nil,
    List.length_append, List.length_nil]
  rw [hrecord _ rfl, hrecord _ rfl, hrecord _ rfl, hrecord _ rfl]
  omega

/-- The section headers stand where the header says. -/
theorem fileRange?_sectionBytes (enc : Encoding) (entries : List NamedEntry) :
    fileRange? (build enc entries) (sectionsAt enc entries)
        (4 * recordLength enc.objectClass.sectionWidths) = some (sectionBytes enc entries) := by
  have hfile := build_eq_sections enc entries
  rw [← List.append_nil (sectionBytes enc entries)] at hfile
  exact fileRange?_eq_some hfile (length_front_sections enc entries)
    (length_sectionBytes enc entries)

/-- The first of the section headers stands there. -/
theorem fileRange?_firstSection (enc : Encoding) (entries : List NamedEntry) :
    fileRange? (build enc entries) (sectionsAt enc entries)
        (recordLength enc.objectClass.sectionWidths)
      = some (enc.order.record enc.objectClass.sectionWidths [0, 0, 0, 0, 0, 0, 0, 0, 1, 0]) := by
  have hfile := build_eq_sections enc entries
  rw [sectionBytes, sectionFields, List.flatMap_cons] at hfile
  exact fileRange?_eq_some hfile (length_front_sections enc entries) (length_record rfl)

/-- The section headers are read. -/
theorem sections_build (h : Storable enc entries) :
    (⟨0, 0, sectionsAt enc entries, 4, 3⟩ : ObjectHeader).sections enc (build enc entries)
      = some (sectionHeaders enc entries) := by
  have hplace : sectionsAt enc entries ≠ 0 := by
    have hend := stringsEnd_le enc entries
    rw [stringsEnd, length_sectionStrings] at hend
    omega
  have hfirst : SectionHeader.decode enc
      (enc.order.record enc.objectClass.sectionWidths [0, 0, 0, 0, 0, 0, 0, 0, 1, 0])
        = some ⟨0, 0, 0, 0, 0, 0, 0⟩ :=
    decode_sectionHeader (fieldsFit_sectionFields h _ List.mem_cons_self)
  have hfour : max 1 4 = 4 := rfl
  simp only [ObjectHeader.sections, if_neg hplace, fileRange?_firstSection, hfirst, bind,
    Option.bind, if_neg (show ¬ (4 : Nat) = 0 by decide), hfour, fileRange?_sectionBytes,
    mapM_decode_sectionBytes h]

/-- The header is read. -/
theorem header_build (h : Storable enc entries) :
    ObjectHeader.read enc (build enc entries) = some ⟨0, 0, sectionsAt enc entries, 4, 3⟩ := by
  have hfit : FieldsFit enc.objectClass.headerWidths (headerFields enc entries) := by
    have hword := le_pow_wordWidth enc.objectClass
    have hheader := headerLength_le enc.objectClass
    have hprogram := programLength_le enc.objectClass
    have hsection := recordLength_sectionWidths_le enc.objectClass
    have hlt := h.sectionsAt_lt
    simp only [ObjectClass.headerWidths, headerFields, fieldsFit_cons_iff, fieldsFit_nil_iff,
      Nat.reducePow, and_true]
    omega
  simp only [ObjectHeader.read, fileRange?_headerBytes, bind, Option.bind, headerBytes,
    fields_record_self hfit]
  rfl

/-- The section headers lie in the file, behind everything else. -/
theorem sectionsAt_le_length (enc : Encoding) (entries : List NamedEntry) :
    sectionsAt enc entries ≤ (build enc entries).length := by
  have hrange := le_length_of_fileRange? (fileRange?_sectionBytes enc entries)
  omega

/-- The symbol section is decoded entry by entry. -/
theorem mapM_decode_symbolBytes (h : Storable enc entries) :
    (consecutive (symbolLength enc.objectClass) (entries.length + 1)
        (symbolBytes enc entries)).mapM (SymbolEntry.decode enc)
      = some (emptyEntry :: storedEntries 1 entries) := by
  have hname : ∀ n < entries.length,
      1 + ((entries.take n).flatMap fun e => stringBytes e.name).length < 256 ^ 4 := by
    intro n hn
    have hoffset := h.nameOffset_lt n hn
    rw [symbolStrings, List.length_cons] at hoffset
    omega
  exact mapM_consecutive_cons List.length_replicate decode_replicate_zero
    (mapM_decode_symbolRecords h.value_lt h.size_lt h.sectionIndex_lt hname)

/-- The symbol entries are read. -/
theorem symbols_build (h : Storable enc entries) :
    (⟨1, SectionHeader.symbolKind, 0, headerLength enc.objectClass,
        (symbolBytes enc entries).length, 2, symbolLength enc.objectClass⟩ : SectionHeader).symbols
          enc (build enc entries)
      = some (emptyEntry :: storedEntries 1 entries) := by
  have hinside : headerLength enc.objectClass < (build enc entries).length := by
    have hend := stringsEnd_le enc entries
    have hlen := sectionsAt_le_length enc entries
    simp only [stringsEnd, sectionStringsAt, symbolStringsAt, length_sectionStrings] at hend
    omega
  have hpos : 0 < symbolLength enc.objectClass := by
    cases enc.objectClass <;> decide
  have hcount : (symbolBytes enc entries).length / symbolLength enc.objectClass
      = entries.length + 1 := by
    rw [length_symbolBytes, Nat.mul_div_cancel _ hpos]
  have hrange := fileRange?_symbolBytes enc entries
  rw [length_symbolBytes] at hrange
  rw [SectionHeader.symbols, bind_guard hinside]
  dsimp only
  rw [← symbolLength, hcount, bind_of_eq_some hrange]
  exact mapM_decode_symbolBytes h

/-- A section of a built object that lies in front of the section headers makes sense. -/
theorem placed_build (h : Storable enc entries) {s : SectionHeader} (haddress : s.address = 0)
    (hend : s.offset + s.size ≤ sectionsAt enc entries) :
    s.placed (build enc entries).length = true := by
  have hlen := sectionsAt_le_length enc entries
  have hword : 256 ^ enc.objectClass.wordWidth ≤ wordCount := by
    cases enc.objectClass <;> decide
  have hlt := h.sectionsAt_lt
  have hinside : s.offset + s.size ≤ (build enc entries).length := by omega
  have haddresses : s.address + s.size < wordCount := by omega
  simp [SectionHeader.placed, hinside, haddresses]

/-- The strings of the symbols are read. -/
theorem symbolNames_build (h : Storable enc entries) :
    StringTable.read (build enc entries) (sectionHeaders enc entries) 2
      = some ⟨symbolStrings entries⟩ := by
  have htext := decodeStrict_strings (entries.map NamedEntry.name)
  rw [List.flatMap_map] at htext
  have hend := stringsEnd_le enc entries
  rw [stringsEnd, sectionStringsAt] at hend
  refine StringTable.read_eq_some (by decide) rfl (placed_build h rfl ?_)
    (fileRange?_symbolStrings enc entries) htext
  dsimp only
  omega

/-- The strings of the sections are read. -/
theorem sectionNames_build (h : Storable enc entries) :
    StringTable.read (build enc entries) (sectionHeaders enc entries) 3
      = some ⟨sectionStrings⟩ :=
  StringTable.read_eq_some (by decide) rfl (placed_build h rfl (stringsEnd_le enc entries))
    (fileRange?_sectionStrings enc entries) (decodeStrict_strings _)

/-- A built object begins as every object file does. -/
theorem isPrefixOf_build (enc : Encoding) (entries : List NamedEntry) :
    objectMagic.isPrefixOf (build enc entries) = true := by
  rw [build_eq]
  rfl

/-- The encoding of a built object is announced. -/
theorem ofIdent?_build (enc : Encoding) (entries : List NamedEntry) :
    Encoding.ofIdent? (build enc entries) = some enc := by
  rw [build_eq]
  obtain ⟨objectClass, order⟩ := enc
  cases objectClass <;> cases order <;> rfl

/-- A built object is read as what was built. -/
theorem read_build (h : Storable enc entries) :
    ObjectFile.read (build enc entries)
      = some ⟨sectionHeaders enc entries, ⟨sectionStrings⟩, emptyEntry :: storedEntries 1 entries,
          ⟨symbolStrings entries⟩⟩ := by
  have hprograms : ∀ fileLen, (⟨0, 0, sectionsAt enc entries, 4, 3⟩ : ObjectHeader).programsFit
      enc fileLen = true := fun _ => rfl
  -- of the four sections, none holds relocations or versions, and one holds symbols
  have hrelocations : ∀ fileLen, ((sectionHeaders enc entries).filter
      (·.holdsRelocations)).all (·.placed fileLen) = true := fun _ => rfl
  have hversions : ∀ fileLen, versionsPlaced (sectionHeaders enc entries) fileLen = true :=
    fun _ => rfl
  have hsymbols : symbolSection? (sectionHeaders enc entries)
      = some ⟨1, SectionHeader.symbolKind, 0, headerLength enc.objectClass,
          (symbolBytes enc entries).length, 2, symbolLength enc.objectClass⟩ := rfl
  rw [ObjectFile.read, bind_guard (isPrefixOf_build enc entries),
    bind_of_eq_some (ofIdent?_build enc entries), bind_of_eq_some (header_build h),
    bind_guard (hprograms _), bind_of_eq_some (sections_build h),
    bind_of_eq_some (sectionNames_build h), bind_guard (hrelocations _), bind_guard (hversions _),
    hsymbols]
  dsimp only
  rw [bind_of_eq_some (symbols_build h), bind_of_eq_some (symbolNames_build h)]

/-! ## The definitions of a built object -/

/-- The sections of a built object have their names, the first an empty one, which counts as none. -/
theorem sectionName?_build (symbols : List SymbolEntry) (names : StringTable) (index : Nat) :
    (⟨sectionHeaders enc entries, ⟨sectionStrings⟩, symbols, names⟩ : ObjectFile).sectionName? index
      = sectionName? index := by
  match index with
  | 0 => rfl
  | 1 => rfl
  | 2 => rfl
  | 3 => rfl
  | _ + 4 => rfl

/-- Entries whose names stand one after the other from an offset on give their definitions. -/
theorem filterMap_storedEntries {o : ObjectFile} {nameOffset : Nat}
    (hsections : ∀ index, o.sectionName? index = sectionName? index)
    (hnames : ∀ e ∈ entries, e.name ≠ "" ∧ '\x00' ∉ e.name.toList)
    (hstrings : o.symbolNames.bytes.drop nameOffset
      = entries.flatMap fun e => stringBytes e.name) :
    (storedEntries nameOffset entries).filterMap o.definition?
      = entries.map NamedEntry.definition := by
  induction entries generalizing nameOffset with
  | nil => rfl
  | cons e es ih =>
      obtain ⟨⟨hne, hzero⟩, hrest⟩ := List.forall_mem_cons.1 hnames
      rw [List.flatMap_cons] at hstrings
      have hlookup := StringTable.lookup_eq_some hstrings hne hzero
      have hbehind : o.symbolNames.bytes.drop (nameOffset + (stringBytes e.name).length)
          = es.flatMap fun e => stringBytes e.name := by
        rw [← List.drop_drop, hstrings, List.drop_left]
      have hfirst : o.definition? ⟨nameOffset, e.value, e.size, e.sectionIndex⟩
          = some e.definition := by
        rw [ObjectFile.definition?, hlookup, hsections]
        rfl
      rw [storedEntries, List.filterMap_cons_some hfirst, ih hrest hbehind, List.map_cons]

/-- A built object gives the definitions of its entries. -/
theorem ofSource_build_eq (h : Storable enc entries) :
    SymbolTable.ofSource (build enc entries)
      = SymbolTable.ofDefinitions (entries.map NamedEntry.definition) := by
  rw [SymbolTable.ofSource, if_pos (isPrefixOf_build enc entries), SymbolTable.ofObject,
    read_build h]
  dsimp only
  -- the empty entry in front has no name, so that it gives nothing
  rw [ObjectFile.definitions, List.filterMap_cons_none rfl,
    filterMap_storedEntries (sectionName?_build _ _) h.names rfl]

/-- A built object is read back: it gives the table of its entries, in which the last entry of a name
counts.  The class and the byte order make no difference. -/
theorem ofSource_build (h : Storable enc entries) (hvalues : ∀ e ∈ entries, e.value < UInt32.size) :
    SymbolTable.ofSource (build enc entries) = .ok (.ofList (entries.map NamedEntry.symbol)) ∧
      (∀ enc', Storable enc' entries →
        SymbolTable.ofSource (build enc' entries) = SymbolTable.ofSource (build enc entries)) ∧
      ∀ name s, (SymbolTable.ofList (entries.map NamedEntry.symbol)).get? name = some s ↔
        ∃ front e back, entries = front ++ e :: back ∧ e.name = name ∧
          (∀ later ∈ back, later.name ≠ name) ∧ e.Shows s := by
  refine ⟨?_, fun enc' h' => ?_, fun name s => ?_⟩
  · have hfits : ∀ d ∈ entries.map NamedEntry.definition, d.address < UInt32.size := by
      intro d hd
      obtain ⟨e, he, rfl⟩ := List.mem_map.1 hd
      exact hvalues e he
    rw [ofSource_build_eq h, SymbolTable.ofDefinitions_eq_ok hfits, List.map_map]
    rfl
  · rw [ofSource_build_eq h, ofSource_build_eq h']
  · have hshows : ∀ e ∈ entries, ∀ u, e.Shows u ↔ e.symbol = u := by
      intro e he u
      exact NamedEntry.shows_iff (hvalues e he)
    exact SymbolTable.get?_ofList_map_iff hshows

/-- Entries of which two define one name, with sections that are named, undefined, reserved and out of
range, and with sizes that a table cuts. -/
def mixedEntries : List NamedEntry :=
  [⟨"start", 0xf0000, 4, 1⟩, ⟨"größe", 0xffffffff, 0x100000000, 0xfff1⟩,
    ⟨"start", 0xf1000, 0xffffffffffffffff, 3⟩, ⟨"end", 0, 0, 0⟩, ⟨"far", 0x10, 0xffffffff, 0xffff⟩]

/-- They are read back, and in the other byte order as the same table. -/
theorem ofSource_build_mixedEntries :
    SymbolTable.ofSource (build ⟨.bits64, .big⟩ mixedEntries)
        = .ok (.ofList (mixedEntries.map NamedEntry.symbol)) ∧
      SymbolTable.ofSource (build ⟨.bits64, .little⟩ mixedEntries)
        = SymbolTable.ofSource (build ⟨.bits64, .big⟩ mixedEntries) := by
  have hread := ofSource_build (show Storable ⟨.bits64, .big⟩ mixedEntries by decide +kernel) (by decide)
  exact ⟨hread.1, hread.2.1 ⟨.bits64, .little⟩ (by decide +kernel)⟩

end ObjectBuilder

end RomImage
