/-
# What an object file says

The meaning of an object file that keeps the rules of its format, said without looking names up.  A string
stands in a table at the offset of its first byte (`StringTable.Holds`); the entries that have a name by
this are read in file order, the first value that is too wide is reported, and otherwise the last entry of a
name counts (`ObjectFile.ReadsAs`).  Entries without a name do not matter, whatever their values, and the
fields of an object of 32 bits are too small for a value that is too wide.
-/
import Mathlib.Data.Option.Basic
import RomImage.Proofs.ObjectRecords
import RomImage.Proofs.TableContents
import RomImage.Object.File

namespace RomImage

/-! ## Numbers -/

/-- Bytes denote a number that fits in them. -/
theorem littleEndian_lt (bytes : Bytes) : littleEndian bytes < 256 ^ bytes.length := by
  induction bytes with
  | nil => decide
  | cons b bytes ih =>
      have hb := b.toNat_lt
      rw [List.length_cons, Nat.pow_succ']
      rw [littleEndian] at ih ⊢
      rw [List.foldr_cons]
      omega

/-- A number that is read from a field fits in it. -/
theorem ByteOrder.number_take_lt (order : ByteOrder) (width : Nat) (bytes : Bytes) :
    order.number (bytes.take width) < 256 ^ width := by
  have hlen : (bytes.take width).length ≤ width := List.length_take_le width bytes
  have hlt : order.number (bytes.take width) < 256 ^ (bytes.take width).length := by
    cases order with
    | little => exact littleEndian_lt _
    | big =>
        rw [← List.length_reverse]
        exact littleEndian_lt _
  exact Nat.lt_of_lt_of_le hlt (Nat.pow_le_pow_right (by decide) hlen)

/-- A value in an object of 32 bits fits in 32 bits. -/
theorem SymbolEntry.value_lt_of_decode {order : ByteOrder} {record : Bytes} {e : SymbolEntry}
    (h : decode ⟨.bits32, order⟩ record = some e) : e.value < UInt32.size := by
  simp only [decode, ObjectClass.symbolWidths, ByteOrder.fields, Option.some.injEq] at h
  obtain rfl := h
  exact order.number_take_lt 4 _

namespace ObjectFile

variable {file : Bytes} {o : ObjectFile} {e : SymbolEntry}

/-- The entries of an object file are decoded by its encoding. -/
theorem exists_decode_of_read {enc : Encoding} (h : read file = some o)
    (henc : Encoding.ofIdent? file = some enc) (he : e ∈ o.symbols) :
    ∃ record, SymbolEntry.decode enc record = some e := by
  simp only [read, bind, Option.bind_eq_some_iff, henc, Option.some.injEq] at h
  -- of all that is read, only the symbol section matters
  obtain ⟨_, _, _, rfl, _, _, _, _, _, _, _, _, _, _, _, _, h⟩ := h
  split at h
  · obtain rfl := Option.some.inj h
    cases he
  · simp only [Option.bind_eq_some_iff, Option.some.injEq] at h
    obtain ⟨symbols, hsymbols, _, _, rfl⟩ := h
    simp only [SectionHeader.symbols, bind, Option.bind_eq_some_iff] at hsymbols
    obtain ⟨_, _, _, _, hdecode⟩ := hsymbols
    exact exists_of_mem_mapM hdecode he

/-! ## Entries -/

/-- The entry has the name. -/
def Names (o : ObjectFile) (e : SymbolEntry) (name : String) : Prop :=
  o.symbolNames.Holds e.nameOffset name

/-- The entry belongs to a section that is there and has the name. -/
def NamesSection (o : ObjectFile) (e : SymbolEntry) (name : String) : Prop :=
  ∃ s, o.sections[e.sectionIndex]? = some s ∧ o.sectionNames.Holds s.nameOffset name

/-- The symbol is what the entry says: it has the name, the value, the size, unless this is too great, and
the section of the entry, if it has one. -/
structure Shows (o : ObjectFile) (e : SymbolEntry) (s : Symbol) : Prop where
  names : o.Names e s.name
  offset_eq : s.offset.toNat = e.value
  size_eq : s.size.toNat = min e.size 0xffffffff
  sectionName_iff : ∀ name, s.sectionName = some name ↔ o.NamesSection e name

/-- What an object file is read as: the first value too wide of an entry with a name is reported, and if there
is none, the last entry of a name counts. -/
inductive ReadsAs (o : ObjectFile) : Except SymbolError SymbolTable → Prop
  | tooWide {front back : List SymbolEntry} {e : SymbolEntry} {name : String} :
    o.symbols = front ++ e :: back →
    (∀ earlier ∈ front, ∀ n, o.Names earlier n → earlier.value < UInt32.size) →
    o.Names e name → UInt32.size ≤ e.value → ReadsAs o (.error (.addressTooWide name e.value))
  | table {t : SymbolTable} :
    (∀ e ∈ o.symbols, ∀ name, o.Names e name → e.value < UInt32.size) →
    (∀ name s, t.get? name = some s ↔ ∃ front e back, o.symbols = front ++ e :: back ∧
      s.name = name ∧ o.Shows e s ∧ ∀ later ∈ back, ¬ o.Names later name) →
    ReadsAs o (.ok t)

/-- The entries of two objects say the same, in the same order, but for entries without a name. -/
inductive SameNamed (o o' : ObjectFile) : List SymbolEntry → List SymbolEntry → Prop
  | nil : SameNamed o o' [] []
  | same {e e' : SymbolEntry} {es es' : List SymbolEntry} :
    (∀ name, o.Names e name ↔ o'.Names e' name) → e.value = e'.value → e.size = e'.size →
    (∀ name, o.NamesSection e name ↔ o'.NamesSection e' name) →
    SameNamed o o' es es' → SameNamed o o' (e :: es) (e' :: es')
  | left {e : SymbolEntry} {es es' : List SymbolEntry} :
    (∀ name, ¬ o.Names e name) → SameNamed o o' es es' → SameNamed o o' (e :: es) es'
  | right {e' : SymbolEntry} {es es' : List SymbolEntry} :
    (∀ name, ¬ o'.Names e' name) → SameNamed o o' es es' → SameNamed o o' es (e' :: es')

/-! ## Definitions -/

/-- The section of an entry is the one that has its index. -/
theorem sectionName?_eq_some_iff {name : String} :
    o.sectionName? e.sectionIndex = some name ↔ o.NamesSection e name := by
  rw [sectionName?, Option.bind_eq_some_iff]
  simp only [StringTable.lookup_eq_some_iff]
  rfl

/-- The definition is what the entry says. -/
structure Defines (o : ObjectFile) (e : SymbolEntry) (d : Definition) : Prop where
  names : o.Names e d.name
  address_eq : d.address = e.value
  size_eq : d.size.toNat = min e.size 0xffffffff
  sectionName_iff : ∀ name, d.sectionName = some name ↔ o.NamesSection e name

/-- An entry gives the definition that is what it says. -/
theorem definition?_eq_some_iff {d : Definition} : o.definition? e = some d ↔ o.Defines e d := by
  rw [definition?, Option.map_eq_some_iff]
  simp only [StringTable.lookup_eq_some_iff]
  constructor
  · rintro ⟨name, hname, rfl⟩
    exact ⟨hname, rfl, toNat_cut e.size, fun _ => sectionName?_eq_some_iff⟩
  · rintro ⟨hname, haddress, hsize, hsection⟩
    refine ⟨d.name, hname, ?_⟩
    have hsectionName : o.sectionName? e.sectionIndex = d.sectionName := by
      apply Option.ext
      intro name
      rw [sectionName?_eq_some_iff, hsection]
    obtain ⟨name, address, size, sectionName⟩ := d
    obtain rfl : address = e.value := haddress
    obtain rfl : o.sectionName? e.sectionIndex = sectionName := hsectionName
    rw [← toNat_cut, UInt32.toNat_inj] at hsize
    obtain rfl : size = UInt32.ofNat (min e.size (UInt32.size - 1)) := hsize
    rfl

/-- An entry without a name gives no definition. -/
theorem definition?_eq_none_iff : o.definition? e = none ↔ ∀ name, ¬ o.Names e name := by
  rw [definition?, Option.map_eq_none_iff, Option.eq_none_iff_forall_ne_some]
  simp only [Ne, StringTable.lookup_eq_some_iff]
  rfl

/-- An entry with a name gives a definition of it. -/
theorem exists_definition?_of_names {name : String} (h : o.Names e name) :
    ∃ d, o.definition? e = some d ∧ d.name = name ∧ d.address = e.value := by
  rw [Names, ← StringTable.lookup_eq_some_iff] at h
  rw [definition?, h]
  exact ⟨_, rfl, rfl, rfl⟩

/-- A symbol shows the entry whose definition it is. -/
theorem shows_of_defines {d : Definition} {s : Symbol} (hd : o.Defines e d) (hs : d.Defines s) :
    o.Shows e s := by
  obtain ⟨hname, hoffset, hsize, hsection⟩ := hs
  exact ⟨hname ▸ hd.names, hoffset.trans hd.address_eq, hsize ▸ hd.size_eq,
    fun name => by rw [hsection, hd.sectionName_iff]⟩

/-- An entry defines the symbols that show it. -/
theorem defines_of_shows {d : Definition} {s : Symbol} (hd : o.Defines e d) (hname : d.name = s.name)
    (hs : o.Shows e s) : d.Defines s := by
  refine ⟨hname.symm, hs.offset_eq.trans hd.address_eq.symm, ?_, ?_⟩
  · rw [← UInt32.toNat_inj, hs.size_eq, hd.size_eq]
  · apply Option.ext
    intro name
    rw [hs.sectionName_iff, hd.sectionName_iff]

/-- An entry in a sequence with a definition behind it and in front of it stands among others likewise. -/
theorem filterMap_eq_append_cons_iff {α β : Type} {f : α → Option β} {xs : List α} {front back : List β}
    {y : β} : xs.filterMap f = front ++ y :: back ↔
      ∃ before x after, xs = before ++ x :: after ∧ before.filterMap f = front ∧ f x = some y ∧
        after.filterMap f = back := by
  constructor
  · intro h
    obtain ⟨before, rest, rfl, rfl, hrest⟩ := List.filterMap_eq_append_iff.1 h
    obtain ⟨skipped, x, after, rfl, hskipped, hx, rfl⟩ := List.filterMap_eq_cons_iff.1 hrest
    refine ⟨before ++ skipped, x, after, by simp, ?_, hx, rfl⟩
    rw [List.filterMap_append, List.filterMap_eq_nil_iff.2 hskipped, List.append_nil]
  · rintro ⟨before, x, after, rfl, rfl, hx, rfl⟩
    rw [List.filterMap_append, List.filterMap_cons_some hx]

/-- The addresses of the definitions fit if the values of the entries that have a name do. -/
theorem forall_definitions_iff {es : List SymbolEntry} :
    (∀ d ∈ es.filterMap o.definition?, d.address < UInt32.size) ↔
      ∀ e ∈ es, ∀ name, o.Names e name → e.value < UInt32.size := by
  constructor
  · intro h e he name hname
    obtain ⟨d, hd, _, haddress⟩ := exists_definition?_of_names hname
    rw [← haddress]
    exact h d (List.mem_filterMap.2 ⟨e, he, hd⟩)
  · intro h d hd
    obtain ⟨e, he, hdefinition⟩ := List.mem_filterMap.1 hd
    have hdefines := definition?_eq_some_iff.1 hdefinition
    rw [hdefines.address_eq]
    exact h e he d.name hdefines.names

/-- No definition has a name if no entry does. -/
theorem forall_name_ne_iff {es : List SymbolEntry} {name : String} :
    (∀ d ∈ es.filterMap o.definition?, d.name ≠ name) ↔ ∀ e ∈ es, ¬ o.Names e name := by
  constructor
  · intro h e he hname
    obtain ⟨d, hd, hdname, _⟩ := exists_definition?_of_names hname
    exact h d (List.mem_filterMap.2 ⟨e, he, hd⟩) hdname
  · rintro h d hd rfl
    obtain ⟨e, he, hdefinition⟩ := List.mem_filterMap.1 hd
    exact h e he (definition?_eq_some_iff.1 hdefinition).names

/-! ## Reading -/

theorem ofObject_of_read (h : read file = some o) :
    SymbolTable.ofObject file = SymbolTable.ofDefinitions o.definitions := by
  rw [SymbolTable.ofObject, h]

/-- In the table of an object whose values fit, a name leads to what the last entry of it says. -/
theorem get?_ofDefinitions_iff {name : String} {s : Symbol}
    (hfits : ∀ d ∈ o.definitions, d.address < UInt32.size) :
    (SymbolTable.ofList (o.definitions.map Definition.cut)).get? name = some s ↔
      ∃ front e back, o.symbols = front ++ e :: back ∧ s.name = name ∧ o.Shows e s ∧
        ∀ later ∈ back, ¬ o.Names later name := by
  rw [SymbolTable.get?_ofList_cut_iff hfits]
  constructor
  · rintro ⟨_, d, _, hsplit, rfl, hback, hs⟩
    obtain ⟨front, e, back, hsymbols, rfl, hd, rfl⟩ := filterMap_eq_append_cons_iff.1 hsplit
    exact ⟨front, e, back, hsymbols, hs.name_eq, shows_of_defines (definition?_eq_some_iff.1 hd) hs,
      forall_name_ne_iff.1 hback⟩
  · rintro ⟨front, e, back, hsymbols, rfl, hs, hback⟩
    obtain ⟨d, hd, hname, _⟩ := exists_definition?_of_names hs.names
    exact ⟨_, d, _, filterMap_eq_append_cons_iff.2 ⟨front, e, back, hsymbols, rfl, hd, rfl⟩, hname,
      forall_name_ne_iff.2 hback, defines_of_shows (definition?_eq_some_iff.1 hd) hname hs⟩

/-- An object file says what it is read as. -/
theorem readsAs_ofObject (h : read file = some o) : o.ReadsAs (SymbolTable.ofObject file) := by
  rw [ofObject_of_read h]
  rcases Definition.all_lt_or_first_le o.definitions with hfits | ⟨_, d, _, hsplit, hfront, hd⟩
  · rw [SymbolTable.ofDefinitions_eq_ok hfits]
    exact .table (forall_definitions_iff.1 hfits) fun name s => get?_ofDefinitions_iff hfits
  · rw [hsplit, SymbolTable.ofDefinitions_eq_error hfront hd]
    obtain ⟨front, e, back, hsymbols, rfl, hdefinition, rfl⟩ := filterMap_eq_append_cons_iff.1 hsplit
    have hdefines := definition?_eq_some_iff.1 hdefinition
    rw [hdefines.address_eq] at hd ⊢
    exact .tooWide hsymbols (forall_definitions_iff.1 hfront) hdefines.names hd

/-- An object file is read as what it says. -/
theorem ReadsAs.ofObject_eq {result : Except SymbolError SymbolTable} (h : read file = some o)
    (hresult : o.ReadsAs result) : SymbolTable.ofObject file = result := by
  rw [ofObject_of_read h]
  cases hresult with
  | @tooWide front back e name hsymbols hfront hname hwide =>
      obtain ⟨d, hd, rfl, haddress⟩ := exists_definition?_of_names hname
      have hsplit : o.definitions
          = front.filterMap o.definition? ++ d :: back.filterMap o.definition? :=
        filterMap_eq_append_cons_iff.2 ⟨front, e, back, hsymbols, rfl, hd, rfl⟩
      rw [← haddress] at hwide ⊢
      rw [hsplit, SymbolTable.ofDefinitions_eq_error (forall_definitions_iff.2 hfront) hwide]
  | @table t hfits htable =>
      have hdefinitions : ∀ d ∈ o.definitions, d.address < UInt32.size :=
        forall_definitions_iff.2 hfits
      rw [SymbolTable.ofDefinitions_eq_ok hdefinitions]
      congr 1
      apply SymbolTable.ext_get?
      intro name
      apply Option.ext
      intro s
      rw [get?_ofDefinitions_iff hdefinitions, htable]

/-- Entries that say the same but for those without a name give the same definitions. -/
theorem SameNamed.filterMap_eq {o' : ObjectFile} {es es' : List SymbolEntry} (h : SameNamed o o' es es') :
    es'.filterMap o'.definition? = es.filterMap o.definition? := by
  induction h with
  | nil => rfl
  | @same e e' es es' hnames hvalue hsize hsection _ ih =>
      have hdefinition : o'.definition? e' = o.definition? e := by
        apply Option.ext
        intro d
        rw [definition?_eq_some_iff, definition?_eq_some_iff]
        constructor
        · rintro ⟨hname, haddress, hd, hs⟩
          exact ⟨(hnames _).2 hname, haddress.trans hvalue.symm, hsize ▸ hd,
            fun name => (hs name).trans (hsection name).symm⟩
        · rintro ⟨hname, haddress, hd, hs⟩
          exact ⟨(hnames _).1 hname, haddress.trans hvalue, hsize ▸ hd,
            fun name => (hs name).trans (hsection name)⟩
      rw [List.filterMap_cons, List.filterMap_cons, hdefinition, ih]
  | left hnone _ ih => rw [List.filterMap_cons_none (definition?_eq_none_iff.2 hnone), ih]
  | right hnone _ ih => rw [List.filterMap_cons_none (definition?_eq_none_iff.2 hnone), ih]

/-- An object of 32 bits has no value that is too wide. -/
theorem value_lt_of_bits32 {order : ByteOrder} (h : read file = some o)
    (henc : Encoding.ofIdent? file = some ⟨.bits32, order⟩) (he : e ∈ o.symbols) :
    e.value < UInt32.size := by
  obtain ⟨record, hrecord⟩ := exists_decode_of_read h henc he
  exact SymbolEntry.value_lt_of_decode hrecord

/-- An object file that keeps the rules of its format is read exactly as what it says.  Entries without a name
do not matter: objects whose other entries say the same are read alike.  And an object of 32 bits is never
refused for an address. -/
theorem ofObject_eq_iff_readsAs (h : read file = some o) :
    (∀ result, SymbolTable.ofObject file = result ↔ o.ReadsAs result) ∧
    (∀ file' o', read file' = some o' → SameNamed o o' o.symbols o'.symbols →
      SymbolTable.ofObject file' = SymbolTable.ofObject file) ∧
    ∀ order, Encoding.ofIdent? file = some ⟨.bits32, order⟩ → ∀ name address,
      SymbolTable.ofObject file ≠ .error (.addressTooWide name address) := by
  refine ⟨fun result => ⟨?_, ReadsAs.ofObject_eq h⟩, fun file' o' h' hsame => ?_,
    fun order henc name address hrefused => ?_⟩
  · rintro rfl
    exact readsAs_ofObject h
  · rw [ofObject_of_read h, ofObject_of_read h', definitions, definitions, hsame.filterMap_eq]
  · have hreads := readsAs_ofObject h
    rw [hrefused] at hreads
    cases hreads with
    | @tooWide front back e _ hsymbols _ _ hwide =>
        have he : e ∈ o.symbols := hsymbols ▸ List.mem_append_right front List.mem_cons_self
        exact absurd (value_lt_of_bits32 h henc he) (Nat.not_lt.2 hwide)

/-- An object with an entry without a name, whose value is too wide, and two entries of one name. -/
def namelessObject : Bytes :=
  ObjectBuilder.build ⟨.bits64, .little⟩
    [⟨"", 0x100000000, 0, 1⟩, ⟨"start", 0xf0000, 4, 1⟩, ⟨"start", 0xf1000, 0xffffffffffffffff, 2⟩]

/-- It is read as the last of them, with the greatest size that fits. -/
theorem ofObject_eq_iff_readsAs_namelessObject :
    ∃ o, read namelessObject = some o ∧
      SymbolTable.ofObject namelessObject
        = .ok (.ofList [⟨"start", 0xf1000, 0xffffffff, some ".strtab"⟩]) ∧
      o.ReadsAs (.ok (.ofList [⟨"start", 0xf1000, 0xffffffff, some ".strtab"⟩])) := by
  obtain ⟨o, h⟩ := Option.isSome_iff_exists.1
    (show (read namelessObject).isSome = true by decide +kernel)
  have hresult : SymbolTable.ofObject namelessObject
      = .ok (.ofList [⟨"start", 0xf1000, 0xffffffff, some ".strtab"⟩]) := by
    decide +kernel
  exact ⟨o, h, hresult, ((ofObject_eq_iff_readsAs h).1 _).1 hresult⟩

end ObjectFile

end RomImage
