/-
# Agreement of the two kinds of source

The same symbols may be stored in an object file of 64 bits or printed in a listing with wide columns.
Both readings agree on addresses (`SameAddresses`) as far as sizes are left alone: an object file gives
every entry, whatever its size, but a line whose size needs more than 32 bits is passed over.  So the
readings agree exactly if the other entries tell the same addresses as all of them
(`sameAddresses_sources_iff`).
-/
import RomImage.Proofs.ListingRoundTrip
import RomImage.Proofs.ObjectRoundTrip

namespace RomImage

/-! ## Labels -/

/-- A name with the address that it is given. -/
structure Label where
  name : String
  address : Nat
  deriving DecidableEq, Repr

namespace Label

/-- The first label whose address is too wide. -/
def firstTooWide? (labels : List Label) : Option Label :=
  labels.find? (UInt32.size ≤ ·.address)

/-- The last label of a name. -/
def last? (labels : List Label) (name : String) : Option Label :=
  labels.reverse.find? (·.name = name)

variable {labels : List Label} {name : String}

/-- No label is too wide if all addresses fit. -/
theorem firstTooWide?_eq_none_iff :
    firstTooWide? labels = none ↔ ∀ l ∈ labels, l.address < UInt32.size := by
  simp only [firstTooWide?, List.find?_eq_none, decide_eq_true_eq, Nat.not_le]

/-- A name has a last label if it has one at all. -/
theorem isSome_last?_iff : (last? labels name).isSome ↔ ∃ l ∈ labels, l.name = name := by
  simp only [last?, List.find?_isSome, List.mem_reverse, decide_eq_true_eq]

/-- The last labels of a name are the same if their addresses are. -/
theorem last?_eq_iff {labels' : List Label} :
    last? labels name = last? labels' name ↔
      (last? labels name).map address = (last? labels' name).map address := by
  have hname : ∀ {ls : List Label} {l : Label}, last? ls name = some l → l = ⟨name, l.address⟩ := by
    intro ls l hl
    obtain rfl : l.name = name := by simpa using List.find?_some hl
    rfl
  constructor
  · intro h
    rw [h]
  · intro h
    cases hl : last? labels name with
    | none =>
        rw [hl, Option.map_none, eq_comm, Option.map_eq_none_iff] at h
        exact h.symm
    | some l =>
        rw [hl, Option.map_some, eq_comm, Option.map_eq_some_iff] at h
        obtain ⟨l', hl', haddress⟩ := h
        rw [hl', hname hl, hname hl', haddress]

end Label

/-- The label of a definition. -/
def Definition.label (d : Definition) : Label :=
  ⟨d.name, d.address⟩

/-! ## Readings with the same addresses -/

/-- Two readings report the same address as too wide, or give tables in which every name leads to the
same address or to none in both. -/
def SameAddresses (a b : Except SymbolError SymbolTable) : Prop :=
  (∃ name address, a = .error (.addressTooWide name address) ∧
    b = .error (.addressTooWide name address)) ∨
  ∃ t u, a = .ok t ∧ b = .ok u ∧ ∀ name, t.offset? name = u.offset? name

/-- Two readings that give tables have the same addresses if the tables have. -/
theorem sameAddresses_ok_iff {t u : SymbolTable} :
    SameAddresses (.ok t) (.ok u) ↔ ∀ name, t.offset? name = u.offset? name := by
  constructor
  · rintro (⟨_, _, ⟨⟩, _⟩ | ⟨_, _, ⟨⟩, ⟨⟩, h⟩)
    exact h
  · intro h
    exact .inr ⟨t, u, rfl, rfl, h⟩

/-- Two readings that report an address report the same one if both its name and itself are. -/
theorem sameAddresses_error_iff {l m : Label} :
    SameAddresses (.error (.addressTooWide l.name l.address))
      (.error (.addressTooWide m.name m.address)) ↔ l = m := by
  constructor
  · rintro (⟨name, address, hl, hm⟩ | ⟨_, _, ⟨⟩, _⟩)
    obtain ⟨rfl, rfl⟩ := SymbolError.addressTooWide.inj (Except.error.inj hl)
    obtain ⟨hname, haddress⟩ := SymbolError.addressTooWide.inj (Except.error.inj hm)
    cases l
    cases m
    cases hname
    cases haddress
    rfl
  · rintro rfl
    exact .inl ⟨l.name, l.address, rfl, rfl⟩

/-- A table and a report are no such readings. -/
theorem not_sameAddresses_ok_error {t : SymbolTable} {e : SymbolError} :
    ¬ SameAddresses (.ok t) (.error e) ∧ ¬ SameAddresses (.error e) (.ok t) := by
  constructor
  · rintro (⟨_, _, ⟨⟩, _⟩ | ⟨_, _, _, ⟨⟩, _⟩)
  · rintro (⟨_, _, _, ⟨⟩⟩ | ⟨_, _, ⟨⟩, _⟩)

namespace SymbolTable

variable {ds : List Definition}

/-- Definitions of which a label is too wide are refused with the first such label. -/
theorem ofDefinitions_of_tooWide {l : Label}
    (h : Label.firstTooWide? (ds.map Definition.label) = some l) :
    ofDefinitions ds = .error (.addressTooWide l.name l.address) := by
  rcases Definition.all_lt_or_first_le ds with hfits | ⟨front, d, back, rfl, hfront, hd⟩
  · have hnone : Label.firstTooWide? (ds.map Definition.label) = none := by
      rw [Label.firstTooWide?_eq_none_iff, List.forall_mem_map]
      exact hfits
    rw [hnone] at h
    cases h
  · have hnone : Label.firstTooWide? (front.map Definition.label) = none := by
      rw [Label.firstTooWide?_eq_none_iff, List.forall_mem_map]
      exact hfront
    have hfirst : Label.firstTooWide? ((front ++ d :: back).map Definition.label) = some d.label := by
      rw [Label.firstTooWide?] at hnone ⊢
      rw [List.map_append, List.find?_append, hnone, Option.none_or, List.map_cons,
        List.find?_cons, decide_eq_true (show UInt32.size ≤ d.label.address from hd)]
    obtain rfl := Option.some.inj (hfirst.symm.trans h)
    exact ofDefinitions_eq_error hfront hd

/-- Definitions of which no label is too wide make a table, in which each name leads to its last
label. -/
theorem ofDefinitions_of_fits (h : Label.firstTooWide? (ds.map Definition.label) = none) :
    ∃ t, ofDefinitions ds = .ok t ∧ ∀ name,
      (t.offset? name).map UInt32.toNat
        = (Label.last? (ds.map Definition.label) name).map Label.address := by
  have hfits : ∀ d ∈ ds, d.address < UInt32.size := by
    rw [Label.firstTooWide?_eq_none_iff, List.forall_mem_map] at h
    exact h
  refine ⟨_, ofDefinitions_eq_ok hfits, fun name => ?_⟩
  have hget : (ofList (ds.map Definition.cut)).get? name
      = (ds.reverse.find? (·.name = name)).map Definition.cut := by
    rw [ofList, get?_foldl_insert, get?_empty, Option.or_none, ← List.map_reverse, List.find?_map]
    rfl
  have hlast : Label.last? (ds.map Definition.label) name
      = (ds.reverse.find? (·.name = name)).map Definition.label := by
    rw [Label.last?, ← List.map_reverse, List.find?_map]
    rfl
  rw [offset?, hget, hlast]
  cases hd : ds.reverse.find? (·.name = name) with
  | none => rfl
  | some d =>
      have hlt := hfits d (List.mem_reverse.1 (List.mem_of_find?_eq_some hd))
      exact congrArg some (UInt32.toNat_ofNat_of_lt hlt)

end SymbolTable

/-- Two sequences of definitions make tables with the same addresses, or are refused for the same one,
exactly if they have the same first label that is too wide and, if there is none, the same last label of
every name. -/
theorem sameAddresses_ofDefinitions_iff {ds es : List Definition} :
    SameAddresses (SymbolTable.ofDefinitions ds) (SymbolTable.ofDefinitions es) ↔
      Label.firstTooWide? (ds.map Definition.label) = Label.firstTooWide? (es.map Definition.label) ∧
      (Label.firstTooWide? (ds.map Definition.label) = none → ∀ name,
        Label.last? (ds.map Definition.label) name = Label.last? (es.map Definition.label) name) := by
  cases hds : Label.firstTooWide? (ds.map Definition.label) with
  | some l =>
      rw [SymbolTable.ofDefinitions_of_tooWide hds]
      cases hes : Label.firstTooWide? (es.map Definition.label) with
      | some m =>
          rw [SymbolTable.ofDefinitions_of_tooWide hes, sameAddresses_error_iff]
          simp
      | none =>
          obtain ⟨u, hu, _⟩ := SymbolTable.ofDefinitions_of_fits hes
          rw [hu]
          simp [not_sameAddresses_ok_error]
  | none =>
      obtain ⟨t, ht, htable⟩ := SymbolTable.ofDefinitions_of_fits hds
      rw [ht]
      cases hes : Label.firstTooWide? (es.map Definition.label) with
      | some m =>
          rw [SymbolTable.ofDefinitions_of_tooWide hes]
          simp [not_sameAddresses_ok_error]
      | none =>
          obtain ⟨u, hu, hutable⟩ := SymbolTable.ofDefinitions_of_fits hes
          have hinjective : Function.Injective UInt32.toNat := fun _ _ => UInt32.toNat_inj.1
          have hoffset : ∀ name, t.offset? name = u.offset? name ↔
              Label.last? (ds.map Definition.label) name
                = Label.last? (es.map Definition.label) name := by
            intro name
            rw [Label.last?_eq_iff, ← htable, ← hutable, (Option.map_injective hinjective).eq_iff]
          rw [hu, sameAddresses_ok_iff]
          simp [hoffset]

/-- A table in which each name leads to its last label holds the names that have a label. -/
theorem SymbolTable.contains_iff_of_labels {t : SymbolTable} {labels : List Label}
    (h : ∀ name, (t.offset? name).map UInt32.toNat = (Label.last? labels name).map Label.address)
    (name : String) : t.contains name ↔ ∃ l ∈ labels, l.name = name := by
  have hsome := congrArg Option.isSome (h name)
  rw [offset?, Option.isSome_map, Option.isSome_map, Option.isSome_map] at hsome
  rw [contains, hsome, Label.isSome_last?_iff]

/-! ## Symbols in both kinds of source -/

/-- A symbol as a listing prints it and an object file stores it. -/
structure SharedEntry extends ListingEntry where
  /-- The index of the section in the object file. -/
  sectionIndex : Nat
  deriving DecidableEq, Repr

namespace SharedEntry

/-- The entry of an object file. -/
def named (e : SharedEntry) : NamedEntry :=
  ⟨e.name, e.address, e.size, e.sectionIndex⟩

/-- The label of an entry. -/
def label (e : SharedEntry) : Label :=
  ⟨e.name, e.address⟩

/-- The labels of some entries have a name if one of the entries has. -/
theorem exists_mem_map_label {entries : List SharedEntry} {name : String} :
    (∃ l ∈ entries.map label, l.name = name) ↔ ∃ e ∈ entries, e.name = name := by
  simp only [List.mem_map, exists_exists_and_eq_and]
  rfl

/-- The entries whose sizes have 32 bits. -/
def narrow (entries : List SharedEntry) : List SharedEntry :=
  entries.filter (·.size < UInt32.size)

@[simp]
theorem mem_narrow_iff {entries : List SharedEntry} {e : SharedEntry} :
    e ∈ narrow entries ↔ e ∈ entries ∧ e.size < UInt32.size := by
  rw [narrow, List.mem_filter, decide_eq_true_eq]

/-- The entries with wider sizes may be left out without changing what is told of addresses: the first
one that is too wide stays the same and, if there is none, so does the last address of every name. -/
def SizesHideNothing (entries : List SharedEntry) : Prop :=
  Label.firstTooWide? (entries.map label) = Label.firstTooWide? ((narrow entries).map label) ∧
  (Label.firstTooWide? (entries.map label) = none → ∀ name,
    Label.last? (entries.map label) name = Label.last? ((narrow entries).map label) name)

/-- The object file of 64 bits that holds the entries. -/
def objectBytes (order : ByteOrder) (entries : List SharedEntry) : Bytes :=
  ObjectBuilder.build ⟨.bits64, order⟩ (entries.map named)

/-- The listing of the entries with columns for 64 bits. -/
def listingBytes (preamble : List (List Char)) (entries : List SharedEntry) (rest : List Char) :
    Bytes :=
  encodeUtf8 (listing 16 preamble (entries.map toListingEntry) rest)

variable {order : ByteOrder} {preamble : List (List Char)} {entries : List SharedEntry}
  {rest : List Char}

/-- The object file gives the labels of all entries. -/
theorem ofSource_objectBytes
    (hstored : ObjectBuilder.Storable ⟨.bits64, order⟩ (entries.map named)) :
    ∃ ds, ds.map Definition.label = entries.map label ∧
      SymbolTable.ofSource (objectBytes order entries) = SymbolTable.ofDefinitions ds := by
  refine ⟨_, ?_, ObjectBuilder.ofSource_build_eq hstored⟩
  rw [List.map_map, List.map_map]
  rfl

/-- The listing gives the labels of the entries whose sizes have 32 bits. -/
theorem ofSource_listingBytes (hprinted : ∀ e ∈ entries, e.WellShaped)
    (hpreamble : ∀ line ∈ preamble, '\n' ∉ line ∧ trimEnd line ≠ listingHeader)
    (hrest : BeginsBlank rest)
    (hmagic : objectMagic.isPrefixOf (listingBytes preamble entries rest) = false) :
    ∃ ds, ds.map Definition.label = (narrow entries).map label ∧
      SymbolTable.ofSource (listingBytes preamble entries rest) = SymbolTable.ofDefinitions ds := by
  have hlines : ∀ e ∈ entries.map toListingEntry, e.WellShaped := List.forall_mem_map.2 hprinted
  refine ⟨((entries.map toListingEntry).filter (·.size < UInt32.size)).map ListingEntry.definition,
    ?_, ?_⟩
  · rw [List.filter_map, List.map_map, List.map_map]
    rfl
  · rw [SymbolTable.ofSource, hmagic, if_neg Bool.false_ne_true, listingBytes,
      decodeLossy_encodeUtf8,
      ofListing_of_givesEntries (givesEntries_filter hpreamble hlines hrest)]

/-- An object file and a listing of the same entries tell the same addresses exactly if the entries
whose sizes need more than 32 bits may be left out, so certainly if there are none.  If all addresses
fit, the object file gives every name, but the listing only those of the other entries. -/
theorem sameAddresses_sources_iff
    (hstored : ObjectBuilder.Storable ⟨.bits64, order⟩ (entries.map named))
    (hprinted : ∀ e ∈ entries, e.WellShaped)
    (hpreamble : ∀ line ∈ preamble, '\n' ∉ line ∧ trimEnd line ≠ listingHeader)
    (hrest : BeginsBlank rest)
    (hmagic : objectMagic.isPrefixOf (listingBytes preamble entries rest) = false) :
    (SameAddresses (SymbolTable.ofSource (objectBytes order entries))
        (SymbolTable.ofSource (listingBytes preamble entries rest)) ↔ SizesHideNothing entries) ∧
    ((∀ e ∈ entries, e.size < UInt32.size) →
      SameAddresses (SymbolTable.ofSource (objectBytes order entries))
        (SymbolTable.ofSource (listingBytes preamble entries rest))) ∧
    ((∀ e ∈ entries, e.address < UInt32.size) →
      ∃ t u, SymbolTable.ofSource (objectBytes order entries) = .ok t ∧
        SymbolTable.ofSource (listingBytes preamble entries rest) = .ok u ∧ ∀ name,
          (t.contains name ↔ ∃ e ∈ entries, e.name = name) ∧
          (u.contains name ↔ ∃ e ∈ entries, e.size < UInt32.size ∧ e.name = name)) := by
  obtain ⟨ds, hds, hobject⟩ := ofSource_objectBytes hstored
  obtain ⟨es, hes, hlisting⟩ := ofSource_listingBytes hprinted hpreamble hrest hmagic
  have hsame : SameAddresses (SymbolTable.ofSource (objectBytes order entries))
      (SymbolTable.ofSource (listingBytes preamble entries rest)) ↔ SizesHideNothing entries := by
    rw [hobject, hlisting, sameAddresses_ofDefinitions_iff, hds, hes]
    rfl
  refine ⟨hsame, fun hsizes => hsame.2 ?_, fun haddresses => ?_⟩
  · have hall : narrow entries = entries :=
      List.filter_eq_self.2 fun e he => decide_eq_true (hsizes e he)
    rw [SizesHideNothing, hall]
    exact ⟨rfl, fun _ _ => rfl⟩
  · have hfits : Label.firstTooWide? (entries.map label) = none := by
      rw [Label.firstTooWide?_eq_none_iff, List.forall_mem_map]
      exact haddresses
    have hfitsNarrow : Label.firstTooWide? ((narrow entries).map label) = none := by
      rw [Label.firstTooWide?_eq_none_iff, List.forall_mem_map]
      intro e he
      exact haddresses e (mem_narrow_iff.1 he).1
    rw [← hds] at hfits
    rw [← hes] at hfitsNarrow
    obtain ⟨t, ht, htlabels⟩ := SymbolTable.ofDefinitions_of_fits hfits
    obtain ⟨u, hu, hulabels⟩ := SymbolTable.ofDefinitions_of_fits hfitsNarrow
    refine ⟨t, u, hobject.trans ht, hlisting.trans hu, fun name => ⟨?_, ?_⟩⟩
    · rw [SymbolTable.contains_iff_of_labels htlabels, hds, exists_mem_map_label]
    · rw [SymbolTable.contains_iff_of_labels hulabels, hes, exists_mem_map_label]
      simp only [mem_narrow_iff, and_assoc]

/-- Entries of one name, the first with a size that needs more than 32 bits. -/
def restatedEntries : List SharedEntry :=
  [⟨⟨"entry", 0xf0000, 0x100000000, ".text", "g     F".toList, true⟩, 1⟩,
    ⟨⟨"entry", 0xf1000, 4, ".text", "g     F".toList, false⟩, 0xfff1⟩]

/-- The first of them may be left out, since the name leads to the address of the second. -/
theorem sameAddresses_restatedEntries :
    SameAddresses (SymbolTable.ofSource (objectBytes .big restatedEntries))
      (SymbolTable.ofSource (listingBytes ["rom.o:".toList] restatedEntries [])) := by
  have hhides : SizesHideNothing restatedEntries := by
    have hall : restatedEntries.map label = [⟨"entry", 0xf0000⟩, ⟨"entry", 0xf1000⟩] := rfl
    have hnarrow : (narrow restatedEntries).map label = [⟨"entry", 0xf1000⟩] := rfl
    refine ⟨rfl, fun _ name => ?_⟩
    rw [hall, hnarrow]
    by_cases h : "entry" = name <;> simp [Label.last?, h]
  exact (sameAddresses_sources_iff (by decide +kernel) (by decide +kernel) (by decide +kernel)
    beginsBlank_nil (by decide +kernel)).1.2 hhides

/-- An entry whose size needs more than 32 bits. -/
def oversizedEntry : SharedEntry :=
  ⟨⟨"big", 0xf0000, 0x100000000, ".text", "g      ".toList, false⟩, 1⟩

/-- An object file of it gives the symbol, and a listing gives none. -/
theorem not_sameAddresses_oversizedEntry :
    (ObjectBuilder.Storable ⟨.bits64, .little⟩ [oversizedEntry.named] ∧ oversizedEntry.WellShaped) ∧
      SymbolTable.ofSource (objectBytes .little [oversizedEntry])
        = .ok (.ofList [⟨"big", 0xf0000, 0xffffffff, some ".symtab"⟩]) ∧
      SymbolTable.ofSource (listingBytes [] [oversizedEntry] []) = .ok .empty ∧
      ¬ SameAddresses (SymbolTable.ofSource (objectBytes .little [oversizedEntry]))
        (SymbolTable.ofSource (listingBytes [] [oversizedEntry] [])) := by
  have hstored : ObjectBuilder.Storable ⟨.bits64, .little⟩ [oversizedEntry.named] := by
    decide +kernel
  have hobject : SymbolTable.ofSource (objectBytes .little [oversizedEntry])
      = .ok (.ofList [⟨"big", 0xf0000, 0xffffffff, some ".symtab"⟩]) :=
    ObjectBuilder.ofSource_build_eq hstored
  have hshape : oversizedEntry.WellShaped := by
    decide +kernel
  have hlisting : SymbolTable.ofSource (listingBytes [] [oversizedEntry] []) = .ok .empty := by
    obtain ⟨ds, hds, hread⟩ := ofSource_listingBytes (List.forall_mem_singleton.2 hshape)
      (List.forall_mem_nil _) beginsBlank_nil (by decide +kernel)
    obtain rfl : ds = [] := List.map_eq_nil_iff.1 hds
    exact hread
  refine ⟨⟨hstored, hshape⟩, hobject, hlisting, ?_⟩
  rw [hobject, hlisting, sameAddresses_ok_iff]
  intro h
  have hbig := h "big"
  exact absurd hbig (by decide)

end SharedEntry

end RomImage
