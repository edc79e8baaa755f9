/-
# Reading back a printed listing

A listing that was printed is read as the table of the symbols that were printed.  The line of an entry
is its entry in the sense of the reader (`isEntry_line`): no column but the flags can hold a blank, and
these are passed over by their width.  Only a size that needs more than 32 bits makes a line no entry
(`not_isEntry_line`).  So the printed lines are the symbol section of the listing, whatever stands in
front of its header or after a blank line.
-/
import Mathlib.Tactic.MkIffOfInductiveProp
import RomImage.Proofs.ListingReading

namespace RomImage

/-! ## Entries that can be printed -/

/-- A column of hexadecimal digits is a word. -/
theorem isWord_hexColumn (width n : Nat) : IsWord (hexColumn width n) :=
  (spells_hexColumn width n).isWord (by decide)

namespace ListingEntry

/-- The line of the entry has the columns of a symbol: its name and section are words, its address has 64
bits, and its flags are seven ASCII characters without a newline.  Nothing is asked of the size. -/
@[mk_iff]
structure WellShaped (e : ListingEntry) : Prop where
  name_isWord : IsWord e.name.toList
  section_isWord : IsWord e.sectionName.toList
  address_lt : e.address < UInt64.size
  flags_length : e.flags.length = 7
  flags_ascii : ∀ c ∈ e.flags, c.toNat < 128
  flags_newline : '\n' ∉ e.flags

instance (e : ListingEntry) : Decidable e.WellShaped :=
  decidable_of_iff
    (IsWord e.name.toList ∧ IsWord e.sectionName.toList ∧ e.address < UInt64.size ∧
      e.flags.length = 7 ∧ e.flags.all (fun c => decide (c.toNat < 128)) = true ∧ '\n' ∉ e.flags)
    (by simp only [wellShaped_iff, List.all_eq_true, decide_eq_true_eq])

/-- The entry can be printed so that it is read back: its line has the columns of a symbol, and its numbers
have 32 bits. -/
@[mk_iff]
structure Printable (e : ListingEntry) : Prop extends e.WellShaped where
  address_fits : e.address < UInt32.size
  size_fits : e.size < UInt32.size

instance (e : ListingEntry) : Decidable e.Printable :=
  decidable_of_iff _ (printable_iff e).symm

/-- The symbol that is printed. -/
def symbol (e : ListingEntry) : Symbol :=
  ⟨e.name, UInt32.ofNat e.address, UInt32.ofNat e.size, some e.sectionName⟩

/-- The definition that is printed. -/
def definition (e : ListingEntry) : Definition :=
  ⟨e.name, e.address, UInt32.ofNat e.size, some e.sectionName⟩

/-- The characters in front of the name, if it is hidden. -/
def mark (e : ListingEntry) : List Char :=
  if e.hidden then hiddenMark ++ [' '] else []

/-- The columns after the flags. -/
def fields (width : Nat) (e : ListingEntry) : List Char :=
  e.sectionName.toList ++ '\t' :: (hexColumn width e.size ++ ' ' :: (e.mark ++ e.name.toList))

/-- A line is its address, its flags with a space on either side, and its other columns. -/
theorem line_eq (width : Nat) (e : ListingEntry) :
    e.line width = hexColumn width e.address ++ (' ' :: (e.flags ++ [' '])) ++ e.fields width := by
  simp only [line, fields, mark, List.append_assoc, List.cons_append, List.nil_append]

/-- What a table holds of an entry that was printed. -/
def Shows (e : ListingEntry) (s : Symbol) : Prop :=
  s.name = e.name ∧ s.offset.toNat = e.address ∧ s.size.toNat = e.size ∧
    s.sectionName = some e.sectionName

/-- An entry that can be printed shows its symbol and no other. -/
theorem shows_iff {e : ListingEntry} {s : Symbol} (he : e.Printable) : e.Shows s ↔ e.symbol = s := by
  constructor
  · rintro ⟨hname, hoffset, hsize, hsection⟩
    obtain ⟨name, offset, size, sectionName⟩ := s
    obtain rfl : name = e.name := hname
    obtain rfl : sectionName = some e.sectionName := hsection
    rw [symbol, ← hoffset, ← hsize, UInt32.ofNat_toNat, UInt32.ofNat_toNat]
  · rintro rfl
    exact ⟨rfl, UInt32.toNat_ofNat_of_lt he.address_fits, UInt32.toNat_ofNat_of_lt he.size_fits, rfl⟩

/-! ## Printed lines -/

/-- The words after the flags are section, size and name, the name perhaps after the hidden mark. -/
theorem hasWords_fields {e : ListingEntry} (he : e.WellShaped) (width : Nat) :
    HasWords (e.fields width) [e.sectionName.toList, hexColumn width e.size, e.name.toList] ∨
      HasWords (e.fields width)
        [e.sectionName.toList, hexColumn width e.size, ".hidden".toList, e.name.toList] := by
  -- the name is taken as a word even if it reads like the mark, which stands in front of it
  have hname := words_eq_singleton he.name_isWord
  have hfront : words (e.fields width)
      = e.sectionName.toList :: hexColumn width e.size :: words (e.mark ++ e.name.toList) := by
    rw [fields, words_append_blank _ he.section_isWord rfl,
      words_append_blank _ (isWord_hexColumn width e.size) rfl]
  rw [← words_eq_iff, ← words_eq_iff, hfront, mark]
  cases e.hidden with
  | false =>
      left
      rw [if_neg Bool.false_ne_true, List.nil_append, hname]
  | true =>
      right
      rw [if_pos rfl, List.append_assoc, List.singleton_append,
        words_append_blank _ isWord_hiddenMark rfl, hname]
      rfl

/-- The flags with the spaces around them are nine bytes. -/
theorem byteWidth_gap {e : ListingEntry} (he : e.WellShaped) :
    byteWidth (' ' :: (e.flags ++ [' '])) = 9 := by
  have hascii : ∀ c ∈ ' ' :: (e.flags ++ [' ']), c.toNat < 128 := by
    intro c hc
    rw [List.mem_cons, List.mem_append, List.mem_singleton] at hc
    rcases hc with rfl | hc | rfl
    · decide
    · exact he.flags_ascii c hc
    · decide
  rw [byteWidth_eq_length hascii, List.length_cons, List.length_append, he.flags_length]
  rfl

/-- The line of an entry whose size has 32 bits is the entry of its definition. -/
theorem isEntry_line {e : ListingEntry} (he : e.WellShaped) (hlt : e.size < UInt32.size)
    (width : Nat) : e.definition.IsEntry (e.line width) := by
  have hspace : ' ' ∉ hexColumn width e.address := (isWord_hexColumn width e.address).not_mem rfl
  have hsize : Spells 16 (hexColumn width e.size) e.definition.size.toNat := by
    have hword : e.definition.size.toNat = e.size := UInt32.toNat_ofNat_of_lt hlt
    rw [hword]
    exact spells_hexColumn width e.size
  exact ⟨_, _, _, _, _, _, e.line_eq width, hspace, rfl, byteWidth_gap he,
    spells_hexColumn width e.address, he.address_lt, hasWords_fields he width, hsize,
    String.ofList_toList.symm, congrArg some String.ofList_toList.symm⟩

/-- The line of an entry whose size needs more than 32 bits is no entry, whatever its address. -/
theorem not_isEntry_line {e : ListingEntry} (he : e.WellShaped) (hle : UInt32.size ≤ e.size)
    (width : Nat) (d : Definition) : ¬ d.IsEntry (e.line width) := by
  intro hentry
  have hspace : ' ' ∉ hexColumn width e.address := (isWord_hexColumn width e.address).not_mem rfl
  have hfields : dropBytes flagWidth (' ' :: (e.flags ++ [' '] ++ e.fields width))
      = some (e.fields width) :=
    dropBytes_eq_some_iff.2 ⟨' ' :: (e.flags ++ [' ']), rfl, byteWidth_gap he⟩
  have hcolumns := columns_eq_some_iff.2 (hasWords_fields he width)
  have hread := ofLine?_eq_some_iff.2 hentry
  -- the reader gets as far as the size column, which it would have to read
  rw [line_eq, List.append_assoc, List.cons_append, ofLine?_of_space hspace, hfields] at hread
  simp only [bind, Option.bind_eq_some_iff, toOption_eq_some_iff, Option.some.injEq] at hread
  obtain ⟨_, _, _, rfl, _, hcols, size, hsize, _⟩ := hread
  obtain rfl := Option.some.inj (hcolumns.symm.trans hcols)
  obtain ⟨hspells, hlt⟩ := (readNatural_eq_ok_iff (by decide) (by decide) (by decide)).1 hsize
  have hsame : size = e.size := hspells.eq (by decide) (by decide) (spells_hexColumn width e.size)
  rw [hsame] at hlt
  exact Nat.not_lt.2 hle hlt

/-- The line of an entry ends with its name, so that there is nothing to trim. -/
theorem trimsTo_line {e : ListingEntry} (he : e.WellShaped) (width : Nat) :
    TrimsTo (e.line width) (e.line width) := by
  rw [← trimEnd_eq_iff, line]
  exact trimEnd_append_word _ he.name_isWord

/-- The line of an entry is one line. -/
theorem newline_not_mem_line {e : ListingEntry} (he : e.WellShaped) (width : Nat) :
    '\n' ∉ e.line width := by
  have hmark : '\n' ∉ e.mark := by
    rw [mark]
    cases e.hidden <;> decide
  have haddress : '\n' ∉ hexColumn width e.address := (isWord_hexColumn width e.address).not_mem rfl
  have hsize : '\n' ∉ hexColumn width e.size := (isWord_hexColumn width e.size).not_mem rfl
  have hsection : '\n' ∉ e.sectionName.toList := he.section_isWord.not_mem rfl
  have hname : '\n' ∉ e.name.toList := he.name_isWord.not_mem rfl
  rw [line_eq, fields]
  simp [haddress, hsize, hsection, hname, hmark, he.flags_newline]

end ListingEntry

/-! ## Printed listings -/

/-- The text is empty or begins with a blank line. -/
def BeginsBlank (text : List Char) : Prop :=
  ∃ blank tail, (text = blank ∨ text = blank ++ '\n' :: tail) ∧ '\n' ∉ blank ∧
    ∀ c ∈ blank, isBlank c = true

/-- An empty text begins so. -/
theorem beginsBlank_nil : BeginsBlank [] :=
  ⟨[], [], .inl rfl, List.not_mem_nil, List.forall_mem_nil _⟩

/-- The first line of such a text is blank. -/
theorem BeginsBlank.trimsTo_head {text : List Char} (h : BeginsBlank text) :
    ∀ line, (lines text).head? = some line → TrimsTo line [] := by
  intro line hline
  obtain ⟨blank, tail, htext, hnewline, hblank⟩ := h
  have hhead : (lines text).head? = some blank := by
    rcases htext with rfl | rfl
    · rw [lines_eq_singleton hnewline]
      rfl
    · rw [lines_append_newline tail hnewline]
      rfl
  obtain rfl := Option.some.inj (hhead.symm.trans hline)
  exact trimsTo_nil_iff.2 hblank

section Printed

variable {width : Nat} {preamble : List (List Char)} {entries : List ListingEntry} {rest : List Char}

/-- The lines of a listing are those of which it was made. -/
theorem lines_listing (hpreamble : ∀ line ∈ preamble, '\n' ∉ line)
    (hentries : ∀ e ∈ entries, e.WellShaped) :
    lines (listing width preamble entries rest)
      = preamble ++ listingHeader :: (entries.map (·.line width) ++ lines rest) := by
  have hheader : ∀ line ∈ [listingHeader], '\n' ∉ line := by
    intro line hline
    rw [List.mem_singleton.1 hline]
    decide
  have hlines : ∀ line ∈ entries.map (·.line width), '\n' ∉ line := by
    intro line hline
    obtain ⟨e, he, rfl⟩ := List.mem_map.1 hline
    exact ListingEntry.newline_not_mem_line (hentries e he) width
  rw [listing, List.append_assoc, List.append_assoc, lines_unlines_append _ hpreamble,
    lines_unlines_append _ hheader, lines_unlines_append _ hlines, List.singleton_append]

/-- Printed lines are the entries of what was printed, but for entries whose size is too wide. -/
theorem entriesOf_map_line (hentries : ∀ e ∈ entries, e.WellShaped) :
    EntriesOf (entries.map (·.line width))
      ((entries.filter (·.size < UInt32.size)).map ListingEntry.definition) := by
  induction entries with
  | nil => exact .nil
  | cons e entries ih =>
      obtain ⟨he, hrest⟩ := List.forall_mem_cons.1 hentries
      have htrim := ListingEntry.trimsTo_line he width
      by_cases hlt : e.size < UInt32.size
      · rw [List.filter_cons, if_pos (decide_eq_true hlt)]
        exact .entry htrim (ListingEntry.isEntry_line he hlt width) (ih hrest)
      · rw [List.filter_cons, if_neg (by simpa using hlt)]
        exact .skip htrim (ListingEntry.not_isEntry_line he (Nat.not_lt.1 hlt) width) (ih hrest)

/-- A listing gives the definitions that were printed, but for those whose size is too wide. -/
theorem givesEntries_filter
    (hpreamble : ∀ line ∈ preamble, '\n' ∉ line ∧ trimEnd line ≠ listingHeader)
    (hentries : ∀ e ∈ entries, e.WellShaped) (hrest : BeginsBlank rest) :
    GivesEntries (listing width preamble entries rest)
      ((entries.filter (·.size < UInt32.size)).map ListingEntry.definition) := by
  have hvisible : ∀ line ∈ entries.map (·.line width), ¬ TrimsTo line [] := by
    intro line hline
    obtain ⟨e, he, rfl⟩ := List.mem_map.1 hline
    rw [← trimEnd_eq_iff, trimEnd_eq_iff.2 (ListingEntry.trimsTo_line (hentries e he) width),
      ListingEntry.line]
    exact List.append_ne_nil_of_right_ne_nil _ (hentries e he).name_isWord.1
  have hlines : HasLines (listing width preamble entries rest)
      (preamble ++ listingHeader :: (entries.map (·.line width) ++ lines rest)) :=
    lines_eq_iff.1 (lines_listing (fun line hline => (hpreamble line hline).1) hentries)
  have hbefore : ∀ line ∈ preamble, ¬ IsHeader line := by
    intro line hline
    rw [isHeader_iff]
    exact (hpreamble line hline).2
  have hheader : IsHeader listingHeader := isHeader_iff.2 (by decide)
  exact ⟨_, entries.map (·.line width), hlines, ⟨preamble, listingHeader, _, rfl, hbefore, hheader,
    lines rest, rfl, hvisible, hrest.trimsTo_head⟩, entriesOf_map_line hentries⟩

/-- A listing of entries that can be printed gives all their definitions. -/
theorem givesEntries_listing
    (hpreamble : ∀ line ∈ preamble, '\n' ∉ line ∧ trimEnd line ≠ listingHeader)
    (hentries : ∀ e ∈ entries, e.Printable) (hrest : BeginsBlank rest) :
    GivesEntries (listing width preamble entries rest) (entries.map ListingEntry.definition) := by
  have hall : entries.filter (·.size < UInt32.size) = entries :=
    List.filter_eq_self.2 fun e he => decide_eq_true (hentries e he).size_fits
  have hgives : GivesEntries (listing width preamble entries rest)
      ((entries.filter (·.size < UInt32.size)).map ListingEntry.definition) :=
    givesEntries_filter hpreamble (fun e he => (hentries e he).toWellShaped) hrest
  rwa [hall] at hgives

/-- A printed listing is read back: it gives the table of its symbols, in which the last entry of a name
counts.  The same table comes back when the newline at its end is lost. -/
theorem ofListing_listing
    (hpreamble : ∀ line ∈ preamble, '\n' ∉ line ∧ trimEnd line ≠ listingHeader)
    (hentries : ∀ e ∈ entries, e.Printable) (hrest : BeginsBlank rest) :
    SymbolTable.ofListing (listing width preamble entries rest)
        = .ok (.ofList (entries.map ListingEntry.symbol)) ∧
      (∀ text, text ++ ['\n'] = listing width preamble entries rest →
        SymbolTable.ofListing text = .ok (.ofList (entries.map ListingEntry.symbol))) ∧
      ∀ name s, (SymbolTable.ofList (entries.map ListingEntry.symbol)).get? name = some s ↔
        ∃ front e back, entries = front ++ e :: back ∧ e.name = name ∧
          (∀ later ∈ back, later.name ≠ name) ∧ e.Shows s := by
  -- no address is too wide to be printed, so that the definitions make a table
  have hread : SymbolTable.ofListing (listing width preamble entries rest)
      = .ok (.ofList (entries.map ListingEntry.symbol)) := by
    have hfits : ∀ d ∈ entries.map ListingEntry.definition, d.address < UInt32.size := by
      intro d hd
      obtain ⟨e, he, rfl⟩ := List.mem_map.1 hd
      exact (hentries e he).address_fits
    rw [ofListing_of_givesEntries (givesEntries_listing hpreamble hentries hrest),
      SymbolTable.ofDefinitions_eq_ok hfits, List.map_map]
    rfl
  refine ⟨hread, fun text htext => ?_, fun name s => ?_⟩
  · rw [← ofListing_concat_newline, htext, hread]
  · have hshows : ∀ e ∈ entries, ∀ u, e.Shows u ↔ e.symbol = u := by
      intro e he u
      exact ListingEntry.shows_iff (hentries e he)
    exact SymbolTable.get?_ofList_map_iff hshows

end Printed

/-- Entries of which two define one name, and two have the hidden mark as their name. -/
def repeatedEntries : List ListingEntry :=
  [⟨"start", 0xf0000, 4, ".text", "g     F".toList, false⟩,
    ⟨".hidden", 0xffffc, 0, "*ABS*", "l\t    O".toList, true⟩,
    ⟨".hidden", 0x10, 0, "*ABS*", "l      ".toList, false⟩,
    ⟨"start", 0xf1000, 8, ".text", "g     F".toList, true⟩]

/-- They are read back between a banner and relocation records. -/
theorem ofListing_listing_repeatedEntries :
    SymbolTable.ofListing
        (listing 8 ["csm.elf: file format elf32-i386".toList, []] repeatedEntries
          " \nRELOCATION RECORDS\n".toList)
      = .ok (.ofList (repeatedEntries.map ListingEntry.symbol)) := by
  refine (ofListing_listing ?_ (by decide) ?_).1
  · decide
  · exact ⟨[' '], "RELOCATION RECORDS\n".toList, .inr rfl, by decide,
      List.forall_mem_singleton.2 rfl⟩

end RomImage
