/-
# What a listing says

The meaning of a listing, said without its reader.  The symbol section of a text is what stands between
the first header and the next blank line (`IsSymbolSection`); the definitions of a text are the entries
among these lines (`GivesEntries`); and they are read as a table, in which the last definition of a name
counts, unless an address is too wide (`ReadsAs`).  Reading a listing gives exactly what it says.
-/
import RomImage.Proofs.ListingEntries
import RomImage.Proofs.TableContents

namespace RomImage

/-! ## The symbol section -/

/-- The line opens a symbol section: it has the words of the header, and perhaps blanks behind them. -/
def IsHeader (line : List Char) : Prop :=
  TrimsTo line "SYMBOL TABLE:".toList

/-- The lines `body` are those of `ls` in front of the first blank line, or all if none is blank. -/
def UpToBlank (ls body : List (List Char)) : Prop :=
  ∃ after, ls = body ++ after ∧ (∀ line ∈ body, ¬ TrimsTo line []) ∧
    ∀ line, after.head? = some line → TrimsTo line []

/-- The lines `body` are the symbol section of `ls`: those after the first header, up to a blank line. -/
def IsSymbolSection (ls body : List (List Char)) : Prop :=
  ∃ before header rest, ls = before ++ header :: rest ∧ (∀ line ∈ before, ¬ IsHeader line) ∧
    IsHeader header ∧ UpToBlank rest body

/-- The reader knows a header by its trimmed form. -/
theorem isHeader_iff {line : List Char} : IsHeader line ↔ trimEnd line = listingHeader :=
  trimEnd_eq_iff.symm

/-- Every sequence of lines has a front that ends at its first blank line. -/
theorem exists_upToBlank (ls : List (List Char)) : ∃ body, UpToBlank ls body := by
  induction ls with
  | nil =>
      refine ⟨[], [], rfl, List.forall_mem_nil _, fun line hline => ?_⟩
      cases hline
  | cons line ls ih =>
      by_cases hblank : TrimsTo line []
      · refine ⟨[], line :: ls, rfl, List.forall_mem_nil _, fun l hl => ?_⟩
        obtain rfl := Option.some.inj hl
        exact hblank
      · obtain ⟨body, after, rfl, hbody, hafter⟩ := ih
        exact ⟨line :: body, after, rfl, List.forall_mem_cons.2 ⟨hblank, hbody⟩, hafter⟩

/-- Lines lack a header or have a symbol section. -/
theorem missing_or_isSymbolSection (ls : List (List Char)) :
    (∀ line ∈ ls, ¬ IsHeader line) ∨ ∃ body, IsSymbolSection ls body := by
  induction ls with
  | nil => exact .inl (List.forall_mem_nil _)
  | cons line ls ih =>
      by_cases hheader : IsHeader line
      · -- the first line opens the section, whether or not another header follows
        obtain ⟨body, hbody⟩ := exists_upToBlank ls
        exact .inr ⟨body, [], line, ls, rfl, List.forall_mem_nil _, hheader, hbody⟩
      · rcases ih with hmissing | ⟨body, before, header, rest, rfl, hbefore, hopens, hbody⟩
        · exact .inl (List.forall_mem_cons.2 ⟨hheader, hmissing⟩)
        · exact .inr ⟨body, line :: before, header, rest, rfl,
            List.forall_mem_cons.2 ⟨hheader, hbefore⟩, hopens, hbody⟩

/-- Lines in front of a header are dropped. -/
theorem dropWhile_ne_header {before : List (List Char)} (ls : List (List Char))
    (h : ∀ line ∈ before, ¬ IsHeader line) :
    ((before ++ ls).map trimEnd).dropWhile (· != listingHeader)
      = (ls.map trimEnd).dropWhile (· != listingHeader) := by
  rw [List.map_append, List.dropWhile_append_of_pos]
  intro line hline
  obtain ⟨l, hl, rfl⟩ := List.mem_map.1 hline
  rw [bne_iff_ne]
  exact fun htrim => h l hl (isHeader_iff.2 htrim)

/-- Without a header there is no symbol section. -/
theorem symbolSection_eq_none {ls : List (List Char)} (h : ∀ line ∈ ls, ¬ IsHeader line) :
    symbolSection ls = none := by
  have hdrop := dropWhile_ne_header [] h
  rw [List.append_nil] at hdrop
  rw [symbolSection, hdrop]
  rfl

/-- The lines of a symbol section are taken, trimmed. -/
theorem symbolSection_eq_some {ls body : List (List Char)} (h : IsSymbolSection ls body) :
    symbolSection ls = some (body.map trimEnd) := by
  obtain ⟨before, header, rest, rfl, hbefore, hheader, after, rfl, hbody, hafter⟩ := h
  have hvisible : ∀ line ∈ body.map trimEnd, (!line.isEmpty) = true := by
    intro line hline
    obtain ⟨l, hl, rfl⟩ := List.mem_map.1 hline
    rw [Bool.not_eq_true', List.isEmpty_eq_false_iff]
    exact fun htrim => hbody l hl (trimEnd_eq_iff.1 htrim)
  have hend : (after.map trimEnd).takeWhile (!·.isEmpty) = [] := by
    cases after with
    | nil => rfl
    | cons line after =>
        rw [List.map_cons, trimEnd_eq_iff.2 (hafter line rfl)]
        rfl
  have hdrop : ((header :: (body ++ after)).map trimEnd).dropWhile (· != listingHeader)
      = listingHeader :: (body.map trimEnd ++ after.map trimEnd) := by
    rw [List.map_cons, isHeader_iff.1 hheader, List.dropWhile_cons_of_neg (by simp),
      List.map_append]
  rw [symbolSection, dropWhile_ne_header _ hbefore, hdrop]
  dsimp only
  rw [List.takeWhile_append_of_pos hvisible, hend, List.append_nil]

/-- An empty line at the end does not change the symbol section. -/
theorem IsSymbolSection.concat_nil {ls body : List (List Char)} (h : IsSymbolSection ls body) :
    IsSymbolSection (ls ++ [[]]) body := by
  obtain ⟨before, header, rest, rfl, hbefore, hheader, after, rfl, hbody, hafter⟩ := h
  refine ⟨before, header, body ++ (after ++ [[]]), by simp, hbefore, hheader, after ++ [[]], rfl,
    hbody, fun line hline => ?_⟩
  -- if nothing followed the section, the empty line is what ends it now
  cases after with
  | nil =>
      obtain rfl := Option.some.inj hline
      exact trimEnd_eq_iff.1 rfl
  | cons first after => exact hafter line hline

/-! ## The definitions of a text -/

/-- No line of the text opens a symbol section. -/
def LacksHeader (text : List Char) : Prop :=
  ∃ ls, HasLines text ls ∧ ∀ line ∈ ls, ¬ IsHeader line

/-- The definitions are those of the entries in the symbol section of the text, in order. -/
def GivesEntries (text : List Char) (ds : List Definition) : Prop :=
  ∃ ls body, HasLines text ls ∧ IsSymbolSection ls body ∧ EntriesOf body ds

/-- The definitions of a text are those that the reader finds in its symbol section. -/
theorem givesEntries_iff {text : List Char} {ds : List Definition} :
    GivesEntries text ds ↔
      (symbolSection (lines text)).map (·.filterMap Definition.ofLine?) = some ds := by
  constructor
  · rintro ⟨ls, body, hlines, hbody, hentries⟩
    rw [lines_eq_iff.2 hlines, symbolSection_eq_some hbody, Option.map_some,
      entriesOf_iff.1 hentries]
  · intro h
    rcases missing_or_isSymbolSection (lines text) with hmissing | ⟨body, hbody⟩
    · rw [symbolSection_eq_none hmissing] at h
      cases h
    · rw [symbolSection_eq_some hbody, Option.map_some, Option.some.injEq] at h
      exact ⟨lines text, body, lines_eq_iff.1 rfl, hbody, entriesOf_iff.2 h⟩

/-- A text lacks a header or gives definitions, perhaps none. -/
theorem missing_or_givesEntries (text : List Char) :
    LacksHeader text ∨ ∃ ds, GivesEntries text ds := by
  have hlines : HasLines text (lines text) := lines_eq_iff.1 rfl
  rcases missing_or_isSymbolSection (lines text) with hmissing | ⟨body, hbody⟩
  · exact .inl ⟨lines text, hlines, hmissing⟩
  · exact .inr ⟨_, lines text, body, hlines, hbody, entriesOf_iff.2 rfl⟩

/-- A text that gives definitions has a header. -/
theorem GivesEntries.not_lacksHeader {text : List Char} {ds : List Definition}
    (h : GivesEntries text ds) : ¬ LacksHeader text := by
  rintro ⟨ls, hlines, hmissing⟩
  rw [givesEntries_iff, lines_eq_iff.2 hlines, symbolSection_eq_none hmissing] at h
  cases h

/-- A text without a header is refused. -/
theorem ofListing_of_missing {text : List Char} (h : LacksHeader text) :
    SymbolTable.ofListing text = .error .missingListing := by
  obtain ⟨ls, hlines, hmissing⟩ := h
  rw [SymbolTable.ofListing, lines_eq_iff.2 hlines, SymbolTable.ofLines,
    symbolSection_eq_none hmissing]

/-- The definitions of a text decide what it is read as. -/
theorem ofListing_of_givesEntries {text : List Char} {ds : List Definition}
    (h : GivesEntries text ds) : SymbolTable.ofListing text = SymbolTable.ofDefinitions ds := by
  obtain ⟨ls, body, hlines, hbody, hentries⟩ := h
  rw [SymbolTable.ofListing, lines_eq_iff.2 hlines, SymbolTable.ofLines, symbolSection_eq_some hbody]
  dsimp only
  rw [entriesOf_iff.1 hentries]

/-- A text is read in the same way whether its last line is ended or not. -/
theorem ofListing_concat_newline (text : List Char) :
    SymbolTable.ofListing (text ++ ['\n']) = SymbolTable.ofListing text := by
  have hlonger : HasLines (text ++ ['\n']) (lines text ++ [[]]) :=
    lines_eq_iff.1 (lines_concat_newline text)
  rcases missing_or_isSymbolSection (lines text) with hmissing | ⟨body, hbody⟩
  · have hmissing' : ∀ line ∈ lines text ++ [[]], ¬ IsHeader line := by
      intro line hline
      rw [List.mem_append, List.mem_singleton] at hline
      rcases hline with hline | rfl
      · exact hmissing line hline
      · rw [isHeader_iff]
        decide
    rw [ofListing_of_missing ⟨_, lines_eq_iff.1 rfl, hmissing⟩,
      ofListing_of_missing ⟨_, hlonger, hmissing'⟩]
  · have hentries : EntriesOf body ((body.map trimEnd).filterMap Definition.ofLine?) :=
      entriesOf_iff.2 rfl
    rw [ofListing_of_givesEntries ⟨_, body, lines_eq_iff.1 rfl, hbody, hentries⟩,
      ofListing_of_givesEntries ⟨_, body, hlonger, hbody.concat_nil, hentries⟩]

/-! ## What a text is read as -/

/-- What a text says: that a header is missing, that an address is too wide, or a table.  It is the first
address too wide that counts, but the last definition of a name. -/
inductive ReadsAs (text : List Char) : Except SymbolError SymbolTable → Prop
  | missing : LacksHeader text → ReadsAs text (.error .missingListing)
  | tooWide {front back : List Definition} {d : Definition} :
    GivesEntries text (front ++ d :: back) → (∀ e ∈ front, e.address < UInt32.size) →
    UInt32.size ≤ d.address → ReadsAs text (.error (.addressTooWide d.name d.address))
  | table {ds : List Definition} {t : SymbolTable} :
    GivesEntries text ds → (∀ d ∈ ds, d.address < UInt32.size) →
    (∀ name s, t.get? name = some s ↔
      ∃ front d back, ds = front ++ d :: back ∧ d.name = name ∧ (∀ e ∈ back, e.name ≠ name) ∧
        d.Defines s) →
    ReadsAs text (.ok t)

/-- A text says what it is read as. -/
theorem readsAs_ofListing (text : List Char) : ReadsAs text (SymbolTable.ofListing text) := by
  rcases missing_or_givesEntries text with hmissing | ⟨ds, hgives⟩
  · rw [ofListing_of_missing hmissing]
    exact .missing hmissing
  · rw [ofListing_of_givesEntries hgives]
    rcases Definition.all_lt_or_first_le ds with hfits | ⟨front, d, back, rfl, hfront, hd⟩
    · rw [SymbolTable.ofDefinitions_eq_ok hfits]
      exact .table hgives hfits fun name s => SymbolTable.get?_ofList_cut_iff hfits
    · rw [SymbolTable.ofDefinitions_eq_error hfront hd]
      exact .tooWide hgives hfront hd

/-- A text is read as what it says. -/
theorem ReadsAs.ofListing_eq {text : List Char} {result : Except SymbolError SymbolTable}
    (h : ReadsAs text result) : SymbolTable.ofListing text = result := by
  cases h with
  | missing hmissing => exact ofListing_of_missing hmissing
  | tooWide hgives hfront hd =>
      rw [ofListing_of_givesEntries hgives, SymbolTable.ofDefinitions_eq_error hfront hd]
  | table hgives hfits htable =>
      rw [ofListing_of_givesEntries hgives, SymbolTable.ofDefinitions_eq_ok hfits]
      congr 1
      apply SymbolTable.ext_get?
      intro name
      apply Option.ext
      intro s
      rw [SymbolTable.get?_ofList_cut_iff hfits, htable]

/-- A listing is read exactly as what it says, so that nothing but its definitions counts: neither other
lines of the symbol section, nor what stands in front of its header or after its end. -/
theorem ofListing_eq_iff_readsAs (text : List Char) :
    (∀ result, SymbolTable.ofListing text = result ↔ ReadsAs text result) ∧
    ∀ text', (∀ ds, GivesEntries text ds ↔ GivesEntries text' ds) →
      SymbolTable.ofListing text' = SymbolTable.ofListing text := by
  refine ⟨fun result => ⟨?_, ReadsAs.ofListing_eq⟩, fun text' hsame => ?_⟩
  · rintro rfl
    exact readsAs_ofListing text
  · -- a text without a header gives no definitions, not even none, and neither does the other then
    rcases missing_or_givesEntries text with hmissing | ⟨ds, hgives⟩
    · have hmissing' : LacksHeader text' := by
        rcases missing_or_givesEntries text' with h | ⟨ds, hgives⟩
        · exact h
        · exact absurd hmissing ((hsame ds).2 hgives).not_lacksHeader
      rw [ofListing_of_missing hmissing, ofListing_of_missing hmissing']
    · rw [ofListing_of_givesEntries hgives, ofListing_of_givesEntries ((hsame ds).1 hgives)]

/-- A listing of two symbols, one of them defined twice, with no other lines. -/
def bareListing : List Char :=
  "SYMBOL TABLE:\n00000010 g     F .text\t00000004 start\n".toList ++
    "00000028 l       .data\t00000008 end\n00000020 l       .data\t00000008 .hidden end\n".toList

/-- The same symbols among other lines: a banner, lines that are no entries, one of them for its size, and
entries after a blank line.  The columns are set apart by other blanks, the numerals are as short as they
may be, and one of the flags is a character of three bytes. -/
def busyListing : List Char :=
  "rom.elf: file format elf32\n\nSYMBOL TABLE:\t\r\n10 g     F .text\t4 start\r\n".toList ++
    "no entry\n28 l  \u20ac  .data\u00a008\u2003end \n28 l       .data 100000000 end\n".toList ++
    "SYMBOL TABLE:\n+20 l       .data +8 .hidden end\u3000\n \u2003\n30 l       .data 8 end\n".toList

/-- What both listings define, in order. -/
def listedDefinitions : List Definition :=
  [⟨"start", 0x10, 4, some ".text"⟩, ⟨"end", 0x28, 8, some ".data"⟩,
    ⟨"end", 0x20, 8, some ".data"⟩]

/-- Other lines do not change what the two symbols are read as: each name is filed with its last
definition. -/
theorem ofListing_busyListing :
    GivesEntries bareListing listedDefinitions ∧ GivesEntries busyListing listedDefinitions ∧
      (∀ ds, GivesEntries bareListing ds ↔ GivesEntries busyListing ds) ∧
      SymbolTable.ofListing busyListing = SymbolTable.ofListing bareListing ∧
      ReadsAs busyListing
        (.ok (.ofList [⟨"start", 0x10, 4, some ".text"⟩, ⟨"end", 0x20, 8, some ".data"⟩])) := by
  have hbare : (symbolSection (lines bareListing)).map (·.filterMap Definition.ofLine?)
      = some listedDefinitions := by
    decide +kernel
  have hbusy : (symbolSection (lines busyListing)).map (·.filterMap Definition.ofLine?)
      = some listedDefinitions := by
    decide +kernel
  have hgives : GivesEntries busyListing listedDefinitions := givesEntries_iff.2 hbusy
  have hsame : ∀ ds, GivesEntries bareListing ds ↔ GivesEntries busyListing ds := by
    intro ds
    rw [givesEntries_iff, givesEntries_iff, hbare, hbusy]
  have htable : SymbolTable.ofListing busyListing
      = .ok (.ofList [⟨"start", 0x10, 4, some ".text"⟩, ⟨"end", 0x20, 8, some ".data"⟩]) := by
    rw [ofListing_of_givesEntries hgives]
    decide
  exact ⟨givesEntries_iff.2 hbare, hgives, hsame,
    (ofListing_eq_iff_readsAs bareListing).2 busyListing hsame,
    ((ofListing_eq_iff_readsAs busyListing).1 _).1 htable⟩

end RomImage
