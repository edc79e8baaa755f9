/-
# Lines decoded one by one

A listing may be split at its newline bytes before it is decoded: no flaw goes beyond the end of its line,
so that the lines of the decoded file are the decoded lines of the file (`lines_decodeLossy`).  A reader
that takes up one such line after another (`LineReader`) therefore comes to the same table, or to the same
error, as the one that decodes the whole file first.
-/
import RomImage.Proofs.ListingReading
import RomImage.Proofs.Utf8Flaws
import RomImage.Object.File

namespace RomImage

/-! ## Newlines -/

/-- The byte that ends a line. -/
def newlineByte : UInt8 := 0x0a

/-- The lines of a file: its pieces between newline bytes. -/
def byteLines (file : Bytes) : List Bytes :=
  file.splitOn newlineByte

/-- The text shows the bytes, each flaw as U+FFFD. -/
def ShownAs (bytes : Bytes) (text : List Char) : Prop :=
  ∃ units, DecodesTo bytes units ∧ text = units.map (·.getD '\uFFFD')

/-- Lossy decoding shows the bytes. -/
theorem decodeLossy_eq_iff {bytes : Bytes} {text : List Char} :
    decodeLossy bytes = text ↔ ShownAs bytes text := by
  constructor
  · rintro rfl
    exact ⟨_, utf8Units_eq_iff.1 rfl, rfl⟩
  · rintro ⟨units, hunits, rfl⟩
    rw [decodeLossy, utf8Units_eq_iff.2 hunits]

/-- A newline byte ends what stands in front of it, whatever state the decoder is in. -/
theorem unitsFrom_append_newline (s : Utf8State) (line rest : Bytes) :
    s.unitsFrom (line ++ newlineByte :: rest)
      = s.unitsFrom line ++ some '\n' :: Utf8State.start.unitsFrom rest := by
  induction line generalizing s with
  | nil =>
      rw [List.nil_append, Utf8State.unitsFrom_cons, Utf8State.feed_ascii s (by decide),
        Utf8State.unitsFrom_nil, List.append_assoc]
      rfl
  | cons b line ih =>
      rw [List.cons_append, Utf8State.unitsFrom_cons, Utf8State.unitsFrom_cons, ih, List.append_assoc]

/-- A line is decoded apart from what follows its newline byte. -/
theorem decodeLossy_append_newline (line rest : Bytes) :
    decodeLossy (line ++ newlineByte :: rest) = decodeLossy line ++ '\n' :: decodeLossy rest := by
  simp only [decodeLossy, utf8Units_eq_unitsFrom, unitsFrom_append_newline, List.map_append,
    List.map_cons, Option.getD_some]

/-- Only a newline byte is decoded to a newline. -/
theorem newline_not_mem_decodeLossy {line : Bytes} (h : newlineByte ∉ line) :
    '\n' ∉ decodeLossy line := by
  obtain ⟨units, hunits, htext⟩ := decodeLossy_eq_iff.1 (rfl : decodeLossy line = decodeLossy line)
  rw [htext]
  clear htext
  induction hunits with
  | nil => exact List.not_mem_nil
  | @char c bytes units _ ih =>
      rw [List.mem_append, not_or] at h
      rw [List.map_cons, List.mem_cons, not_or]
      refine ⟨?_, ih h.2⟩
      rintro rfl
      exact h.1 (List.mem_singleton_self newlineByte)
  | flaw _ _ ih =>
      rw [List.mem_append, not_or] at h
      rw [List.map_cons, List.mem_cons, not_or]
      exact ⟨by decide, ih h.2⟩

/-- The lines of a decoded file are the decoded lines of the file. -/
theorem lines_decodeLossy (file : Bytes) :
    lines (decodeLossy file) = (byteLines file).map decodeLossy := by
  induction hlen : file.length using Nat.strong_induction_on generalizing file with
  | _ n ih =>
    by_cases hnewline : newlineByte ∈ file
    · obtain ⟨line, rest, rfl, hline⟩ := List.eq_append_cons_of_mem hnewline
      have hrest := ih rest.length (by rw [← hlen]; simp; omega) rest rfl
      have hpieces : byteLines (line ++ newlineByte :: rest) = line :: byteLines rest :=
        splitOn_append_cons rest hline
      rw [decodeLossy_append_newline, lines_append_newline _ (newline_not_mem_decodeLossy hline), hrest,
        hpieces, List.map_cons]
    · have hpieces : byteLines file = [file] := List.splitOn_eq_singleton hnewline
      rw [lines_eq_singleton (newline_not_mem_decodeLossy hnewline), hpieces, List.map_singleton]

/-! ## A reader of one line after another -/

/-- Where a reader stands that takes up the lines of a listing one after another. -/
inductive LineReader
  /-- No line has opened the symbol section yet. -/
  | searching
  /-- The symbol section is open, and its entries so far make this table. -/
  | reading (table : SymbolTable)
  /-- No further line counts. -/
  | done (result : Except SymbolError SymbolTable)

namespace LineReader

/-- What the reader makes of one more line. -/
def step : LineReader → List Char → LineReader
  | searching, line => if trimEnd line = listingHeader then reading .empty else searching
  | reading table, line =>
    if trimEnd line = [] then done (.ok table)
    else match Definition.ofLine? (trimEnd line) with
      | none => reading table
      | some d => match d.symbol with
        | .ok s => reading (table.insert s)
        | .error e => done (.error e)
  | done result, _ => done result

/-- What the reader tells when there are no more lines. -/
def result : LineReader → Except SymbolError SymbolTable
  | searching => .error .missingListing
  | reading table => .ok table
  | done result => result

variable {ls : List (List Char)}

/-- A reader that is done passes over all lines. -/
theorem foldl_step_done (result : Except SymbolError SymbolTable) (ls : List (List Char)) :
    ls.foldl step (done result) = done result := by
  induction ls with
  | nil => rfl
  | cons line ls ih => exact ih

/-- In the symbol section the reader files the entries up to a blank line, or reports the first address
that is too wide. -/
theorem result_foldl_step_reading (table : SymbolTable) (ls : List (List Char)) :
    (ls.foldl step (reading table)).result
      = ((((ls.map trimEnd).takeWhile (!·.isEmpty)).filterMap Definition.ofLine?).mapM
          Definition.symbol).map (·.foldl SymbolTable.insert table) := by
  induction ls generalizing table with
  | nil => rfl
  | cons line ls ih =>
      rw [List.foldl_cons, List.map_cons, step]
      by_cases hblank : trimEnd line = []
      · rw [if_pos hblank, foldl_step_done, hblank]
        rfl
      · rw [if_neg hblank, List.takeWhile_cons_of_pos (by simpa using hblank)]
        cases hline : Definition.ofLine? (trimEnd line) with
        | none => rw [List.filterMap_cons_none hline, ← ih]
        | some d =>
            rw [List.filterMap_cons_some hline, List.mapM_cons]
            dsimp only
            cases hsymbol : d.symbol with
            | error e =>
                rw [foldl_step_done]
                rfl
            | ok s =>
                dsimp only
                rw [ih]
                cases (((ls.map trimEnd).takeWhile (!·.isEmpty)).filterMap
                  Definition.ofLine?).mapM Definition.symbol <;> rfl

/-- The reader comes to the table or the error of all the lines. -/
theorem result_foldl_step_searching (ls : List (List Char)) :
    (ls.foldl step searching).result = SymbolTable.ofLines ls := by
  induction ls with
  | nil => rfl
  | cons line ls ih =>
      rw [List.foldl_cons, step]
      by_cases hheader : trimEnd line = listingHeader
      · rw [if_pos hheader, result_foldl_step_reading, SymbolTable.ofLines, symbolSection,
          List.map_cons, hheader, List.dropWhile_cons_of_neg (by simp)]
        rfl
      · rw [if_neg hheader, ih, SymbolTable.ofLines, SymbolTable.ofLines, symbolSection, symbolSection,
          List.map_cons, List.dropWhile_cons_of_pos (by simpa using hheader)]

end LineReader

/-- What a file is read as, one line after another, each decoded on its own. -/
def readByLines (file : Bytes) : Except SymbolError SymbolTable :=
  (((byteLines file).map decodeLossy).foldl LineReader.step .searching).result

/-- A file that is no object file is read line by line: the lines of the decoded file are the lines of the
file decoded on their own, each flaw shown as U+FFFD within its line; and a reader that takes up one of
them after another comes to the same table or the same error. -/
theorem ofSource_eq_readByLines {file : Bytes} (hmagic : ¬ objectMagic <+: file) :
    SymbolTable.ofSource file = readByLines file ∧
    lines (decodeLossy file) = (byteLines file).map decodeLossy ∧
    ∀ line ∈ byteLines file, ∀ text, decodeLossy line = text ↔ ShownAs line text := by
  refine ⟨?_, lines_decodeLossy file, fun line _ text => decodeLossy_eq_iff⟩
  rw [SymbolTable.ofSource, if_neg (by rwa [List.isPrefixOf_iff_prefix]), SymbolTable.ofListing,
    readByLines, LineReader.result_foldl_step_searching, lines_decodeLossy]

/-- A listing with a character broken off in front of a newline, and one inside a name. -/
def flawedListing : Bytes :=
  encodeUtf8 "SYMBOL TABLE:\n00000010 g     F .text\t00000004 start".toList ++ [0xe2, 0x82, 0x0a] ++
    encodeUtf8 "00000020 l       .data\t00000008 ".toList ++ [0xf0, 0x9f, 0x65, 0xff, 0x0a]

/-- Each line keeps its own flaws: the names of both symbols are read, and no line end is lost. -/
theorem ofSource_eq_readByLines_flawedListing :
    ¬ objectMagic <+: flawedListing ∧
      SymbolTable.ofSource flawedListing = readByLines flawedListing ∧
      readByLines flawedListing
        = .ok (.ofList [⟨"start\uFFFD", 0x10, 4, some ".text"⟩,
            ⟨"\uFFFDe\uFFFD", 0x20, 8, some ".data"⟩]) := by
  have hmagic : ¬ objectMagic <+: flawedListing := by decide
  exact ⟨hmagic, (ofSource_eq_readByLines hmagic).1, by decide +kernel⟩

end RomImage
