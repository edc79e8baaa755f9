/-
# Line ends of a listing

Blanks at the ends of lines do not matter to the reader of listings, whether they are spaces, tabs, other
white space or the carriage returns of another line end.  A text with such blanks put in (`LineEndsPadded`)
has the lines of the first one with blanks behind them, and the reader sees lines only as they are without
the blanks at their ends.
-/
import Mathlib.Data.List.Forall2
import RomImage.Proofs.ListingReading

namespace RomImage

variable {text text' : List Char}

/-! ## Blanks at line ends -/

/-- All characters are blanks, and none is a newline. -/
def IsPadding (blanks : List Char) : Prop :=
  ∀ c ∈ blanks, isBlank c = true ∧ c ≠ '\n'

instance (blanks : List Char) : Decidable (IsPadding blanks) :=
  decidable_of_iff (blanks.all (fun c => isBlank c && c != '\n') = true) (by simp [IsPadding])

theorem IsPadding.forall_isBlank {blanks : List Char} (h : IsPadding blanks) :
    ∀ c ∈ blanks, isBlank c = true :=
  fun c hc => (h c hc).1

theorem IsPadding.newline_not_mem {blanks : List Char} (h : IsPadding blanks) : '\n' ∉ blanks :=
  fun hmem => (h _ hmem).2 rfl

/-- The second text is the first one with blanks put in front of its newlines and at its end; at any of these
places there may be none. -/
inductive LineEndsPadded : List Char → List Char → Prop
  | done {blanks : List Char} : IsPadding blanks → LineEndsPadded [] blanks
  | newline {blanks text text' : List Char} : IsPadding blanks →
    LineEndsPadded text text' → LineEndsPadded ('\n' :: text) (blanks ++ '\n' :: text')
  | char {c : Char} {text text' : List Char} : c ≠ '\n' →
    LineEndsPadded text text' → LineEndsPadded (c :: text) (c :: text')

/-- The text with a carriage return in front of each newline. -/
def withReturns (text : List Char) : List Char :=
  text.flatMap fun c => if c = '\n' then ['\r', '\n'] else [c]

/-- A carriage return is one of the blanks that may be put in. -/
theorem lineEndsPadded_withReturns (text : List Char) : LineEndsPadded text (withReturns text) := by
  induction text with
  | nil => exact .done (List.forall_mem_nil _)
  | cons c text ih =>
      rw [withReturns, List.flatMap_cons]
      split
      · rename_i hnewline
        have hreturn : IsPadding ['\r'] := by decide
        rw [hnewline]
        exact .newline hreturn ih
      · rename_i hchar
        exact .char hchar ih

/-- The same characters in front of both texts, none of them a newline. -/
theorem LineEndsPadded.append_left {line : List Char} (hline : '\n' ∉ line)
    (h : LineEndsPadded text text') : LineEndsPadded (line ++ text) (line ++ text') := by
  induction line with
  | nil => exact h
  | cons c line ih =>
      rw [List.mem_cons, not_or] at hline
      exact .char (Ne.symm hline.1) (ih hline.2)

/-! ## Trimmed lines -/

/-- The second line is the first one with blanks behind it. -/
def LinePadded (line line' : List Char) : Prop :=
  ∃ blanks, line' = line ++ blanks ∧ ∀ c ∈ blanks, isBlank c = true

/-- One more character in front of the first line. -/
theorem forall₂_linePadded_modifyHead {c : Char} {ls ls' : List (List Char)}
    (h : List.Forall₂ LinePadded ls ls') :
    List.Forall₂ LinePadded (ls.modifyHead (List.cons c)) (ls'.modifyHead (List.cons c)) := by
  cases h with
  | nil => exact .nil
  | cons hfirst hrest =>
      obtain ⟨blanks, rfl, hblanks⟩ := hfirst
      exact .cons ⟨blanks, rfl, hblanks⟩ hrest

/-- Blanks put in at line ends stand behind the lines. -/
theorem LineEndsPadded.forall₂_lines (h : LineEndsPadded text text') :
    List.Forall₂ LinePadded (lines text) (lines text') := by
  induction h with
  | @done blanks hblanks =>
      rw [lines_eq_singleton hblanks.newline_not_mem]
      exact .cons ⟨blanks, rfl, hblanks.forall_isBlank⟩ .nil
  | @newline blanks text text' hblanks _ ih =>
      rw [lines_append_newline _ hblanks.newline_not_mem]
      exact .cons ⟨blanks, rfl, hblanks.forall_isBlank⟩ ih
  | @char c text text' hchar _ ih =>
      have hlines : ∀ rest, lines (c :: rest) = (lines rest).modifyHead (List.cons c) := by
        intro rest
        rw [lines, List.splitOn, List.splitOnP_cons_eq_if_modifyHead, if_neg (by simpa using hchar)]
        rfl
      rw [hlines, hlines]
      exact forall₂_linePadded_modifyHead ih

/-- Lines with blanks behind them are the same when they are trimmed. -/
theorem map_trimEnd_of_forall₂ {ls ls' : List (List Char)} (h : List.Forall₂ LinePadded ls ls') :
    ls'.map trimEnd = ls.map trimEnd := by
  induction h with
  | nil => rfl
  | cons hline _ ih =>
      obtain ⟨blanks, rfl, hblanks⟩ := hline
      rw [List.map_cons, List.map_cons, trimEnd_append_blanks _ hblanks, ih]

/-! ## The reader -/

/-- The reader sees lines as they are without the blanks at their ends. -/
theorem ofListing_congr (h : (lines text').map trimEnd = (lines text).map trimEnd) :
    SymbolTable.ofListing text' = SymbolTable.ofListing text := by
  rw [SymbolTable.ofListing, SymbolTable.ofListing, SymbolTable.ofLines, SymbolTable.ofLines,
    symbolSection, symbolSection, h]

/-- A listing with blanks put in front of its newlines and at its end is read as it is without them: to the
same table, or to the same error.  So it does not matter whether its lines end with a carriage return. -/
theorem ofListing_lineEndsPadded (text : List Char) :
    (∀ text', LineEndsPadded text text' →
      SymbolTable.ofListing text' = SymbolTable.ofListing text) ∧
    SymbolTable.ofListing (withReturns text) = SymbolTable.ofListing text := by
  have hpadded : ∀ text', LineEndsPadded text text' →
      SymbolTable.ofListing text' = SymbolTable.ofListing text :=
    fun text' h => ofListing_congr (map_trimEnd_of_forall₂ h.forall₂_lines)
  exact ⟨hpadded, hpadded _ (lineEndsPadded_withReturns text)⟩

/-- The entry of a symbol whose address is too wide. -/
def wideEntry : List Char :=
  "100000000 g       .text\t00000000 far".toList

/-- A listing of that symbol. -/
def wideListing : List Char :=
  listingHeader ++ '\n' :: wideEntry

/-- The same listing with a tab, a no-break space and a carriage return behind its header, and two spaces at
its end. -/
def paddedListing : List Char :=
  listingHeader ++ (['\t', '\u00a0', '\r'] ++ '\n' :: (wideEntry ++ [' ', ' ']))

/-- Both are refused for the address. -/
theorem ofListing_lineEndsPadded_wideListing :
    LineEndsPadded wideListing paddedListing ∧
      SymbolTable.ofListing paddedListing = SymbolTable.ofListing wideListing ∧
      SymbolTable.ofListing wideListing = .error (.addressTooWide "far" 0x100000000) := by
  have hentry : LineEndsPadded (wideEntry ++ []) (wideEntry ++ [' ', ' ']) :=
    .append_left (by decide) (.done (by decide))
  rw [List.append_nil] at hentry
  have hpadded : LineEndsPadded wideListing paddedListing :=
    .append_left (by decide) (.newline (by decide) hentry)
  exact ⟨hpadded, (ofListing_lineEndsPadded wideListing).1 paddedListing hpadded, rfl⟩

end RomImage
