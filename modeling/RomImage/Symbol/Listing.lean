/-
# Symbol listings

The text form of an object's symbols.  Its symbol section begins after a line that reads
`SYMBOL TABLE:` and ends at the first blank line; each entry has columns

    000f0000 g       .text	00000000 code32flat_start

for address, flags, section, size and name, and may mark the name by `.hidden`.  Lines of another
shape are passed over.

Listings are printed as tools print them: lines before the symbol section, the line that opens it, one
line for each entry, and possibly more after a blank line.
-/
import RomImage.Symbol.Table

namespace RomImage

/-! ## Reading -/

/-- The line that opens the symbol section. -/
def listingHeader : List Char :=
  "SYMBOL TABLE:".toList

/-- The word that may stand in front of a name. -/
def hiddenMark : List Char :=
  ".hidden".toList

/-- The width in bytes of the flag column with the blanks around it. -/
def flagWidth : Nat := 9

/-- The text after its first `n` bytes, unless it ends before or a character lies across that
place. -/
def dropBytes : Nat → List Char → Option (List Char)
  | 0, cs => some cs
  | _ + 1, [] => none
  | n + 1, c :: cs => if c.utf8Size ≤ n + 1 then dropBytes (n + 1 - c.utf8Size) cs else none
termination_by structural _ cs => cs

/-- The section, size and name columns, told apart by blanks. -/
def columns (cs : List Char) : Option (List Char × List Char × List Char) :=
  match words cs with
  | [sect, size, name] => some (sect, size, name)
  | [sect, size, mark, name] => if mark = hiddenMark then some (sect, size, name) else none
  | _ => none

/-- The definition that a line without blanks at its end gives, if it has the shape of an entry. -/
def Definition.ofLine? (line : List Char) : Option Definition :=
  match line.dropWhile (· != ' ') with
  | [] => none
  | rest@(_ :: _) => do
    let address ← (readNatural 16 UInt64.size (line.takeWhile (· != ' '))).toOption
    let fields ← dropBytes flagWidth rest
    let (sect, sizeText, name) ← columns fields
    let size ← (readNatural 16 UInt32.size sizeText).toOption
    some ⟨String.ofList name, address, UInt32.ofNat size, some (String.ofList sect)⟩

/-- The lines of the symbol section, without the blanks at their ends. -/
def symbolSection (ls : List (List Char)) : Option (List (List Char)) :=
  match (ls.map trimEnd).dropWhile (· != listingHeader) with
  | [] => none
  | _ :: rest => some (rest.takeWhile (!·.isEmpty))

/-- The table that the lines of a listing give. -/
def SymbolTable.ofLines (ls : List (List Char)) : Except SymbolError SymbolTable :=
  match symbolSection ls with
  | none => .error .missingListing
  | some entries => ofDefinitions (entries.filterMap Definition.ofLine?)

/-- The table that a listing gives. -/
def SymbolTable.ofListing (text : List Char) : Except SymbolError SymbolTable :=
  ofLines (lines text)

/-! ## Printing -/

/-- An entry of a listing, with the columns that a table does not keep. -/
structure ListingEntry where
  name : String
  address : Nat
  size : Nat
  sectionName : String
  /-- The flag characters between the address and the section. -/
  flags : List Char
  /-- Whether the name is marked as hidden. -/
  hidden : Bool
  deriving DecidableEq, Repr

/-- The line of an entry, its numbers in columns of the given width. -/
def ListingEntry.line (width : Nat) (e : ListingEntry) : List Char :=
  hexColumn width e.address ++ [' '] ++ e.flags ++ [' '] ++ e.sectionName.toList ++ ['\t'] ++
    hexColumn width e.size ++ [' '] ++ (if e.hidden then hiddenMark ++ [' '] else []) ++
    e.name.toList

/-- Lines, each ended by a newline. -/
def unlines (ls : List (List Char)) : List Char :=
  ls.flatMap (· ++ ['\n'])

/-- The listing of some entries, after the lines of a preamble and in front of what follows. -/
def listing (width : Nat) (preamble : List (List Char)) (entries : List ListingEntry)
    (rest : List Char) : List Char :=
  unlines preamble ++ unlines [listingHeader] ++ unlines (entries.map (·.line width)) ++ rest

end RomImage
