/-
# The compatibility table

A table in the payload by which other firmware finds an entry point.  Its head has sixteen bytes: the
balance byte at 4, the length of the whole table at 5 and the entry point, relative to the ROM window,
at 14.  Amending it sets the entry point and then balances the length that the table declares.
-/
import RomImage.Bytes
import RomImage.Log
import RomImage.Rom.CodeRange

namespace RomImage

/-- Why a compatibility table is refused. -/
inductive CompatError
  /-- The table, or its head, does not lie inside the image. -/
  | tableOutOfRange (table len imageLen : Nat)
  /-- The entry point is not in the 64 KiB from the base of the window on. -/
  | entryOutOfRange (entry base : UInt32)
  /-- The start of the code is not defined. -/
  | missingSymbol (missing : MissingSymbol)
  /-- A precondition of an edit is broken. -/
  | fault (broken : Fault)
  deriving DecidableEq, Repr

/-- The wording of the refusals that have one. -/
def CompatError.message : CompatError → Option String
  | tableOutOfRange table len imageLen =>
    some ("CSM table at " ++ hex table ++ " (+" ++ hex len ++ ") lies outside the " ++
      hex imageLen ++ "-byte image")
  | entryOutOfRange entry base =>
    some ("CSM entry point " ++ hex entry.toNat ++ " is not within 64KiB of " ++ hex base.toNat)
  | missingSymbol missing => some missing.message
  | fault broken => broken.message

namespace CompatTable

/-- The place of the balance byte in the table. -/
def balanceField : Nat := 4

/-- The place of the table's length in the table. -/
def lengthField : Nat := 5

/-- The place of the entry point in the table. -/
def entryField : Nat := 14

/-- The length of the table's head, up to the end of the entry point. -/
def headLength : Nat := entryField + 2

/-- Where in an image that begins at `start` the table lies, if its head lies inside the image. -/
def locate (table start : UInt32) (imageLen : Nat) : Except CompatError Nat :=
  if start ≤ table ∧ rangeFits imageLen (table - start).toNat headLength then
    .ok (table - start).toNat
  else .error (.tableOutOfRange (table - start).toNat headLength imageLen)

/-- The entry point relative to the base of the window, if it has 16 bits. -/
def relativeEntry (entry base : UInt32) : Except CompatError UInt16 :=
  if base ≤ entry ∧ (entry - base).toNat < UInt16.size then .ok (entry - base).toUInt16
  else .error (.entryOutOfRange entry base)

/-- The two bytes of a number, the least significant first. -/
def entryBytes (entry : UInt16) : Bytes :=
  [UInt8.ofNat (entry.toNat % 256), UInt8.ofNat (entry.toNat / 256)]

/-- An amended image, with the figures that tell what was done. -/
structure Amended where
  image : Bytes
  /-- The length that the table declares. -/
  declaredLen : Nat
  /-- The balance byte that was set. -/
  balance : UInt8
  deriving DecidableEq, Repr

/-- Sets the entry point of the table at `table`, then balances the declared length. -/
def amend (image : Bytes) (table : Nat) (entry : UInt16) : Except CompatError Amended := do
  let entryAt ← (addWord table entryField).mapError .fault
  let entered ← (overwrite image entryAt (entryBytes entry)).mapError .fault
  let lengthAt ← (addWord table lengthField).mapError .fault
  let declared ← (byteAt entered lengthAt).mapError .fault
  if rangeFits entered.length table declared.toNat then do
    let balanced ← (balance entered table declared.toNat balanceField).mapError .fault
    let balanceAt ← (addWord table balanceField).mapError .fault
    let set ← (byteAt balanced balanceAt).mapError .fault
    return ⟨balanced, declared.toNat, set⟩
  else .error (.tableOutOfRange table declared.toNat entered.length)

/-- Amends the table of an image if the symbols define both the table and its entry point; otherwise
there is no table to amend. -/
def patch (image : Bytes) (symbols : SymbolTable) (window : RomWindow) :
    Logged CompatError (Option Bytes) :=
  match symbols.offset? Landmark.compatTable.name, symbols.offset? Landmark.compatEntry.name with
  | some tableAddress, some entryAddress => do
    let start ← .ofExcept ((symbols.landmark .codeStart).mapError .missingSymbol)
    let table ← .ofExcept (locate tableAddress start image.length)
    let entry ← .ofExcept (relativeEntry entryAddress window.base)
    let amended ← .ofExcept (amend image table entry)
    .log .debug ("patched CSM table at " ++ hex table ++ ": entry " ++ hexWide 4 entry.toNat ++
      ", checksum " ++ hexWide 2 amended.balance.toNat ++ " over " ++
      toString amended.declaredLen ++ " bytes")
    return some amended.image
  | _, _ => do
    .log .debug "no CSM compatibility table"
    return none

end CompatTable

end RomImage
