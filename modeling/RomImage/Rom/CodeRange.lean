/-
# Code ranges

Where the code of an image is mapped, how large the finished image is, and the addresses of the code as its
symbols name them.  Window and size class are given by whoever builds the image; the size class may be left
open, and is then the smallest usual one that holds the payload.

A code range is accepted only if the payload fits the size class, the code ends where the ROM window ends,
and the payload is exactly as long as the range.
-/
import RomImage.Bytes
import RomImage.Symbol.Table

namespace RomImage

/-! ## Windows -/

/-- The range of addresses in which the code has to end. -/
structure RomWindow where
  base : UInt32
  size : UInt32
  deriving DecidableEq, Repr

/-- The last 64 KiB of the first megabyte. -/
def RomWindow.standard : RomWindow :=
  ⟨0xf0000, 0x10000⟩

/-- The address behind the window, which may need more than 32 bits. -/
def RomWindow.stop (w : RomWindow) : Nat :=
  w.base.toNat + w.size.toNat

/-! ## Size classes -/

/-- The number of bytes in a KiB. -/
def bytesPerKib : Nat := 1024

/-- The size of a finished image. -/
structure SizeClass where
  bytes : Nat
  deriving DecidableEq, Repr

/-- The size class of so many KiB. -/
def SizeClass.ofKib (kib : Nat) : SizeClass :=
  ⟨kib * bytesPerKib⟩

/-- The whole KiB of a size. -/
def SizeClass.kib (s : SizeClass) : Nat :=
  s.bytes / bytesPerKib

/-- The size in words: whole KiB. -/
def SizeClass.label (s : SizeClass) : String :=
  toString s.kib ++ "KiB"

/-- The largest of the usual size classes. -/
def SizeClass.largest : SizeClass :=
  ofKib 256

/-- The usual size classes, in increasing order. -/
def SizeClass.usual : List SizeClass :=
  [ofKib 64, ofKib 128, largest]

/-- The size class of a request: as many KiB as it says, or, if it says zero, the smallest usual class
that holds the payload, and the largest if none does. -/
def SizeClass.resolve (requestedKib : UInt32) (payloadLen : Nat) : SizeClass :=
  if requestedKib = 0 then (usual.find? fun s => payloadLen ≤ s.bytes).getD largest
  else ofKib requestedKib.toNat

/-- A size class of whole KiB has as many KiB as it was made of. -/
@[simp]
theorem SizeClass.kib_ofKib (kib : Nat) : (ofKib kib).kib = kib := by
  simp [ofKib, SizeClass.kib, bytesPerKib]

/-- The size in bytes of a resolved size class is a 64-bit word. -/
theorem SizeClass.bytes_resolve_lt (requestedKib : UInt32) (payloadLen : Nat) :
    (resolve requestedKib payloadLen).bytes < wordCount := by
  unfold resolve
  split
  · simp only [usual, List.find?_cons, List.find?_nil]
    repeat' split
    all_goals simp [largest, ofKib, bytesPerKib, wordCount, UInt64.size]
  · have := requestedKib.toNat_lt
    simp only [ofKib, bytesPerKib, wordCount, UInt64.size]
    omega

/-! ## Code ranges -/

/-- The address of a landmark, which has to be defined. -/
def SymbolTable.landmark (t : SymbolTable) (place : Landmark) : Except MissingSymbol UInt32 :=
  t.require place.name

/-- The addresses at which the code begins and ends, and at which its start-up part ends. -/
structure CodeRange where
  start : UInt32
  stop : UInt32
  initEnd : UInt32
  deriving DecidableEq, Repr

/-- The size of the code that stays after start-up, zero if start-up reaches beyond the end. -/
def CodeRange.fixedSize (r : CodeRange) : UInt32 :=
  if r.initEnd ≤ r.stop then r.stop - r.initEnd else 0

/-- Why a code range is refused. -/
inductive LayoutError
  /-- The payload is longer than the finished image. -/
  | romTooLarge (payloadLen finalSize : Nat)
  /-- The code does not end with the window. -/
  | codeEndMismatch (expected : Nat) (actual : UInt32)
  /-- The payload is not as long as the code range. -/
  | unknownExtraData (payloadLen : Nat) (expected : UInt32)
  /-- A landmark is not defined. -/
  | missingSymbol (missing : MissingSymbol)
  deriving DecidableEq, Repr

/-- The wording of each refusal. -/
def LayoutError.message : LayoutError → String
  | romTooLarge payloadLen finalSize =>
    "ROM doesn't fit (" ++ toString payloadLen ++ " > " ++ toString finalSize ++ ")\n" ++
    "   You have to either increase the size (CONFIG_ROM_SIZE)\n" ++
    "   or turn off some features (such as hardware support not\n" ++
    "   needed) to make it fit.  Trying a more recent gcc version\n" ++
    "   might work too."
  | codeEndMismatch expected actual =>
    "Code does not end at " ++ hex expected ++ " (got " ++ hex actual.toNat ++ ")"
  | unknownExtraData payloadLen expected =>
    "Unknown extra data (" ++ hex payloadLen ++ " vs " ++ hex expected.toNat ++ ")"
  | missingSymbol missing => missing.message

/-- The code range that the symbols name, if a payload of the given length is exactly that range.  The
first condition that fails decides the refusal; the length of the range is taken modulo `2^32`. -/
def CodeRange.validate (symbols : SymbolTable) (payloadLen : Nat) (size : SizeClass)
    (window : RomWindow) : Except LayoutError CodeRange :=
  if size.bytes < payloadLen then .error (.romTooLarge payloadLen size.bytes)
  else do
    let start ← (symbols.landmark .codeStart).mapError .missingSymbol
    let stop ← (symbols.landmark .codeEnd).mapError .missingSymbol
    let initEnd ← (symbols.landmark .initEnd).mapError .missingSymbol
    if stop.toNat ≠ window.stop then .error (.codeEndMismatch window.stop stop)
    else if payloadLen ≠ (stop - start).toNat then
      .error (.unknownExtraData payloadLen (stop - start))
    else .ok ⟨start, stop, initEnd⟩

end RomImage
