/-
# Final images

From a payload and its symbols to the image that is shipped: choose the size class, check the code
range, warn about dates and version strings, amend the compatibility table, and fill the image up with
zeros in front of the payload.  The usage figures tell how full the finished image is.
-/
import RomImage.Advisory
import RomImage.Rom.CompatTable

namespace RomImage

/-! ## Usage figures -/

/-- The figures of a finished image. -/
structure Usage where
  /-- The length of the payload. -/
  total : Nat
  /-- The size of the code that stays after start-up. -/
  fixed : UInt32
  /-- The size of the image. -/
  size : SizeClass
  deriving DecidableEq, Repr

namespace Usage

/-- The number of bytes that the payload leaves free. -/
def free (u : Usage) : Nat :=
  u.size.bytes - u.total

/-- The percentage of the image that the payload takes: the quotient of the two lengths, each first
rounded to a binary floating-point number. -/
def usedPercent (u : Usage) : Float :=
  u.total.toUInt64.toFloat / u.size.bytes.toUInt64.toFloat * 100

/-- The figures on one line. -/
def summary (u : Usage) : String :=
  "Total size: " ++ toString u.total ++ "  Fixed: " ++ toString u.fixed.toNat ++
    "  Free: " ++ toString u.free ++ " (used " ++ floatTenths u.usedPercent ++ "% of " ++
    u.size.label ++ " rom)"

end Usage

/-! ## Making an image -/

/-- What the builder of an image asks for. -/
structure FinalizeOptions where
  /-- The size of the image in KiB, zero for the smallest usual one. -/
  requestedKib : UInt32
  window : RomWindow
  deriving DecidableEq, Repr

/-- A finished image. -/
structure FinalImage where
  image : Bytes
  usage : Usage
  deriving DecidableEq, Repr

/-- Why no image is made. -/
inductive FinalizeError
  | layout (refusal : LayoutError)
  | compat (refusal : CompatError)
  | fault (broken : Fault)
  deriving DecidableEq, Repr

/-- The wording of the errors that have one. -/
def FinalizeError.message : FinalizeError → Option String
  | layout refusal => some refusal.message
  | compat refusal => refusal.message
  | fault broken => broken.message

/-- The image of a size class that ends with the payload and is zero before it. -/
def padFront (payload : Bytes) (size : SizeClass) : Except Fault Bytes :=
  if payload.length ≤ size.bytes then
    .ok (List.replicate (size.bytes - payload.length) 0 ++ payload)
  else .error (.payloadTooLong payload.length size.kib)

/-- The final image of a payload.  Nothing is written and nothing warned about before the code range
has been accepted. -/
def finalize (symbols : SymbolTable) (raw : Bytes) (options : FinalizeOptions) :
    Logged FinalizeError FinalImage := do
  let size := SizeClass.resolve options.requestedKib raw.length
  .log .debug ("final size " ++ size.label ++ " for " ++ toString raw.length ++
    " bytes of payload")
  let range ← .ofExcept
    ((CodeRange.validate symbols raw.length size options.window).mapError .layout)
  .log .debug ("code window " ++ hex range.start.toNat ++ ".." ++ hex range.stop.toNat ++
    ", init ends at " ++ hex range.initEnd.toNat)
  warnAbout raw
  let patched ← (CompatTable.patch raw symbols options.window).mapError .compat
  let payload := patched.getD raw
  let image ← .ofExcept ((padFront payload size).mapError .fault)
  return ⟨image, ⟨payload.length, range.fixedSize, size⟩⟩

end RomImage
