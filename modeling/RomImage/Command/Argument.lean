/-
# Arguments

The parts of a command line: positional values, options that take a value, and flags; how a single
argument reads; and how the values are checked.
-/
import RomImage.Rom.CodeRange
import RomImage.Text.Basic

namespace RomImage

/-! ## What a command line may hold -/

/-- The positional values, in the order in which they are given. -/
inductive Positional
  | symbols
  | sizeKib
  | raw
  | output
  deriving DecidableEq, Repr

/-- All positional values, in order. -/
def Positional.all : List Positional :=
  [symbols, sizeKib, raw, output]

/-- The options that take a value: the two figures of the ROM window. -/
inductive WindowOption
  | base
  | size
  deriving DecidableEq, Repr

/-- The arguments that stand for themselves. -/
inductive Flag
  | verbose
  | quiet
  | help
  | version
  deriving DecidableEq, Repr

/-- The option with a long name. -/
def WindowOption.ofName? (name : String) : Option WindowOption :=
  if name = "bios-addr" then some base else if name = "bios-size" then some size else none

/-- The flag with a long name. -/
def Flag.ofName? (name : String) : Option Flag :=
  if name = "verbose" then some verbose
  else if name = "quiet" then some quiet
  else if name = "help" then some help
  else if name = "version" then some version
  else none

/-- The flag with a letter. -/
def Flag.ofLetter? (c : Char) : Option Flag :=
  if c = 'v' then some verbose
  else if c = 'q' then some quiet
  else if c = 'h' then some help
  else if c = 'V' then some version
  else none

/-! ## Reading one argument -/

/-- An argument by its shape. -/
inductive Argument
  /-- Two dashes alone: only positional values follow. -/
  | separator
  /-- A long name, with the value after an equals sign if there is one. -/
  | long (name : String) (value : Option String)
  /-- Letters after one dash. -/
  | letters (cs : List Char)
  /-- Anything else, a lone dash included. -/
  | plain (text : String)
  deriving DecidableEq, Repr

/-- The shape of an argument in front of the separator. -/
def Argument.read (text : String) : Argument :=
  match text.toList with
  | ['-', '-'] => separator
  | '-' :: '-' :: cs =>
    let name := String.ofList (cs.takeWhile (· != '='))
    match cs.dropWhile (· != '=') with
    | [] => long name none
    | _ :: value => long name (some (String.ofList value))
  | '-' :: c :: cs => letters (c :: cs)
  | _ => plain text

/-! ## Checking values -/

/-- Why a command line is not understood, or asks for something else than a run. -/
inductive ArgumentError
  /-- An argument that the program does not have. -/
  | unknownArgument
  /-- An argument given twice, or two that exclude each other. -/
  | argumentConflict
  /-- An option without a value, or an empty path. -/
  | invalidValue
  /-- A value that is not of its kind, with the reason. -/
  | invalidText (reason : String)
  /-- A value for a flag. -/
  | tooManyValues
  /-- Positional values are missing. -/
  | missingArgument
  /-- The help text is asked for. -/
  | helpAsked
  /-- The version is asked for. -/
  | versionAsked
  deriving DecidableEq, Repr

/-- A path, which must not be empty. -/
def readPath (text : String) : Except ArgumentError String :=
  if text = "" then .error .invalidValue else .ok text

/-- A size in KiB: a decimal integer that is a 32-bit word. -/
def readSizeKib (text : String) : Except ArgumentError UInt32 :=
  match readInteger text.toList with
  | .error e => .error (.invalidText e.message)
  | .ok n =>
    if 0 ≤ n ∧ n < 0x100000000 then .ok (UInt32.ofNat n.toNat)
    else .error (.invalidText (toString n ++ " is not in 0..=4294967295"))

/-- The digits after the mark of a hexadecimal numeral, if it has the mark. -/
def afterHexMark? : List Char → Option (List Char)
  | '0' :: 'x' :: ds => some ds
  | '0' :: 'X' :: ds => some ds
  | _ => none

/-- A 32-bit word, hexadecimal after the mark `0x` and decimal without it, blanks around it allowed. -/
def readWord (text : String) : Except String UInt32 :=
  let body := trim text.toList
  match afterHexMark? body with
  | some digits =>
    match readNatural 16 UInt32.size digits with
    | .ok n => .ok (UInt32.ofNat n)
    | .error e => .error ("invalid hex value '" ++ text ++ "': " ++ e.message)
  | none =>
    match readNatural 10 UInt32.size body with
    | .ok n => .ok (UInt32.ofNat n)
    | .error e => .error ("invalid decimal value '" ++ text ++ "': " ++ e.message)

end RomImage
