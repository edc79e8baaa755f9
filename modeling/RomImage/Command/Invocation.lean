/-
# Invocations

What a command line asks for, and how it is read: argument by argument from the left, the first bad one
deciding.  A value is checked only when the next argument that the program has, or the end, shows that
it is complete; an argument that the program does not have is reported before a value that waits.
After the last argument come the checks that concern the whole: flags that exclude each other, then
missing values.
-/
import RomImage.Command.Argument
import RomImage.Log

namespace RomImage

/-! ## Invocations -/

/-- How much of the log is kept. -/
inductive Verbosity
  | normal
  | verbose
  | quiet
  deriving DecidableEq, Repr

/-- The level at which the log is kept. -/
def Verbosity.level : Verbosity → Level
  | normal => .warn
  | verbose => .debug
  | quiet => .error

/-- What a command line asks for. -/
structure Invocation where
  /-- The path of the source of symbols. -/
  symbols : String
  /-- The size of the image in KiB, zero for the smallest usual one. -/
  sizeKib : UInt32
  /-- The path of the payload. -/
  raw : String
  /-- The path of the image. -/
  output : String
  window : RomWindow
  verbosity : Verbosity
  deriving DecidableEq, Repr

/-! ## Reading a command line -/

/-- The values and flags that have been read. -/
structure Draft where
  symbols : Option String := none
  sizeKib : Option UInt32 := none
  raw : Option String := none
  output : Option String := none
  base : Option UInt32 := none
  size : Option UInt32 := none
  verbose : Bool := false
  quiet : Bool := false
  deriving DecidableEq, Repr

/-- The draft with a positional value. -/
def Draft.fill (d : Draft) (slot : Positional) (text : String) : Except ArgumentError Draft :=
  match slot with
  | .symbols => (readPath text).map fun path => { d with symbols := some path }
  | .sizeKib => (readSizeKib text).map fun kib => { d with sizeKib := some kib }
  | .raw => (readPath text).map fun path => { d with raw := some path }
  | .output => (readPath text).map fun path => { d with output := some path }

/-- The draft with the value of an option, which must not have one yet. -/
def Draft.set (d : Draft) (option : WindowOption) (text : String) : Except ArgumentError Draft :=
  match option with
  | .base =>
    if d.base.isSome then .error .argumentConflict
    else ((readWord text).mapError .invalidText).map fun word => { d with base := some word }
  | .size =>
    if d.size.isSome then .error .argumentConflict
    else ((readWord text).mapError .invalidText).map fun word => { d with size := some word }

/-- The draft with a flag, which must not be there yet; some flags end the reading. -/
def Draft.raise (d : Draft) : Flag → Except ArgumentError Draft
  | .verbose => if d.verbose then .error .argumentConflict else .ok { d with verbose := true }
  | .quiet => if d.quiet then .error .argumentConflict else .ok { d with quiet := true }
  | .help => .error .helpAsked
  | .version => .error .versionAsked

/-- A value that waits to be checked. -/
inductive Waiting
  | nothing
  | positional (slot : Positional) (text : String)
  /-- An option, with its value once that has come. -/
  | option (option : WindowOption) (text : Option String)
  deriving DecidableEq, Repr

/-- A reader of command lines between two arguments. -/
structure Reader where
  draft : Draft := {}
  waiting : Waiting := .nothing
  /-- The positional values still to come. -/
  slots : List Positional := Positional.all
  /-- Whether the separator has been read. -/
  separated : Bool := false
  deriving DecidableEq, Repr

namespace Reader

/-- The draft with the waiting value, checked. -/
def settled (r : Reader) : Except ArgumentError Draft :=
  match r.waiting with
  | .nothing => .ok r.draft
  | .positional slot text => r.draft.fill slot text
  | .option _ none => .error .invalidValue
  | .option option (some text) => r.draft.set option text

/-- Takes the value of an option that waits for one, or else the next positional value. -/
def takePlain (r : Reader) (text : String) : Except ArgumentError Reader :=
  match r.separated, r.waiting with
  | false, .option option none => .ok { r with waiting := .option option (some text) }
  | _, _ =>
    match r.slots with
    | [] => .error .unknownArgument
    | slot :: slots => do
      let draft ← r.settled
      return { r with draft := draft, waiting := .positional slot text, slots := slots }

/-- Takes a flag. -/
def takeFlag (r : Reader) (flag : Flag) : Except ArgumentError Reader := do
  let draft ← (← r.settled).raise flag
  return { r with draft := draft, waiting := .nothing }

/-- Takes letters, each of which has to be a flag. -/
def takeLetters (r : Reader) : List Char → Except ArgumentError Reader
  | [] => .ok r
  | c :: cs =>
    match Flag.ofLetter? c with
    | none => .error .unknownArgument
    | some flag => do
      let r ← r.takeFlag flag
      r.takeLetters cs

/-- Takes a long name, with a value if an equals sign gives one. -/
def takeLong (r : Reader) (name : String) (value : Option String) : Except ArgumentError Reader :=
  match WindowOption.ofName? name, Flag.ofName? name, value with
  | some option, _, none => do
    let draft ← r.settled
    return { r with draft := draft, waiting := .option option none }
  | some option, _, some text => do
    let draft ← (← r.settled).set option text
    return { r with draft := draft, waiting := .nothing }
  | none, some flag, none => r.takeFlag flag
  | none, some _, some _ => .error .tooManyValues
  | none, none, _ => .error .unknownArgument

/-- Takes one argument. -/
def take (r : Reader) (text : String) : Except ArgumentError Reader :=
  if r.separated then r.takePlain text
  else
    match Argument.read text with
    | .separator => .ok { r with separated := true }
    | .long name value => r.takeLong name value
    | .letters cs => r.takeLetters cs
    | .plain text => r.takePlain text

end Reader

/-- The verbosity that the flags ask for, unless they exclude each other. -/
def Draft.verbosity (d : Draft) : Except ArgumentError Verbosity :=
  match d.verbose, d.quiet with
  | true, true => .error .argumentConflict
  | true, false => .ok .verbose
  | false, true => .ok .quiet
  | false, false => .ok .normal

/-- The invocation that a complete draft stands for; the figures of the window that are not given are
those of the standard one. -/
def Draft.invocation (d : Draft) : Except ArgumentError Invocation := do
  let verbosity ← d.verbosity
  match d.symbols, d.sizeKib, d.raw, d.output with
  | some symbols, some sizeKib, some raw, some output =>
    return {
      symbols, sizeKib, raw, output, verbosity
      window := ⟨d.base.getD RomWindow.standard.base, d.size.getD RomWindow.standard.size⟩ }
  | _, _, _, _ => .error .missingArgument

/-- Reads a command line. -/
def Invocation.read (arguments : List String) : Except ArgumentError Invocation := do
  let reader ← arguments.foldlM Reader.take {}
  let draft ← reader.settled
  draft.invocation

end RomImage
