/-
# Runs and sessions

One run of an invocation over a file system: read the symbols and the payload, finalize, tell the usage
figures, write the image.  Only a run that succeeds changes a file, and only the output.

A session is what a terminal shows of one call of the program, and the status with which it ends: 0 for
success, 1 for a run that fails, 2 for a command line that is not understood.
-/
import RomImage.Command.FileSystem
import RomImage.Command.Invocation
import RomImage.Object.File
import RomImage.Rom.Final
import RomImage.Text.Terminal

namespace RomImage

/-! ## Runs -/

/-- Why a run fails. -/
inductive RunError
  | unreadable (path : String) (failure : FileError)
  | unparsed (path : String) (failure : SymbolError)
  | refused (failure : FinalizeError)
  | unwritable (path : String) (failure : FileError)
  deriving DecidableEq, Repr

/-- The wording of the errors that have one. -/
def RunError.message : RunError → Option String
  | unreadable path failure => some ("failed to read " ++ path ++ ": " ++ failure.message)
  | unparsed path failure =>
    some ("failed to parse symbols from " ++ path ++ ": " ++ failure.message)
  | refused failure => failure.message
  | unwritable path failure => some ("failed to write " ++ path ++ ": " ++ failure.message)

/-- The options that an invocation gives to the finalizer. -/
def Invocation.options (i : Invocation) : FinalizeOptions :=
  ⟨i.sizeKib, i.window⟩

/-- The final image of an invocation, from what reading its two input files gives. -/
def Invocation.prepare (i : Invocation) (symbolSource raw : Except FileError Bytes) :
    Logged RunError FinalImage := do
  let source ← .ofExcept (symbolSource.mapError (.unreadable i.symbols))
  let symbols ← .ofExcept ((SymbolTable.ofSource source).mapError (.unparsed i.symbols))
  .log .info ("read " ++ toString symbols.size ++ " symbols from " ++ i.symbols)
  let payload ← .ofExcept (raw.mapError (.unreadable i.raw))
  (finalize symbols payload i.options).mapError .refused

/-- What a run leaves behind. -/
structure RunReport where
  records : List Record
  /-- The lines on standard output. -/
  output : String
  result : Except RunError Unit
  /-- The files after the run. -/
  files : FileSystem

/-- Runs an invocation. -/
def Invocation.run (i : Invocation) (files : FileSystem) : RunReport :=
  let prepared := i.prepare (files.read i.symbols) (files.read i.raw)
  match prepared.result with
  | .error e => ⟨prepared.records, "", .error e, files⟩
  | .ok final =>
    let output := final.usage.summary ++ "\n"
    match files.write i.output final.image with
    | .error e => ⟨prepared.records, output, .error (.unwritable i.output e), files⟩
    | .ok files' =>
      ⟨prepared.records ++ [⟨.info, "wrote " ++ i.output⟩], output, .ok (), files'⟩

/-- The records of a run that its invocation keeps. -/
def Invocation.kept (i : Invocation) (records : List Record) : List Record :=
  records.filter fun record => i.verbosity.level.admits record.level

/-! ## Sessions -/

/-- The program's name. -/
def programName : String := "romcheck"

/-- The line that tells the program's version. -/
def versionLine : String := programName ++ " 0.1.0\n"

/-- The text that tells how the program is called.  What it says of the program and of its arguments is
the program's; the layout, and the lines for help and version, are chosen here. -/
def helpText : String :=
  "Check a raw BIOS image against its symbols and write the final ROM\n\n" ++
  "Usage: " ++ programName ++ " [OPTIONS] <SYMBOLS> <SIZE_KIB> <RAW> <OUTPUT>\n\n" ++
  "Arguments:\n" ++
  "  <SYMBOLS>   `objdump -t` output or ELF object carrying the link symbols\n" ++
  "  <SIZE_KIB>  Final ROM size in KiB (0 picks 64, 128 or 256)\n" ++
  "  <RAW>\n" ++
  "  <OUTPUT>\n\n" ++
  "Options:\n" ++
  "      --bios-addr <BIOS_ADDR>  Address the BIOS code window starts at [default: 0xf0000]\n" ++
  "      --bios-size <BIOS_SIZE>  Size of the BIOS code window [default: 0x10000]\n" ++
  "  -v, --verbose\n" ++
  "  -q, --quiet\n" ++
  "  -h, --help                   Print help\n" ++
  "  -V, --version                Print version\n"

/-- What is said about a command line that is not understood.  The reasons for a value that is refused are
the program's; the wording around them is chosen here. -/
def ArgumentError.complaint : ArgumentError → String
  | unknownArgument => "unexpected argument found"
  | argumentConflict => "an argument is given twice, or excludes another"
  | invalidValue => "a value is required but none was supplied"
  | invalidText reason => "invalid value: " ++ reason
  | tooManyValues => "unexpected value for a flag found"
  | missingArgument => "the required arguments were not provided"
  | helpAsked => ""
  | versionAsked => ""

/-- What one call of the program leaves behind. -/
structure Session where
  status : Nat
  output : String
  errors : String
  /-- The files after the call. -/
  files : FileSystem

/-- The last line about a run: nothing if it succeeded. -/
def RunReport.verdict (r : RunReport) : String :=
  match r.result with
  | .ok () => ""
  | .error e => "Error!  " ++ e.message.getD "" ++ "\n"

/-- What a terminal shows of a record: paths in it may hold controls, which do not get through. -/
def Record.visible (r : Record) : String :=
  String.ofList (visibleText r.render.toList)

/-- What a terminal shows of a run: the records that the invocation keeps, then the verdict, which
tells its path as it is. -/
def RunReport.errors (r : RunReport) (i : Invocation) : String :=
  String.join ((i.kept r.records).map Record.visible) ++ r.verdict

/-- The status of a run. -/
def RunReport.status (r : RunReport) : Nat :=
  match r.result with
  | .ok () => 0
  | .error _ => 1

/-- The session of a command line that asks for no run. -/
def ArgumentError.session (e : ArgumentError) (files : FileSystem) : Session :=
  match e with
  | .helpAsked => ⟨0, helpText, "", files⟩
  | .versionAsked => ⟨0, versionLine, "", files⟩
  | e => ⟨2, "", "error: " ++ e.complaint ++ "\n", files⟩

/-- One call of the program. -/
def Session.ofArguments (arguments : List String) (files : FileSystem) : Session :=
  match Invocation.read arguments with
  | .error e => e.session files
  | .ok i =>
    let report := i.run files
    ⟨report.status, report.output, report.errors i, report.files⟩

end RomImage
