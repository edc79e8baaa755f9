/-
# The command line

One session on the files of the system.  The two input files are read first, the session is worked out
on what reading them gave, and its image is written last; if that fails, the session is the one of a
file system that refuses the output.
-/
import RomImage.Command.Session

namespace RomImage

/-- The failure that the system reports. -/
def FileError.ofSystem : IO.Error → FileError
  | .noFileOrDirectory _ code text => ⟨text, some code.toNat⟩
  | .interrupted _ code text => ⟨text, some code.toNat⟩
  | .alreadyExists _ code text => ⟨text, some code.toNat⟩
  | .invalidArgument _ code text => ⟨text, some code.toNat⟩
  | .permissionDenied _ code text => ⟨text, some code.toNat⟩
  | .resourceExhausted _ code text => ⟨text, some code.toNat⟩
  | .inappropriateType _ code text => ⟨text, some code.toNat⟩
  | .noSuchThing _ code text => ⟨text, some code.toNat⟩
  | .otherError code text => ⟨text, some code.toNat⟩
  | .resourceBusy code text => ⟨text, some code.toNat⟩
  | .resourceVanished code text => ⟨text, some code.toNat⟩
  | .unsupportedOperation code text => ⟨text, some code.toNat⟩
  | .hardwareFault code text => ⟨text, some code.toNat⟩
  | .unsatisfiedConstraints code text => ⟨text, some code.toNat⟩
  | .illegalOperation code text => ⟨text, some code.toNat⟩
  | .protocolError code text => ⟨text, some code.toNat⟩
  | .timeExpired code text => ⟨text, some code.toNat⟩
  | .unexpectedEof => ⟨"Input/output error", some 5⟩
  | .userError text => ⟨text, none⟩

/-- Reads a file of the system. -/
def readSystemFile (path : String) : IO (Except FileError Bytes) := do
  try
    let handle ← IO.FS.Handle.mk path .read
    let data ← handle.readBinToEnd
    return .ok data.toList
  catch e => return .error (FileError.ofSystem e)

/-- Writes a file of the system, and tells why it could not if so. -/
def writeSystemFile (path : String) (data : Bytes) : IO (Option FileError) := do
  try
    IO.FS.writeBinFile path ⟨data.toArray⟩
    return none
  catch e => return some (FileError.ofSystem e)

/-- A file system that holds what reading some paths gave, and refuses to write as it is told. -/
def FileSystem.ofReads (reads : List (String × Except FileError Bytes))
    (refusal : Option FileError) : FileSystem where
  contents
    | .here path => (reads.lookup path).bind (·.toOption)
    | .elsewhere _ => none
  locate _ access path :=
    match access, reads.lookup path, refusal with
    | .reading, some (.error e), _ => .error e
    | .writing, _, some e => .error e
    | _, _, _ => .ok (.here path)

/-- Shows a session and ends with its status. -/
def Session.present (s : Session) : IO UInt32 := do
  IO.print s.output
  IO.eprint s.errors
  return UInt32.ofNat s.status

/-- One call of the program on the files of the system. -/
def callOnSystem (arguments : List String) : IO UInt32 := do
  match Invocation.read arguments with
  | .error e => (e.session (.ofReads [] none)).present
  | .ok i =>
    let reads := [(i.symbols, ← readSystemFile i.symbols), (i.raw, ← readSystemFile i.raw)]
    let session := Session.ofArguments arguments (.ofReads reads none)
    if session.status ≠ 0 then session.present
    else
      match session.files.read i.output with
      | .error _ => session.present
      | .ok image =>
        match ← writeSystemFile i.output image with
        | none => session.present
        | some e => (Session.ofArguments arguments (.ofReads reads (some e))).present

end RomImage

/-- Runs the program. -/
def main (arguments : List String) : IO UInt32 :=
  RomImage.callOnSystem arguments
