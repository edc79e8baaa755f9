/-
# File systems

What a run sees of the files around it: a map from files to contents, and the way in which paths lead
to files.  Reading and writing a path each succeed or fail as a whole, and a write changes one file
only (`write_of_openPath`).
-/
import RomImage.Bytes

namespace RomImage

/-! ## Failures -/

/-- Why a file can not be read or written: the description, and the system's code if the system was
asked. -/
structure FileError where
  description : String
  code : Option Nat
  deriving DecidableEq, Repr

namespace FileError

/-- The file is not there. -/
def notFound : FileError := ⟨"No such file or directory", some 2⟩

/-- The file stands for a device that is not there. -/
def noDevice : FileError := ⟨"No such device or address", some 6⟩

/-- A part of the path that should be a directory is a file. -/
def notDirectory : FileError := ⟨"Not a directory", some 20⟩

/-- The path leads to a directory. -/
def isDirectory : FileError := ⟨"Is a directory", some 21⟩

/-- There is no room for what is written. -/
def noSpace : FileError := ⟨"No space left on device", some 28⟩

/-- The path, or a part of it, is longer than it may be. -/
def nameTooLong : FileError := ⟨"File name too long", some 36⟩

/-- The file has no end, and no memory holds it. -/
def outOfMemory : FileError := ⟨"out of memory", none⟩

/-- The path holds a zero byte, so that the system can not be asked. -/
def zeroByte : FileError := ⟨"file name contained an unexpected NUL byte", none⟩

/-- The wording of a failure. -/
def message (e : FileError) : String :=
  match e.code with
  | some code => e.description ++ " (os error " ++ toString code ++ ")"
  | none => e.description

end FileError

/-! ## File systems -/

/-- A file, whatever path leads to it. -/
inductive FileName
  /-- A file of the working directory. -/
  | here (name : String)
  /-- A file of another directory: the names that lead to it from the root. -/
  | elsewhere (place : List String)
  deriving DecidableEq, Repr

/-- What a path is opened for. -/
inductive Access
  | reading
  | writing
  deriving DecidableEq, Repr

/-- A file system. -/
structure FileSystem where
  /-- The contents of each file that is there. -/
  contents : FileName → Option Bytes
  /-- The file that opening a path leads to, or why there is none, given which files are there. -/
  locate : (FileName → Bool) → Access → String → Except FileError FileName

namespace FileSystem

/-- Whether a file is there. -/
def present (fs : FileSystem) (name : FileName) : Bool :=
  (fs.contents name).isSome

/-- The file that opening a path leads to. -/
def openPath (fs : FileSystem) (access : Access) (path : String) : Except FileError FileName :=
  fs.locate fs.present access path

/-- Reads the file of a path. -/
def read (fs : FileSystem) (path : String) : Except FileError Bytes := do
  let name ← fs.openPath .reading path
  match fs.contents name with
  | some data => .ok data
  | none => .error .notFound

/-- The file system in which a file holds `data`. -/
def put (fs : FileSystem) (name : FileName) (data : Bytes) : FileSystem :=
  { fs with contents := fun other => if other = name then some data else fs.contents other }

/-- Writes the file of a path. -/
def write (fs : FileSystem) (path : String) (data : Bytes) : Except FileError FileSystem := do
  let name ← fs.openPath .writing path
  return fs.put name data

/-- A path that leads to a file for writing leads the write to that file and no other. -/
theorem write_of_openPath {fs : FileSystem} {path : String} {name : FileName}
    (h : fs.openPath .writing path = .ok name) (data : Bytes) :
    fs.write path data = .ok (fs.put name data) := by
  rw [write, h]
  rfl

/-- The name of the file of the working directory that writing a path makes or changes. -/
def target? (fs : FileSystem) (path : String) : Option String :=
  match fs.openPath .writing path with
  | .ok (.here name) => some name
  | _ => none

/-- The files of the working directory among `names` that are new or differ from before. -/
def changes (before after : FileSystem) (names : List String) : List (String × Bytes) :=
  names.eraseDups.filterMap fun name =>
    match after.contents (.here name) with
    | some data => if before.contents (.here name) = some data then none else some (name, data)
    | none => none

end FileSystem

end RomImage
