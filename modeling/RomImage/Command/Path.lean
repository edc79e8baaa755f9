/-
# Paths

The way from a path to a file.  A path is walked from the root or from the working directory, part by
part: each part but the last has to lead to a directory, a dot stays where it is and two dots lead to
the directory above.  The last part names the file; a slash after it asks for a directory, which
writing refuses at once and reading refuses when a file is found.
-/
import RomImage.Command.Place

namespace RomImage

/-! ## Paths -/

/-- A path, taken apart. -/
structure Path where
  /-- Whether the path begins at the root. -/
  fromRoot : Bool
  /-- The parts between slashes that are not empty. -/
  parts : List String
  /-- Whether a slash ends the path. -/
  slashEnded : Bool
  deriving DecidableEq, Repr

/-- The path that a text spells. -/
def Path.ofString (text : String) : Path :=
  ⟨text.startsWith "/", (text.splitOn "/").filter (· != ""), text.endsWith "/"⟩

/-- The greatest length in bytes of the name of a file. -/
def maxNameLen : Nat := 255

/-- The greatest length in bytes of a path. -/
def maxPathLen : Nat := 4095

/-! ## Walking -/

/-- The place that a name leads to from a directory, if a file's name may be that long. -/
def Place.below (place : Place) (name : String) : Except FileError Place :=
  if place.isStored ∧ name.utf8ByteSize > maxNameLen then .error .nameTooLong
  else .ok (Place.followed (place ++ [name]))

/-- The directory that a part of a path leads to from a directory. -/
def Place.enter (present : FileName → Bool) (place : Place) (part : String) :
    Except FileError Place :=
  if part = "." then .ok place
  else if part = ".." then .ok place.dropLast
  else do
    let next ← place.below part
    match next.standing? present with
    | some .directory => .ok next
    | some .file => .error .notDirectory
    | none => .error .notFound

/-- The file that the last part of a path leads to from a directory. -/
def Place.finish (present : FileName → Bool) (access : Access) (slashEnded : Bool) (place : Place)
    (part : String) : Except FileError FileName :=
  if part = "." ∨ part = ".." then .error .isDirectory
  else if access = .writing ∧ slashEnded then .error .isDirectory
  else do
    let next ← place.below part
    match next.standing? present with
    | some .directory => .error .isDirectory
    | some .file =>
      if slashEnded then .error .notDirectory
      else
        match next.fault? access with
        | some e => .error e
        | none => .ok (.ofPlace next)
    | none =>
      if access = .writing ∧ next.isStored then .ok (.ofPlace next) else .error .notFound

/-- The file that a path leads to. -/
def Path.walk (present : FileName → Bool) (access : Access) (path : Path) :
    Except FileError FileName :=
  match path.parts.getLast? with
  | none => .error .isDirectory
  | some last => do
    let start : Place := if path.fromRoot then [] else workingPlace
    let place ← path.parts.dropLast.foldlM (Place.enter present) start
    place.finish present access path.slashEnded last

/-- The file that opening a path leads to, given which files are there. -/
def locatePath (present : FileName → Bool) (access : Access) (text : String) :
    Except FileError FileName :=
  if text.contains '\x00' then .error .zeroByte
  else if text = "" then .error .notFound
  else if text.utf8ByteSize > maxPathLen then .error .nameTooLong
  else (Path.ofString text).walk present access

/-! ## A working directory -/

/-- The file system of a run whose working directory holds the given files and no directory. -/
def FileSystem.ofDirectory (files : List (String × Bytes)) : FileSystem where
  contents
    | .here name => files.lookup name
    | .elsewhere place => Place.contents? place
  locate := locatePath

end RomImage
