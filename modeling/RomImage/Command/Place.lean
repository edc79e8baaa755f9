/-
# Places

The tree of files around a working directory.  Inside the directory stand the files of a run; outside
of it stand, as far as they are known, the directories, links, devices and files that a usual system
has, so that a path which leaves the directory is answered as there.
-/
import RomImage.Command.FileSystem

namespace RomImage

/-! ## Places and directories -/

/-- A place in the tree of files: the names that lead to it from the root. -/
abbrev Place := List String

/-- The place of the working directory.  Its own name is not known and written as the empty one, so
that no path leads into it by that name. -/
def workingPlace : Place := ["tmp", ""]

/-- The names of the directories below some directories of a usual system. -/
def standardNames : List (Place × List String) :=
  [([], ["boot", "dev", "etc", "home", "media", "mnt", "opt", "proc", "root", "run", "srv", "sys",
      "tmp", "usr", "var"]),
    (["dev"], ["pts", "shm"]),
    (["proc"], ["self"]),
    (["proc", "self"], ["fd"]),
    (["run"], ["lock"]),
    (["usr"], ["bin", "games", "include", "lib", "lib64", "libexec", "local", "sbin", "share", "src"]),
    (["var"], ["backups", "cache", "lib", "local", "log", "mail", "opt", "spool", "tmp"])]

/-- Whether a place is a directory: the root, the working directory, or a standard one. -/
def Place.isDirectory (place : Place) : Bool :=
  place == [] || place == workingPlace ||
    standardNames.any fun below => below.2.any fun name => place == below.1 ++ [name]

/-- The places that stand for others. -/
def links : List (Place × Place) :=
  [(["bin"], ["usr", "bin"]), (["lib"], ["usr", "lib"]), (["lib64"], ["usr", "lib64"]),
    (["sbin"], ["usr", "sbin"]), (["dev", "fd"], ["proc", "self", "fd"]),
    (["proc", "self", "cwd"], workingPlace), (["proc", "self", "root"], []),
    (["var", "lock"], ["run", "lock"]), (["var", "run"], ["run"])]

/-- The place that a place stands for, which is most often itself. -/
def Place.followed (place : Place) : Place :=
  (links.lookup place).getD place

/-- Whether a place is stored, so that files may be made there and names have a limit; what stands
among the processes is not. -/
def Place.isStored (place : Place) : Bool :=
  place.head? != some "proc"

/-! ## Files outside the working directory -/

/-- How a file outside the working directory answers. -/
inductive Device
  /-- It reads as nothing and has room for everything.  So do, here, files whose contents are not
  known. -/
  | empty
  /-- It has no end and has room for everything. -/
  | endless
  /-- It has no end and has room for nothing. -/
  | full
  /-- It stands for a terminal, and there is none. -/
  | terminal
  deriving DecidableEq, Repr

/-- The files of a usual system. -/
def devices : List (Place × Device) :=
  [(["dev", "full"], .full), (["dev", "null"], .empty), (["dev", "random"], .endless),
    (["dev", "stderr"], .empty), (["dev", "stdin"], .empty), (["dev", "stdout"], .empty),
    (["dev", "tty"], .terminal), (["dev", "urandom"], .endless), (["dev", "zero"], .endless),
    (["etc", "group"], .empty), (["etc", "hostname"], .empty), (["etc", "hosts"], .empty),
    (["etc", "os-release"], .empty), (["etc", "passwd"], .empty), (["etc", "resolv.conf"], .empty),
    (["etc", "shadow"], .empty), (["proc", "cpuinfo"], .empty), (["proc", "meminfo"], .empty),
    (["proc", "uptime"], .empty), (["proc", "version"], .empty), (["usr", "bin", "env"], .empty),
    (["usr", "bin", "sh"], .empty)]

/-- Why a device can not be opened, or not used once it is open. -/
def Device.fault? : Device → Access → Option FileError
  | terminal, _ => some .noDevice
  | full, .writing => some .noSpace
  | full, .reading | endless, .reading => some .outOfMemory
  | endless, .writing | empty, _ => none

/-- Why the file that stands at a place can not be used. -/
def Place.fault? (place : Place) (access : Access) : Option FileError :=
  (devices.lookup place).bind (·.fault? access)

/-- What a file outside the working directory holds. -/
def Place.contents? (place : Place) : Option Bytes :=
  if devices.lookup place = some .empty then some [] else none

/-! ## What stands where -/

/-- What stands at a place. -/
inductive Standing
  | directory
  | file
  deriving DecidableEq, Repr

/-- The file of a place. -/
def FileName.ofPlace (place : Place) : FileName :=
  match place.getLast? with
  | some name => if place.dropLast = workingPlace then .here name else .elsewhere place
  | none => .elsewhere place

/-- What stands at a place, given which files are there. -/
def Place.standing? (present : FileName → Bool) (place : Place) : Option Standing :=
  if place.isDirectory then some .directory
  else if (devices.lookup place).isSome ∨ present (.ofPlace place) then some .file
  else none

end RomImage
