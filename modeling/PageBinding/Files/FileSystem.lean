/-
# Files and directories

A file system is a value: what there is at each location, and the directory that
paths without a leading slash start from.  A location is the list of the names
that lead to it from the root, which is always a directory.

A path is followed name by name, and each step is made from a directory that is
there; so it may end where nothing is yet, but cannot pass through such a place.
Links between directories are not modelled.
-/

import PageBinding.Files.Path
import PageBinding.Keyed

namespace PageBinding
namespace Files

/-- Why an operation on files fails. -/
inductive Failure
  | notFound
  | notDirectory
  | isDirectory
  | exists
  | nameTooLong
  /-- A place is locked. -/
  | denied
  /-- A path has a NUL in it. -/
  | invalidName
  /-- A file that should hold text does not. -/
  | notText
  deriving DecidableEq, Repr

/-- The words for a failure. -/
def Failure.text : Failure → String
  | .notFound => "No such file or directory (os error 2)"
  | .notDirectory => "Not a directory (os error 20)"
  | .isDirectory => "Is a directory (os error 21)"
  | .exists => "File exists (os error 17)"
  | .nameTooLong => "File name too long (os error 36)"
  | .denied => "Permission denied (os error 13)"
  | .invalidName => "file name contained an unexpected NUL byte"
  | .notText => "stream did not contain valid UTF-8"

/-- The names that lead to a place from the root. -/
abbrev Location := List String

/-- What is at a location. -/
inductive Entry
  | file (bytes : ByteArray)
  | directory

/-- The text of what is at a place. -/
def Entry.text : Entry → Except Failure String
  | .directory => .error .isDirectory
  | .file bytes => match String.fromUTF8? bytes with
    | none => .error .notText
    | some s => .ok s

/-- Whether two places hold the same. -/
def Entry.same : Option Entry → Option Entry → Bool
  | some (.file a), some (.file b) => a.data == b.data
  | some .directory, some .directory => true
  | none, none => true
  | _, _ => false

/-- What there is, and where paths start. -/
structure FileSystem where
  current : Location
  entries : List (Location × Entry)

/-- The most bytes that a name may have. -/
def maxName : Nat := 255

/-- The number of bytes from which on a path is too long. -/
def pathLimit : Nat := 4096

namespace FileSystem

/-- What is at a location. -/
def at? (fs : FileSystem) (place : Location) : Option Entry :=
  if place = [] then some .directory else fs.entries.lookup place

/-- The file system with something put at a location. -/
def put (fs : FileSystem) (place : Location) (e : Entry) : FileSystem :=
  { fs with entries := Keyed.set place e fs.entries }

/-- What was put at a place is found there. -/
theorem at?_put_self (fs : FileSystem) {place : Location} (e : Entry) (h : place ≠ []) :
    (fs.put place e).at? place = some e := by
  simp [at?, put, h]

/-- Putting an entry at one place leaves every other place as it was. -/
theorem at?_put_of_ne (fs : FileSystem) {here place : Location} (e : Entry) (h : here ≠ place) :
    (fs.put place e).at? here = fs.at? here := by
  simp [at?, put, Keyed.lookup_set_of_ne h]

/-- The place that a name leads to. -/
def step (fs : FileSystem) (here : Location) (name : String) : Except Failure Location :=
  match fs.at? here with
  | none => .error .notFound
  | some (.file _) => .error .notDirectory
  | some .directory =>
    if isStay name then .ok here
    else if name = ".." then .ok here.dropLast
    else if name.utf8ByteSize > maxName then .error .nameTooLong
    else .ok (here ++ [name])

/-- The directory that a path starts from. -/
def start (fs : FileSystem) (p : Path) : Location := if p.isAbsolute then [] else fs.current

/-- What is wrong with a path wherever it leads. -/
def refusal? (p : Path) : Option Failure :=
  if p.text.toList.contains '\x00' then some .invalidName
  else if p.text = "" then some .notFound
  else if p.text.utf8ByteSize ≥ pathLimit then some .nameTooLong
  else none

/-- The place that a path leads to. -/
def locate (fs : FileSystem) (p : Path) : Except Failure Location :=
  match refusal? p with
  | some f => .error f
  | none => p.names.foldlM fs.step (fs.start p)

/-- Whether a path leads to a directory. -/
def isDirectory (fs : FileSystem) (p : Path) : Bool :=
  match fs.locate p with
  | .error _ => false
  | .ok here => match fs.at? here with
    | some .directory => true
    | _ => false

/-- The text of a file. -/
def readText (fs : FileSystem) (p : Path) : Except Failure String := do
  match fs.at? (← fs.locate p) with
  | none => throw .notFound
  | some e => e.text

/-- The file system with a text written to a file, which is made if need be. -/
def writeText (fs : FileSystem) (p : Path) (s : String) : Except Failure FileSystem := do
  let here ← fs.locate p
  match fs.at? here with
  | some .directory => throw .isDirectory
  | _ => return fs.put here (.file s.toUTF8)

/-- The file system with a directory made where names lead to, last one first. -/
def makeDirectory (fs : FileSystem) (origin : Location) (names : List String) :
    Except Failure FileSystem := do
  let here ← (names.dropWhile (· = "")).reverse.foldlM fs.step origin
  match fs.at? here with
  | some _ => throw .exists
  | none => return fs.put here .directory

/-- Whether names, last one first, lead to a directory. -/
def leadsToDirectory (fs : FileSystem) (origin : Location) (names : List String) : Bool :=
  match names.reverse.foldlM fs.step origin with
  | .error _ => false
  | .ok here => match fs.at? here with
    | some .directory => true
    | _ => false

/-- The file system with a directory made where names lead to, last one first,
unless one is there, and whether one is there then. -/
def ensureLast (fs : FileSystem) (origin : Location) (names : List String) :
    FileSystem × Except Failure Unit :=
  match fs.makeDirectory origin names with
  | .ok made => (made, .ok ())
  | .error f => (fs, if fs.leadsToDirectory origin names then .ok () else .error f)

/-- The file system with the directory that names lead to, last one first, and
those above it, and whether that directory is there then.  What has been made
before a failure stays. -/
def makeDirectories (fs : FileSystem) (origin : Location) (names : List String) :
    FileSystem × Except Failure Unit :=
  if _h : names = [] then (fs, .ok ())
  else match fs.makeDirectory origin names with
    | .error .notFound =>
      match fs.makeDirectories origin (above names) with
      | (fs, .error f) => (fs, .error f)
      | (fs, .ok ()) => fs.ensureLast origin names
    | _ => fs.ensureLast origin names
termination_by names.length
decreasing_by exact length_above_lt _h

/-- The file system with the directory of a path and those above it, and whether
that directory is there then.  The empty path stands for the current directory,
which is there. -/
def ensureDirectory (fs : FileSystem) (p : Path) : FileSystem × Except Failure Unit :=
  if p.text = "" then (fs, .ok ())
  else match refusal? p with
    | some f => (fs, .error f)
    | none => fs.makeDirectories (fs.start p) p.names.reverse

end FileSystem
end Files
end PageBinding
