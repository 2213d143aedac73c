/-
# The program

Reads what a command looks at, runs it, writes what it changed and prints what
it says.  Nothing is decided here.
-/

import PageBinding.CommandLine.Consulted

namespace PageBinding
namespace Program

open CommandLine (Variable)
open Files (Entry FileSystem Location Path)

/-- A place as the system names it. -/
def name (place : Location) : String := "/" ++ "/".intercalate place

/-- What is at a place, as far as it can be read. -/
def look (place : Location) : IO (Option Entry) := do
  if ← ((← IO.currentDir) / name place).isDir then return some .directory
  try
    return some (.file (← IO.FS.readBinFile (name place)))
  catch _ => return none

/-- The files with what is at a place, and at those on the way to it from
another one, read. -/
def visit (files : FileSystem) (place : Location) : List String → IO FileSystem
  | [] => return files
  | name :: names => do
    let next :=
      if Files.isStay name then place else if name = ".." then place.dropLast else place ++ [name]
    match ← look next with
    | none => visit files next names
    | some e => visit (files.put next e) next names

/-- The files with what some paths lead to read. -/
def readAll (files : FileSystem) (paths : List Path) : IO FileSystem :=
  paths.foldlM (fun files p => visit files (files.start p) p.names) files

/-- Writes what differs from the files before. -/
def writeBack (before after : FileSystem) : IO Unit :=
  after.entries.reverse.forM fun (place, e) => do
    if !Entry.same (before.at? place) (some e) then
      match e with
      | .directory => IO.FS.createDirAll (name place)
      | .file bytes => IO.FS.writeBinFile (name place) bytes

/-- The variables that settings are taken from. -/
def environment : IO (String → Variable) := do
  let values ← ["JX_ROOT", "JX_CACHE_DIR", "JX_PREFIX", "JX_TRACE"].mapM fun n => do
    match ← IO.getEnv n with
    | none => return (n, Variable.unset)
    | some s => return (n, .text s)
  return fun n => (values.lookup n).getD .unset

/-- Runs the words of a command line and gives the exit code. -/
def run (words : List String) : IO UInt32 := do
  let environment ← environment
  let current := (Files.Path.mk (← IO.currentDir).toString).names.filter fun n => !Files.isStay n
  let start ← visit ⟨current, []⟩ [] current
  let known ← readAll start (CommandLine.consulted words environment start)
  let files ← readAll known (CommandLine.consulted words environment known)
  let report := CommandLine.run words environment files
  writeBack files report.files
  report.notices.forM fun n => IO.eprintln n.line
  IO.print report.output
  match report.error with
  | none => pure ()
  | some text => IO.eprintln text
  return UInt32.ofNat report.code

end Program
end PageBinding

/-- Runs a command line. -/
def main (words : List String) : IO UInt32 := PageBinding.Program.run words
