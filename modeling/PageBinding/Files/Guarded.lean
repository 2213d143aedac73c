/-
# Locked places

Some places of a file system may be locked.  Of a locked directory no name can be looked up, and
what is locked cannot be read; that it is there can be seen all the same.

| place | a name is looked up | it is read |
| --- | --- | --- |
| directory | leads on | failure: it is a directory |
| locked directory | denied | denied |
| file | failure: it is no directory | its text |
| locked file | failure: it is no directory | denied |
-/

import PageBinding.Files.FileSystem

namespace PageBinding
namespace Files

/-- Files, and which places are locked. -/
structure Guarded where
  files : FileSystem
  locked : Location → Bool := fun _ => false

/-- Files of which nothing is locked. -/
instance : Coe FileSystem Guarded := ⟨fun files => { files }⟩

namespace Guarded

/-- The place that a name leads to.  No name at all, behind a slash, is not looked up. -/
def step (g : Guarded) (here : Location) (name : String) : Except Failure Location :=
  match g.files.at? here with
  | some .directory =>
    if g.locked here && name ≠ "" then .error .denied else g.files.step here name
  | _ => g.files.step here name

/-- The place that a path leads to. -/
def locate (g : Guarded) (p : Path) : Except Failure Location :=
  match FileSystem.refusal? p with
  | some f => .error f
  | none => p.names.foldlM g.step (g.files.start p)

/-- Whether a path leads to a directory. -/
def isDirectory (g : Guarded) (p : Path) : Bool :=
  match g.locate p with
  | .error _ => false
  | .ok here => match g.files.at? here with
    | some .directory => true
    | _ => false

/-- The text of a file. -/
def readText (g : Guarded) (p : Path) : Except Failure String := do
  let here ← g.locate p
  match g.files.at? here with
  | none => throw .notFound
  | some e => if g.locked here then throw .denied else e.text

end Guarded
end Files
end PageBinding
