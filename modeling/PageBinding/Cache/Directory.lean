/-
# Caches in a directory

A cache that keeps each text in a file of its own, named for its key.  A key is
made of ASCII letters, digits, hyphens, underscores and dots and does not begin
with a dot, so it names a file in the directory and nothing else.  The directory
is made when the first text is set, and stays also where that text is not kept.
-/

import PageBinding.Cache.Basic

namespace PageBinding
namespace Cache

open Files (FileSystem Path)

/-- The characters of keys. -/
def isKeyCharacter (c : Char) : Bool := c.isAlphanum || c = '-' || c = '_' || c = '.'

/-- Whether a text is a key. -/
def isKey (key : String) : Bool :=
  match key.toList with
  | [] => false
  | c :: r => c ≠ '.' && (c :: r).all isKeyCharacter

example : ["users", "a-b_c.D9"].all isKey ∧ ["", ".", ".a", "a/b", "é"].all (!isKey ·) := by
  decide +kernel

/-- A directory that texts are kept in. -/
structure Directory where
  files : FileSystem
  path : Path

namespace Directory

/-- The file for a key. -/
def fileFor (d : Directory) (key : String) : Except Failure Path :=
  if isKey key then .ok (d.path.join ⟨key ++ ".json"⟩) else .error (.invalidKey key)

/-- What is kept under a key. -/
def get (d : Directory) (key : String) : Except Failure (Option String) := do
  let path ← d.fileFor key
  match d.files.readText path with
  | .ok text => return some text
  | .error .notFound => return none
  | .error why => throw (.reading path why)

/-- The cache with a text kept under a key, and whether it is kept. -/
def set (d : Directory) (key text : String) : Directory × Except Failure Unit :=
  match d.fileFor key with
  | .error why => (d, .error why)
  | .ok path =>
    match d.files.ensureDirectory d.path with
    | (files, .error why) => ({ d with files := files }, .error (.creating d.path why))
    | (files, .ok ()) =>
      match files.writeText path text with
      | .error why => ({ d with files := files }, .error (.writing path why))
      | .ok files => ({ d with files := files }, .ok ())

instance : Cache Directory := ⟨get, set⟩

/-- Reading under a text that is no key fails with the error that names it. -/
theorem get_of_not_isKey (d : Directory) {key : String} (h : ¬isKey key) :
    d.get key = .error (.invalidKey key) := by
  simp [get, fileFor, h, bind, Except.bind]

/-- Writing under a text that is no key fails with the error that names it and leaves the directory
as it was. -/
theorem set_of_not_isKey (d : Directory) {key : String} (h : ¬isKey key) (text : String) :
    d.set key text = (d, .error (.invalidKey key)) := by
  simp [set, fileFor, h]

end Directory
end Cache
end PageBinding
