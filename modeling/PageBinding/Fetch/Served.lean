/-
# Served directories

A source that answers with the files below a directory, to every method alike.
An address leads to a file by its names, up to the first question mark or number
sign; names that lead nowhere are passed over, and one that leads upwards is
refused, so nothing outside the directory is ever asked for.

| what is there | answer |
| --- | --- |
| a file with text | the text |
| a directory, nothing | 404 |
| a locked file, anything in a locked directory | 403 |
| anything else | the failure to read it |
-/

import PageBinding.Fetch.Source
import PageBinding.Files.Guarded

namespace PageBinding
namespace Fetch

open Files (Guarded Path isStay)

/-- The part of an address that names a file. -/
def fileOf (url : String) : Path :=
  ⟨String.ofList (url.toList.takeWhile fun c => c ≠ '?' && c ≠ '#')⟩

/-- The file below a directory that an address leads to; `none` if it leads
upwards. -/
def pathBelow? (root : Path) (url : String) : Option Path :=
  let names := (fileOf url).names
  if ".." ∈ names then none
  else some ((names.filter fun n => !isStay n).foldl (fun p n => p.join ⟨n⟩) root)

/-- **Nothing else is refused:** an address leads nowhere exactly if one of its
names leads upwards. -/
theorem pathBelow?_eq_none_iff {root : Path} {url : String} :
    pathBelow? root url = none ↔ ".." ∈ (fileOf url).names := by
  simp [pathBelow?]

example : (pathBelow? ⟨"site"⟩ "/api/./users.json?page=2", pathBelow? ⟨"site"⟩ "/api/../x") =
    (some ⟨"site/api/users.json"⟩, none) := by
  decide +kernel

/-- A directory whose files are served. -/
structure Served where
  files : Guarded
  root : Path

namespace Served

/-- The answer to a request. -/
def answer (s : Served) (url : String) : Except Failure String :=
  match pathBelow? s.root url with
  | none => .error .forbidden
  | some path =>
    if s.files.isDirectory path then .error .missing
    else match s.files.readText path with
      | .ok text => .ok text
      | .error .notFound => .error .missing
      | .error .denied => .error .forbidden
      | .error why => .error (.unreadable path why)

instance : Source Served := ⟨fun s _ url => s.answer url⟩

end Served
end Fetch
end PageBinding
