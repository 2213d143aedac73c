/-
# Settings

What a run is set up with.  Each setting is taken from a variable of the
environment, if that is set, and has a value of its own otherwise.

| setting | variable | otherwise |
| --- | --- | --- |
| the directory that addresses lead into | `JX_ROOT` | the current one |
| the directory of the cache | `JX_CACHE_DIR`, unless empty | none: a cache in memory |
| the lead of the marker attributes | `JX_PREFIX` | that of `Markers.standard` |
| whether traces are shown | `JX_TRACE` | no |

The variables are looked at in this order, and the first that is wrong decides.
-/

import PageBinding.Cache.Chosen
import PageBinding.Fetch.Served
import PageBinding.Template.Markers
import PageBinding.Text.Blank

namespace PageBinding

open Files (FileSystem Path)
open Template (Markers)

/-- What a run is set up with. -/
structure Settings where
  root : Path
  cacheDirectory : Option Path
  lead : String
  trace : Bool
  deriving DecidableEq, Repr

namespace Settings

/-- Why there are no settings. -/
inductive Failure
  /-- A variable cannot be read. -/
  | unreadable (why : String)
  /-- A variable that says yes or no says something else. -/
  | noFlag (name text : String)
  deriving DecidableEq, Repr

def Failure.message : Failure → String
  | .unreadable why => why
  | .noFlag name text => Text.quoted name ++ ": invalid boolean value " ++ Text.quoted text

/-- The words for yes. -/
def yes : List String := ["1", "true", "yes", "on"]

/-- The words for no. -/
def no : List String := ["", "0", "false", "no", "off"]

/-- What the text of a variable says, white space at its ends and the case of
ASCII letters aside. -/
def flag (name text : String) : Except Failure Bool :=
  let word := String.ofList ((Text.trim text.toList).map Char.toLower)
  if word ∈ yes then .ok true
  else if word ∈ no then .ok false
  else .error (.noFlag name text)

example : [" On\n", "OFF", "", "o n"].map (fun text => (flag "JX_TRACE" text).toOption) =
    [some true, some false, some false, none] := by
  decide +kernel

/-- The settings where no variable is set. -/
def standard : Settings := ⟨⟨"."⟩, none, Markers.standard.lead, false⟩

/-- The settings that the variables of an environment make. -/
def ofVariables (get : String → Except Failure (Option String)) : Except Failure Settings := do
  let root ← get "JX_ROOT"
  let directory ← get "JX_CACHE_DIR"
  let lead ← get "JX_PREFIX"
  let trace ← match ← get "JX_TRACE" with
    | none => pure standard.trace
    | some text => flag "JX_TRACE" text
  return {
    root := (root.map Files.Path.mk).getD standard.root
    cacheDirectory := (directory.filter (· ≠ "")).map Files.Path.mk
    lead := lead.getD standard.lead
    trace := trace }

def markers (s : Settings) : Markers := ⟨s.lead⟩

/-- What answers requests. -/
def source (s : Settings) (files : FileSystem) : Fetch.Served := ⟨files, s.root⟩

/-- What answers are kept in. -/
def cache (s : Settings) (files : FileSystem) : Cache.Chosen :=
  match s.cacheDirectory with
  | none => .memory .empty
  | some directory => .directory ⟨files, directory⟩

end Settings
end PageBinding
