/-
# Arguments

What a command line asks for: an action, the page to do it with, and what else
that takes.

| option | value |
| --- | --- |
| `--page` | the file of the page; it is always needed |
| `--template` | the name of the template to fill |
| `--data` | the file with the data to fill it with |
| `--fragment` | none: only the filled template is printed |
| `--element` | the selector of the element to trigger |
| `--key` | the key of a kept answer |
| `--root`, `--cache-dir`, `--prefix` | settings that replace those of the environment |
| `--trace` | none: traces are shown |
-/

import PageBinding.CommandLine.Words
import PageBinding.Settings

namespace PageBinding
namespace CommandLine

open Files (Path)

/-- What can be done with a page. -/
inductive Action
  /-- Fill a template with data from a file. -/
  | render
  /-- List the bindings. -/
  | bindings
  /-- Do what an event on an element asks for. -/
  | trigger
  /-- Fill a template with a kept answer. -/
  | cached
  deriving DecidableEq, Repr

/-- The action of a name. -/
def Action.ofName? : String → Option Action
  | "render" => some .render
  | "bindings" => some .bindings
  | "trigger" => some .trigger
  | "cached" => some .cached
  | _ => none

/-- What a command line asks for. -/
structure Arguments where
  /-- The name of the action. -/
  action : String
  page : Path
  template : Option String
  data : Option Path
  fragment : Bool
  element : Option String
  key : Option String
  root : Option Path
  cacheDirectory : Option Path
  lead : Option String
  trace : Bool
  deriving DecidableEq, Repr

/-- The options of this program, which takes one action. -/
def vocabulary : Vocabulary :=
  ⟨1, ["page", "template", "data", "element", "key", "root", "cache-dir", "prefix"],
    ["fragment", "trace"]⟩

namespace Arguments

/-- What given words ask for: they name one action and a page. -/
def ofGiven? (g : Given) : Option Arguments :=
  match g.plain, g.values.lookup "page" with
  | [action], some page =>
    some
      { action := action
        page := ⟨page⟩
        template := g.values.lookup "template"
        data := (g.values.lookup "data").map Files.Path.mk
        fragment := g.flags.contains "fragment"
        element := g.values.lookup "element"
        key := g.values.lookup "key"
        root := (g.values.lookup "root").map Files.Path.mk
        cacheDirectory := (g.values.lookup "cache-dir").map Files.Path.mk
        lead := g.values.lookup "prefix"
        trace := g.flags.contains "trace" }
  | _, _ => none

/-- What the words of a command line ask for. -/
def ofWords (words : List String) : Except Misuse Arguments := do
  orWrong (ofGiven? (← collect vocabulary .empty words))

/-- The settings of the environment with those of the command line in their
place. -/
def settle (a : Arguments) (s : Settings) : Settings :=
  { root := a.root.getD s.root
    cacheDirectory := a.cacheDirectory.or s.cacheDirectory
    lead := a.lead.getD s.lead
    trace := s.trace || a.trace }

end Arguments
end CommandLine
end PageBinding
