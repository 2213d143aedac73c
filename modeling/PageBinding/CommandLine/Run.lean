/-
# Running a command

A command reads a page, and data if its action takes some, and prints a page, a
filled template or a list.  It works on files as a value and gives them back as
it leaves them; only an answer that is kept in a directory changes them.

| code | meaning |
| --- | --- |
| 0 | what was asked for is printed |
| 1 | the command failed, and nothing is printed |
| 2 | the words are no command |
-/

import PageBinding.CommandLine.Arguments
import PageBinding.CommandLine.Failure
import PageBinding.Page.Runner
import PageBinding.Tree.OfTokens

namespace PageBinding
namespace CommandLine

open Files (FileSystem Path)
open Json (Value)
open Page (Binding)
open Template (Markers Collection)

/-- What the environment has for a name. -/
inductive Variable
  | unset
  | text (s : String)
  /-- Bytes that are no text. -/
  | notText
  deriving DecidableEq, Repr

/-- The text of a variable, if it is set. -/
def Variable.text? (name : String) : Variable → Except Settings.Failure (Option String)
  | .unset => .ok none
  | .text s => .ok (some s)
  | .notText => .error (.unreadable (Text.quoted name ++ " env var is not unicode"))

/-- What is left of a command that was run. -/
structure Report where
  code : Nat
  output : String
  error : Option String
  /-- What is reported aside, in order. -/
  notices : List Notice
  files : FileSystem

/-- A page that was read, and what it takes to do something with it. -/
structure Session where
  arguments : Arguments
  settings : Settings
  files : FileSystem
  page : Tree

/-- What an action prints, what it reports, and the files afterwards. -/
structure Result where
  output : Except Failure String
  notices : Array Notice
  files : FileSystem

abbrev Runner := Page.Runner Fetch.Served Cache.Chosen

/-- The text of a file that a command needs. -/
def readText (files : FileSystem) (path : Path) : Except Failure String :=
  match files.readText path with
  | .ok s => .ok s
  | .error why => .error (.reading path why)

/-- The value of an option that an action needs. -/
def need {α : Type} (name : String) : Option α → Except Failure α
  | some a => .ok a
  | none => .error (.missingOption name)

/-- The result of an operation on a tree as one of a command. -/
def ofTree {α : Type} : Except Fault α → Except Failure α
  | .ok a => .ok a
  | .error f => .error (.page (.fault f))

instance : MonadLift (Except Fault) (Except Failure) := ⟨ofTree⟩

/-- A tree as it is printed. -/
def printed (t : Tree) : Except Failure String := return (← t.html) ++ "\n"

namespace Session

def markers (s : Session) : Markers := s.settings.markers

/-- A result without effects. -/
def plain (s : Session) (output : Except Failure String) : Result := ⟨output, #[], s.files⟩

def runner (s : Session) : Except Fault Runner :=
  Page.Runner.ofPage s.page s.markers (s.settings.source s.files) (s.settings.cache s.files)

/-- The files as a cache leaves them. -/
def filesAfter (s : Session) : Cache.Chosen → FileSystem
  | .memory _ => s.files
  | .directory d => d.files

/-- The result of an operation on the page, which is printed if that says so. -/
def finish {α : Type} (s : Session) (done : Runner × Except Page.Failure α)
    (judge : α → Except Failure (Array Notice)) : Result :=
  let (r, outcome) := done
  let files := s.filesAfter r.cache
  match outcome with
  | .error why => ⟨.error (.page why), r.notices, files⟩
  | .ok a => match judge a with
    | .error why => ⟨.error why, r.notices, files⟩
    | .ok more => ⟨printed r.page.tree, r.notices ++ more, files⟩

/-- The result of what is done with a runner of the page. -/
def withRunner (s : Session) (act : Runner → Result) : Result :=
  match s.runner with
  | .error f => s.plain (.error (.page (.fault f)))
  | .ok r => act r

/-- Prints a filled template. -/
def renderFragment (s : Session) (template : String) (data : Value) : Result :=
  match (do
    let templates ← Collection.ofPage s.page s.markers
    return (templates.names, ← templates.render? template data) : Except Fault _) with
  | .error f => s.plain (.error (.page (.fault f)))
  | .ok (names, none) => s.plain (.error (.noTemplateAmong template s.arguments.page names))
  | .ok (_, some (content, notices)) => ⟨printed content, notices, s.files⟩

/-- Prints the page with a template filled. -/
def renderPage (s : Session) (template : String) (data : Value) : Result :=
  s.withRunner fun r => s.finish (r.renderData template data) fun
    | .noTemplate => .error (.noTemplate template s.arguments.page)
    | _ => .ok #[]

/-- The template and the data that the arguments name. -/
def renderArguments (s : Session) : Except Failure (String × Value) := do
  let template ← need "template" s.arguments.template
  let text ← readText s.files (← need "data" s.arguments.data)
  match Json.parse text with
  | .error why => throw (.notData why)
  | .ok data => return (template, data)

/-- Fills a template with data from a file. -/
def render (s : Session) : Result :=
  match s.renderArguments with
  | .error why => s.plain (.error why)
  | .ok (template, data) =>
    if s.arguments.fragment then s.renderFragment template data else s.renderPage template data

/-- A binding as a line of a list. -/
def bindingLine (page : Tree) (b : Binding) : Except Fault String := do
  let id := (((← page.element? b.element).bind fun e => e.get? "id").getD "-")
  let label := Text.trim (← page.textContent b.element).toList
  return "\t".intercalate
    [id, Text.quoted (String.ofList label), b.request, "template=" ++ b.template.getD "-",
      "target=" ++ b.target.getD "-", "save=" ++ b.save.getD "-", "on=" ++ b.trigger] ++ "\n"

/-- Lists the bindings of the page. -/
def bindings (s : Session) : Result :=
  s.plain do
    let lines ← (← Page.bindings s.page s.markers).mapM fun b => ofTree (bindingLine s.page b)
    return String.join lines

/-- The element that the arguments name. -/
def triggered (s : Session) : Except Failure (String × NodeId) := do
  let element ← need "element" s.arguments.element
  let some id ← Page.selected? s.page element | throw (.noElement element s.arguments.page)
  return (element, id)

/-- Does what an event on an element asks for. -/
def trigger (s : Session) : Result :=
  match s.triggered with
  | .error why => s.plain (.error why)
  | .ok (element, id) =>
    s.withRunner fun r => s.finish (r.trigger id) fun
      | .rendered _ _ => .ok #[]
      | .failed template message => .ok #[.renderFailed template message]
      | .noTemplate => .ok #[.unknownTemplate element]
      | .noBinding => .error (.noBinding element)

/-- The key and the template that the arguments name. -/
def keptArguments (s : Session) : Except Failure (String × String) := do
  let key ← need "key" s.arguments.key
  return (key, ← need "template" s.arguments.template)

/-- Fills a template with a kept answer. -/
def cached (s : Session) : Result :=
  match s.keptArguments with
  | .error why => s.plain (.error why)
  | .ok (key, template) =>
    s.withRunner fun r => s.finish (r.renderKept key template) fun found =>
      if found then .ok #[] else .error (.nothingKept key)

/-- Does what the arguments ask for. -/
def act (s : Session) : Result :=
  match Action.ofName? s.arguments.action with
  | some .render => s.render
  | some .bindings => s.bindings
  | some .trigger => s.trigger
  | some .cached => s.cached
  | none => s.plain (.error (.unknownAction s.arguments.action))

end Session

/-- The settings of a command. -/
def settingsOf (a : Arguments) (environment : String → Variable) : Except Failure Settings :=
  match Settings.ofVariables fun name => (environment name).text? name with
  | .error why => .error (.settings why)
  | .ok s => .ok (a.settle s)

/-- The result of a command, and whether traces are shown. -/
def perform (a : Arguments) (environment : String → Variable) (files : FileSystem) :
    Result × Bool :=
  match settingsOf a environment with
  | .error why => (⟨.error why, #[], files⟩, false)
  | .ok settings =>
    match readText files a.page with
    | .error why => (⟨.error why, #[], files⟩, false)
    | .ok text =>
      let (page, notices) := Tree.ofHtml text
      let result := Session.act ⟨a, settings, files, page⟩
      ({ result with notices := notices ++ result.notices }, settings.trace)

/-- The notices that are shown. -/
def shown (trace : Bool) (notices : Array Notice) : List Notice :=
  notices.toList.filter fun n => n.isWarning || trace

/-- What is printed where help is asked for. -/
def usage : String :=
  "USAGE: --page FILE (render | bindings | trigger | cached) [OPTIONS]\n"

/-- Runs the words of a command line. -/
def run (words : List String) (environment : String → Variable) (files : FileSystem) : Report :=
  match Arguments.ofWords words with
  | .error .help => ⟨0, usage, none, [], files⟩
  | .error .wrong => ⟨2, "", none, [], files⟩
  | .ok a =>
    let (result, trace) := perform a environment files
    let notices := shown trace result.notices
    match result.output with
    | .ok output => ⟨0, output, none, notices, result.files⟩
    | .error why => ⟨1, "", some why.text, notices, result.files⟩

end CommandLine
end PageBinding
