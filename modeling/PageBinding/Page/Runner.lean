/-
# Running bindings

A runner has a live page, the templates that were in it at the beginning, a
source that answers requests and a cache.  Each operation runs to its end and
gives the runner afterwards together with its result.  What happened before a
failure stays done: an answer may have been kept, and a binding set up.

| operation | effect |
| --- | --- |
| `renderData` | fills a template with data |
| `renderKept` | fills a template with what is kept under a key |
| `run` | requests, keeps the answer if asked to, and fills a template with it |
| `trigger` | does what an event on an element asks for |
| `setUp` | sets up a binding on an element |
| `start` | sets up a binding on an element and triggers it |

A request that fails, and an answer that is no data or cannot be kept, fill the
template with an error message instead.
-/

import PageBinding.Fetch.Source
import PageBinding.Json.Printer
import PageBinding.Page.LivePage
import PageBinding.Template.Collection

namespace PageBinding
namespace Page

open Fetch (Source)
open Json (Value)
open Template (Collection Markers)

/-- What came of an operation. -/
inductive Outcome
  /-- The template was filled, and these are the nodes of the output. -/
  | rendered (template : String) (nodes : List NodeId)
  /-- The template was filled with an error message. -/
  | failed (template message : String)
  /-- No binding applies to the element. -/
  | noBinding
  /-- The binding names no template of the page. -/
  | noTemplate
  deriving DecidableEq, Repr

/-- Why a request brings no data, or none that is kept. -/
inductive LoadFailure
  | fetch (why : Fetch.Failure)
  | cache (why : Cache.Failure)

def LoadFailure.message : LoadFailure → String
  | .fetch why => why.message
  | .cache why => why.message

/-- The class of the element that holds an error message. -/
def errorClass : String := "jx-error"

/-- What a template is filled with in place of data. -/
def errorContent (message : String) : Tree :=
  .ofDocuments [.node (.element ⟨"div", [("class", errorClass)]⟩)
    [.node (.text ("Error: " ++ message)) []]]

/-- A page with what it takes to run its bindings. -/
structure Runner (σ γ : Type) where
  page : LivePage
  templates : Collection
  source : σ
  cache : γ
  /-- What there is to report so far. -/
  notices : Array Notice

namespace Runner

variable {σ γ : Type}

/-- The runner of a page, with the templates that are in it now. -/
def ofPage (page : Tree) (m : Markers) (source : σ) (cache : γ) : Except Fault (Runner σ γ) := do
  return ⟨.ofPage page, ← Collection.ofPage page m, source, cache, #[]⟩

def markers (r : Runner σ γ) : Markers := r.templates.markers

def report (r : Runner σ γ) (n : Notice) : Runner σ γ := { r with notices := r.notices.push n }

def reportAll (r : Runner σ γ) (ns : Array Notice) : Runner σ γ :=
  { r with notices := r.notices ++ ns }

/-- Puts an output where it belongs. -/
def put (r : Runner σ γ) (template : String) (target : Option String) (content : Tree) :
    Runner σ γ × Except Failure (List NodeId) :=
  match r.page.fillTidily template target content with
  | .error e => (r, .error e)
  | .ok (page, nodes) => ({ r with page := page }, .ok nodes)

/-- Fills a template with data and puts the output where it belongs. -/
def fill (r : Runner σ γ) (template : String) (target : Option String) (data : Value) :
    Runner σ γ × Except Failure Outcome :=
  match r.templates.render? template data with
  | .error f => (r, .error (.fault f))
  | .ok none => (r, .ok .noTemplate)
  | .ok (some (content, notices)) =>
    match (r.reportAll notices).put template target content with
    | (r, .error e) => (r, .error e)
    | (r, .ok nodes) => (r, .ok (.rendered template nodes))

/-- Fills a template with data. -/
def renderData (r : Runner σ γ) (template : String) (data : Value) :
    Runner σ γ × Except Failure Outcome :=
  r.fill template none data

/-- The data that a binding requests. -/
def request [Source σ] (r : Runner σ γ) (b : Binding) : Except Fetch.Failure Value := do
  let text ← Source.answer r.source b.method b.url
  match Json.parse text with
  | .ok data => return data
  | .error why => throw (.notData why)

/-- Requests the data of a binding and keeps it if that says so. -/
def obtainData [Source σ] [Cache γ] (r : Runner σ γ) (b : Binding) :
    Runner σ γ × Except LoadFailure Value :=
  match r.request b with
  | .error why => (r, .error (.fetch why))
  | .ok data =>
    match b.save with
    | none => (r, .ok data)
    | some key =>
      match Cache.set r.cache key data.render with
      | (cache, .error why) => ({ r with cache := cache }, .error (.cache why))
      | (cache, .ok ()) => ({ r with cache := cache }, .ok data)

/-- The template that a binding fills, if the page has it. -/
def templateOf? (r : Runner σ γ) (b : Binding) : Option String :=
  b.template.filter r.templates.contains

/-- Runs a binding. -/
def run [Source σ] [Cache γ] (r : Runner σ γ) (b : Binding) :
    Runner σ γ × Except Failure Outcome :=
  match r.templateOf? b with
  | none => (r.report (.noTemplate b.request b.template), .ok .noTemplate)
  | some template =>
    match (r.report (.loading b.request)).obtainData b with
    | (r, .error why) =>
      match (r.report (.loadFailed b.request why.message)).put template b.target
          (errorContent why.message) with
      | (r, .error e) => (r, .error e)
      | (r, .ok _) => (r, .ok (.failed template why.message))
    | (r, .ok data) =>
      match r.fill template b.target data with
      | (r, .error e) => (r, .error e)
      | (r, .ok outcome) => (r.report (.loaded b.request), .ok outcome)

/-- Does what the first of some nodes asks for that has data or is the element
of the given binding.  Data comes first. -/
def triggerAlong [Source σ] [Cache γ] (r : Runner σ γ) (b : Option Binding) :
    List NodeId → Runner σ γ × Except Failure Outcome
  | [] => (r, .ok .noBinding)
  | id :: ids =>
    match r.page.ownData.lookup id with
    | some d => r.renderData d.template d.data
    | none =>
      match b.filter (·.element = id) with
      | some own => r.run own
      | none => r.triggerAlong b ids

/-- Does what an event on a node asks for: the nearest node from there on up
that has data or a binding decides. -/
def trigger [Source σ] [Cache γ] (r : Runner σ γ) (id : NodeId) :
    Runner σ γ × Except Failure Outcome :=
  match nearestBinding? r.page.tree r.markers id, r.page.tree.ancestorsOrSelf id with
  | .error f, _ => (r, .error (.fault f))
  | _, .error f => (r, .error (.fault f))
  | .ok b, .ok ids => r.triggerAlong b ids

/-- Fills a template with what is kept under a key, and says whether there is
anything. -/
def renderKept [Cache γ] (r : Runner σ γ) (key template : String) :
    Runner σ γ × Except Failure Bool :=
  match Cache.get r.cache key with
  | .error why => (r, .error (.cache why))
  | .ok none => (r, .ok false)
  | .ok (some text) =>
    match Json.parse text with
    | .error why => (r, .error (.notData why))
    | .ok data =>
      match r.renderData template data with
      | (r, .error e) => (r, .error e)
      | (r, .ok _) => (r, .ok true)

/-- The page with a binding set up on an element. -/
def pageWith (p : LivePage) (m : Markers) (selector : String) (s : Setup) (id : NodeId) :
    Except Failure LivePage :=
  match s.data, s.url with
  | some data, _ => .ok (p.setOwnData id ⟨s.template, data⟩)
  | none, none => .error (.nothingToBind selector)
  | none, some _ => do return { p with tree := ← s.apply m p.tree id }

/-- Sets up a binding on the element of a selector, and says whether there is
one. -/
def setUp (r : Runner σ γ) (selector : String) (s : Setup) :
    Runner σ γ × Except Failure Bool :=
  match selected? r.page.tree selector with
  | .error f => (r, .error (.fault f))
  | .ok none => (r, .ok false)
  | .ok (some id) =>
    match pageWith r.page r.markers selector s id with
    | .error e => (r, .error e)
    | .ok page => ({ r with page := page }, .ok true)

/-- Sets up a binding on the element of a selector and triggers it. -/
def start [Source σ] [Cache γ] (r : Runner σ γ) (selector : String) (s : Setup) :
    Runner σ γ × Except Failure Outcome :=
  match r.setUp selector s with
  | (r, .error e) => (r, .error e)
  | (r, .ok false) => (r, .error (.noElement selector))
  | (r, .ok true) =>
    match selected? r.page.tree selector with
    | .error f => (r, .error (.fault f))
    | .ok none => (r, .error (.vanished selector))
    | .ok (some id) => r.trigger id

end Runner
end Page
end PageBinding
