/-
# Bindings

An element with a `get` or `post` marker binds a request to itself: its answer
fills a template, and the output goes to a place in the page.  With both markers
it is a POST.  An event on an element runs the binding of the nearest element
above it, or its own.

A binding can also be set up from outside the page.  One that requests is
written onto its element as markers; one with data of its own has no such form.
-/

import PageBinding.Fetch.Method
import PageBinding.Json.Value
import PageBinding.Template.Markers
import PageBinding.Tree.Walk

namespace PageBinding
namespace Page

open Fetch (Method)
open Html (Element)
open Json (Value)
open Template (Markers)

/-- What an element requests and what becomes of the answer. -/
structure Binding where
  element : NodeId
  method : Method
  url : String
  template : Option String
  target : Option String
  save : Option String
  /-- The event that triggers the request. -/
  trigger : String
  deriving DecidableEq, Repr

/-- The event of a binding that names none. -/
def defaultTrigger : String := "click"

/-- The request of a binding in messages. -/
def Binding.request (b : Binding) : String := b.method.text ++ " " ++ b.url

/-- The method and the address that an element requests. -/
def requestOf? (m : Markers) (e : Element) : Option (Method × String) :=
  match e.get? m.post, e.get? m.get with
  | some url, _ => some (.post, url)
  | none, some url => some (.get, url)
  | none, none => none

/-- The binding of an element. -/
def ownBinding? (page : Tree) (m : Markers) (id : NodeId) : Except Fault (Option Binding) := do
  let some e ← page.element? id | return none
  let some (method, url) := requestOf? m e | return none
  return some
    { element := id
      method := method
      url := url
      template := e.get? m.template
      target := e.get? m.target
      save := e.get? m.save
      trigger := (e.get? m.trigger).getD defaultTrigger }

/-- The bindings of some nodes, in their order. -/
def bindingsOf (page : Tree) (m : Markers) : List NodeId → Except Fault (List Binding)
  | [] => return []
  | id :: ids => do
    let own ← ownBinding? page m id
    let others ← bindingsOf page m ids
    return own.toList ++ others

/-- The bindings of a page, in document order. -/
def bindings (page : Tree) (m : Markers) : Except Fault (List Binding) := do
  bindingsOf page m (← page.descendants Tree.root)

/-- The first binding of some nodes. -/
def firstBinding? (page : Tree) (m : Markers) : List NodeId → Except Fault (Option Binding)
  | [] => return none
  | id :: ids => do
    match ← ownBinding? page m id with
    | some b => return some b
    | none => firstBinding? page m ids

/-- The binding that an event on a node runs. -/
def nearestBinding? (page : Tree) (m : Markers) (id : NodeId) : Except Fault (Option Binding) := do
  firstBinding? page m (← page.ancestorsOrSelf id)

/-- A selector without the number sign that it may begin with. -/
def selectedId (selector : String) : String :=
  match selector.toList with
  | '#' :: r => String.ofList r
  | _ => selector

/-- The element that a selector names: an `id`, or a number sign and an `id`. -/
def selected? (page : Tree) (selector : String) : Except Fault (Option NodeId) :=
  page.findById? (selectedId selector)

/-- A binding set up from outside the page. -/
structure Setup where
  url : Option String
  method : Method
  template : String
  save : Option String
  /-- What to render without a request. -/
  data : Option Value

/-- An element with a request written onto it. -/
def Setup.writeOn (s : Setup) (m : Markers) (url : String) (e : Element) : Element :=
  let (set, clear) := match s.method with
    | .get => (m.get, m.post)
    | .post => (m.post, m.get)
  let e := ((e.remove clear).set set url).set m.template s.template
  match s.save with
  | none => e
  | some key => e.set m.save key

/-- The page with the request of a setup written onto an element.  A setup with
data or without an address writes nothing. -/
def Setup.apply (s : Setup) (m : Markers) (page : Tree) (id : NodeId) : Except Fault Tree := do
  if s.data.isSome then return page
  let some url := s.url | return page
  let some e ← page.element? id | return page
  page.setContent id (.element (s.writeOn m url e))

end Page
end PageBinding
