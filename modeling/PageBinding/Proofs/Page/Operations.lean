/-
# What is asked of a runner

The operations of a runner as data (`Operation`), and what one of them does
(`Runner.step`).  What answers requests and what keeps answers may be other ones
between two operations.

`Reachable` are the runners that a page leads to: the one that is made of the
page, and what any operation makes of one of them.  An event takes place on a node
that the page has.
-/

import PageBinding.Page.Runner
import PageBinding.Proofs.Tree.Views

namespace PageBinding
namespace Page

open Fetch (Source)
open Json (Value)
open Template (Markers)

variable {σ γ : Type}

/-- One thing that is asked of a runner. -/
inductive Operation (σ γ : Type)
  | renderData (template : String) (data : Value)
  | renderKept (key template : String)
  | run (b : Binding)
  /-- An event on a node. -/
  | trigger (id : NodeId)
  | setUp (selector : String) (s : Setup)
  | start (selector : String) (s : Setup)
  /-- Another source and another cache. -/
  | surround (source : σ) (cache : γ)

/-- The nodes that an outcome speaks of. -/
def Outcome.nodes : Outcome → List NodeId
  | .rendered _ nodes => nodes
  | _ => []

/-- The result of an operation without its value. -/
def withoutValue {α : Type} : Runner σ γ × Except Failure α → Runner σ γ × Except Failure (Option Outcome)
  | (r, result) => (r, result.map fun _ => none)

/-- The result of an operation with its outcome. -/
def withOutcome : Runner σ γ × Except Failure Outcome → Runner σ γ × Except Failure (Option Outcome)
  | (r, result) => (r, result.map some)

namespace Runner

variable [Source σ] [Cache γ]

/-- What an operation makes of a runner, and its outcome if it has one. -/
def step (r : Runner σ γ) : Operation σ γ → Runner σ γ × Except Failure (Option Outcome)
  | .renderData template data => withOutcome (r.renderData template data)
  | .renderKept key template => withoutValue (r.renderKept key template)
  | .run b => withOutcome (r.run b)
  | .trigger id => withOutcome (r.trigger id)
  | .setUp selector s => withoutValue (r.setUp selector s)
  | .start selector s => withOutcome (r.start selector s)
  | .surround source cache => ({ r with source := source, cache := cache }, .ok none)

/-- An event takes place on a node that the page has. -/
def Admits (r : Runner σ γ) : Operation σ γ → Prop
  | .trigger id => r.page.tree.Has id
  | _ => True

/-- The runners that a page leads to. -/
inductive Reachable (page : Tree) (m : Markers) : Runner σ γ → Prop
  | start {r : Runner σ γ} (source : σ) (cache : γ) : ofPage page m source cache = .ok r →
    Reachable page m r
  | step {r : Runner σ γ} (op : Operation σ γ) : Reachable page m r → r.Admits op →
    Reachable page m (r.step op).1

end Runner
end Page
end PageBinding
