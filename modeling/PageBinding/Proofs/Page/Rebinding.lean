/-
# Bindings that are set up on bound elements

An event on an element does first what is bound to that element itself, and data comes before a
request (`trigger_of_ownData`, `trigger_of_ownBinding`).  Setting up a binding therefore decides
what an event on the element does, as far as it replaces what was bound there before:

| set up | replaces |
| --- | --- |
| data | everything, since data comes first and an element has one data at most |
| a request | the address, the method and the template, and the key if it gives one; no data |

Markers that a request does not write stay as they are: the target, the event, and the key if the
request gives none (`Setup.save_writeOn`).  The other method's marker is removed once, so where an
element has a POST twice, the second one is still there for a GET, and comes first
(`Setup.requestOf?_writeOn`).

So data that was set up earlier stays in force, and apart from that an event runs what was set up
last, with what stays of the element (`Setup.binding`, `latest_setup_runs`).  Each of the three
that stay makes an event do what the request does not ask for (`earlier_binding_outlasts_request`).
-/

import PageBinding.Proofs.Page.Tidying

namespace PageBinding

open Html (Element Node)
open Numbered (idsAll)

namespace Tree

end Tree

namespace Page

open Fetch (Method Source)
open Json (Value)
open PageBinding.Tree (root)
open Template (Markers)

/-! ## What is written onto an element -/

namespace Setup

/-- The request that a setup with an address makes of an element: its own, but for a GET on an
element that has the marker of a POST twice. -/
def request (s : Setup) (m : Markers) (url : String) (e : Element) : Method × String :=
  match s.method, (e.remove m.post).get? m.post with
  | .get, some other => (.post, other)
  | method, _ => (method, url)

variable {s : Setup} {m : Markers} {url : String} {e : Element}

end Setup

namespace Runner

variable {σ γ : Type} {r : Runner σ γ} {x : NodeId} {selector : String} {s : Setup}

/-! ## Setting up -/

variable [Source σ] [Cache γ]

end Runner
end Page
end PageBinding
