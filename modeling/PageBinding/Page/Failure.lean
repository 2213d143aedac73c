/-
# Why an operation on a page fails

A failure has words of its own, and some have a cause with words of its own too.
-/

import PageBinding.Cache.Basic
import PageBinding.Json.Reader
import PageBinding.Tree.Basic

namespace PageBinding
namespace Page

/-- Why an operation on a page fails. -/
inductive Failure
  /-- The element that an output is to go into is not in the page. -/
  | noTarget (selector : String)
  /-- The template is nowhere in the page. -/
  | noPlace (template : String)
  /-- The template has no parent. -/
  | notAttached (template : String)
  /-- There is nothing to request and no data either. -/
  | nothingToBind (selector : String)
  | noElement (selector : String)
  /-- An element is gone after a binding was set up on it. -/
  | vanished (selector : String)
  | cache (why : Cache.Failure)
  /-- What is kept in the cache is no JSON text. -/
  | notData (why : Json.ReadError)
  | fault (why : Fault)
  deriving DecidableEq

/-- The words for a text that cannot be read as data, and those for its cause. -/
def notDataChain (why : Json.ReadError) : List String := ["parsing JSON data", why.message]

/-- The words for a failure, and then those for its cause. -/
def Failure.chain : Failure → List String
  | .noTarget selector => ["target " ++ Text.quoted selector ++ " not found in the page"]
  | .noPlace template => ["template " ++ Text.quoted template ++ " has no place in the page"]
  | .notAttached template =>
    ["template " ++ Text.quoted template ++ " is not attached to the page"]
  | .nothingToBind selector =>
    ["binding for " ++ Text.quoted selector ++ " has neither a url nor data"]
  | .noElement selector => ["no element " ++ Text.quoted selector ++ " in the page"]
  | .vanished selector => ["element " ++ Text.quoted selector ++ " vanished"]
  | .cache why => why.chain
  | .notData why => notDataChain why
  | .fault why => [why.message]

/-- The result of an operation on a tree as one of an operation on a page. -/
def ofTree {α : Type} : Except Fault α → Except Failure α
  | .ok a => .ok a
  | .error f => .error (.fault f)

instance : MonadLift (Except Fault) (Except Failure) := ⟨ofTree⟩

end Page
end PageBinding
