/-
# Prepared answers

A source that has an answer prepared for some requests: a status and a text.
Only a status from 200 to 299 is a success.
-/

import PageBinding.Fetch.Source
import PageBinding.Keyed

namespace PageBinding
namespace Fetch

/-- A status and a text. -/
structure Answer where
  status : Nat
  body : String
  deriving DecidableEq

/-- Whether a status is a success. -/
def isSuccess (status : Nat) : Bool := 200 ≤ status && status < 300

/-- The answers to some requests. -/
structure Canned where
  answers : List ((Method × String) × Answer)
  deriving DecidableEq

namespace Canned

def empty : Canned := ⟨[]⟩

/-- The answers with that to one request set. -/
def set (c : Canned) (method : Method) (url : String) (a : Answer) : Canned :=
  ⟨Keyed.set (method, url) a c.answers⟩

/-- The answer to a request. -/
def answer (c : Canned) (method : Method) (url : String) : Except Failure String :=
  match c.answers.lookup (method, url) with
  | none => .error .missing
  | some a => if isSuccess a.status then .ok a.body else .error (.status a.status)

instance : Source Canned := ⟨answer⟩

/-- An answer that was stored is given back: its body under a success status, the status as an error
otherwise. -/
theorem answer_set_self (c : Canned) (method : Method) (url : String) (a : Answer) :
    (c.set method url a).answer method url =
      if isSuccess a.status then .ok a.body else .error (.status a.status) := by
  simp [answer, set]

end Canned
end Fetch
end PageBinding
