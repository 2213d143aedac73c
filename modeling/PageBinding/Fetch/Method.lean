/-
# How a request is made

A GET asks for what is at an address, a POST sends to it.  Nothing is sent along
here; the method only names the request.
-/

namespace PageBinding
namespace Fetch

/-- How a request is made. -/
inductive Method
  | get
  | post
  deriving DecidableEq, Repr

def Method.text : Method → String
  | .get => "GET"
  | .post => "POST"

end Fetch
end PageBinding
