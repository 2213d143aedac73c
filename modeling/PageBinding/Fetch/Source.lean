/-
# Where data comes from

A source answers requests with the text at an address, or fails to.
-/

import PageBinding.Fetch.Method
import PageBinding.Files.FileSystem
import PageBinding.Json.Reader

namespace PageBinding
namespace Fetch

open Files (Path)

/-- Why a request brings no data. -/
inductive Failure
  /-- The answer is no success. -/
  | status (code : Nat)
  /-- The file with the answer cannot be read. -/
  | unreadable (path : Path) (why : Files.Failure)
  /-- The answer is no JSON text. -/
  | notData (why : Json.ReadError)

namespace Failure

/-- The code for an address that may not be asked for. -/
def forbidden : Failure := .status 403

/-- The code for an address where nothing is. -/
def missing : Failure := .status 404

def message : Failure → String
  | .status code => "HTTP " ++ toString code
  | .unreadable path why => "reading " ++ path.quoted ++ ": " ++ why.text
  | .notData why => "invalid JSON: " ++ why.message

end Failure

/-- What answers requests. -/
class Source (σ : Type) where
  /-- The text of the answer to a request. -/
  answer : σ → Method → String → Except Failure String

end Fetch
end PageBinding
