/-
# The cache that was chosen

A cache of either kind, as the settings name it.
-/

import PageBinding.Cache.Directory
import PageBinding.Cache.Memory

namespace PageBinding
namespace Cache

/-- A cache in memory or in a directory. -/
inductive Chosen
  | memory (m : Memory)
  | directory (d : Directory)

namespace Chosen

/-- What is kept under a key. -/
def get : Chosen → String → Except Failure (Option String)
  | .memory m, key => .ok (m.get? key)
  | .directory d, key => d.get key

/-- The cache with a text kept under a key, and whether it is kept. -/
def set : Chosen → String → String → Chosen × Except Failure Unit
  | .memory m, key, text => (.memory (m.set key text), .ok ())
  | .directory d, key, text => (d.set key text).map .directory id

instance : Cache Chosen := ⟨get, set⟩

end Chosen
end Cache
end PageBinding
