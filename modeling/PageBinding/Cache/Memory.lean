/-
# Caches in memory

A cache that lasts as long as the program runs.  It takes every key.
-/

import PageBinding.Cache.Basic

namespace PageBinding
namespace Cache

/-- The texts kept, by key. -/
structure Memory where
  texts : List (String × String)
  deriving DecidableEq

namespace Memory

def empty : Memory := ⟨[]⟩

/-- What is kept under a key. -/
def get? (m : Memory) (key : String) : Option String := m.texts.lookup key

/-- The cache with a text kept under a key. -/
def set (m : Memory) (key text : String) : Memory := ⟨Keyed.set key text m.texts⟩

/-- What was stored last under a key is what is read there. -/
@[simp] theorem get?_set_self (m : Memory) (key text : String) :
    (m.set key text).get? key = some text :=
  Keyed.lookup_set_self ..

/-- Storing under one key leaves every other key as it was. -/
theorem get?_set_of_ne (m : Memory) {key other : String} (h : other ≠ key) (text : String) :
    (m.set key text).get? other = m.get? other :=
  Keyed.lookup_set_of_ne h ..

instance : Cache Memory :=
  ⟨fun m key => .ok (m.get? key), fun m key text => (m.set key text, .ok ())⟩

end Memory
end Cache
end PageBinding
