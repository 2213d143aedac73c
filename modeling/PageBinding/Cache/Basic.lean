/-
# Kept answers

A cache keeps texts under keys.  What is kept under a key is the text that was
set last.
-/

import PageBinding.Files.FileSystem

namespace PageBinding
namespace Cache

open Files (Path)

/-- Why a cache does not do as it is asked. -/
inductive Failure
  /-- The key names no file. -/
  | invalidKey (key : String)
  | reading (path : Path) (why : Files.Failure)
  | creating (directory : Path) (why : Files.Failure)
  | writing (path : Path) (why : Files.Failure)
  /-- The cache refuses, for a reason of its own. -/
  | refused (reason : String)
  deriving DecidableEq, Repr

/-- The words for a failure, and then those for its cause. -/
def Failure.chain : Failure → List String
  | .invalidKey key =>
    ["invalid cache key " ++ Text.quoted key ++
      ": only ASCII letters, digits, '-', '_' and '.' (not leading) are allowed"]
  | .reading path why => ["reading cache file " ++ path.quoted, why.text]
  | .creating directory why => ["creating cache dir " ++ directory.quoted, why.text]
  | .writing path why => ["writing cache file " ++ path.quoted, why.text]
  | .refused reason => [reason]

/-- The words for a failure without its cause. -/
def Failure.message (f : Failure) : String := f.chain.headD ""

end Cache

/-- What keeps texts under keys. -/
class Cache (γ : Type) where
  /-- What is kept under a key. -/
  get : γ → String → Except Cache.Failure (Option String)
  /-- The cache with a text kept under a key, and whether it is kept. -/
  set : γ → String → String → γ × Except Cache.Failure Unit

end PageBinding
