/-
# What a command looks at

The paths that running a command may lead to, so that these and no others have
to be read beforehand: the page, the data, the file for each address that the
page requests, and the cache directory with the files for the keys in use.  The
last ones are known once the page has been read.
-/

import PageBinding.CommandLine.Run

namespace PageBinding
namespace CommandLine

open Files (FileSystem Path)
open Page (Binding)

/-- The paths that are named by the page and its bindings. -/
def consultedFor (a : Arguments) (s : Settings) (bindings : List Binding) : List Path :=
  let served := bindings.filterMap fun b => Fetch.pathBelow? s.root b.url
  let keys := a.key.toList ++ bindings.filterMap Binding.save
  match s.cacheDirectory with
  | none => served
  | some directory =>
    served ++ directory :: keys.map fun key => directory.join ⟨key ++ ".json"⟩

/-- The paths that running the words of a command line may lead to, as far as
the given files tell. -/
def consulted (words : List String) (environment : String → Variable) (files : FileSystem) :
    List Path :=
  match Arguments.ofWords words with
  | .error _ => []
  | .ok a =>
    a.page :: a.data.toList ++
      match settingsOf a environment, files.readText a.page with
      | .ok s, .ok text =>
        match Page.bindings (Tree.ofHtml text).1 s.markers with
        | .ok bindings => consultedFor a s bindings
        | .error _ => []
      | _, _ => []

end CommandLine
end PageBinding
