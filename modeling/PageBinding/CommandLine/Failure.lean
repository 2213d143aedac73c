/-
# Why a command fails

A failed command says why, and what caused that if there is a cause.
-/

import PageBinding.Page.Failure
import PageBinding.Settings

namespace PageBinding
namespace CommandLine

open Files (Path)

/-- Why a command fails. -/
inductive Failure
  | settings (why : Settings.Failure)
  | reading (path : Path) (why : Files.Failure)
  /-- The action needs an option that is not given. -/
  | missingOption (name : String)
  | notData (why : Json.ReadError)
  /-- The page does not have the template that is asked for. -/
  | noTemplate (template : String) (page : Path)
  /-- The same, where those that it has are told. -/
  | noTemplateAmong (template : String) (page : Path) (names : List String)
  | noElement (element : String) (page : Path)
  | noBinding (element : String)
  | nothingKept (key : String)
  | unknownAction (name : String)
  | page (why : Page.Failure)

/-- The words for a failure, and then those for its cause. -/
def Failure.chain : Failure → List String
  | .settings why => [why.message]
  | .reading path why => ["reading file " ++ path.quoted, why.text]
  | .missingOption name => ["need --" ++ name ++ " option"]
  | .notData why => Page.notDataChain why
  | .noTemplate template path => ["no template " ++ Text.quoted template ++ " in " ++ path.quoted]
  | .noTemplateAmong template path names =>
    ["no template " ++ Text.quoted template ++ " in " ++ path.quoted ++
      " (have: " ++ ", ".intercalate names ++ ")"]
  | .noElement element path => ["no element " ++ Text.quoted element ++ " in " ++ path.quoted]
  | .noBinding element =>
    ["element " ++ Text.quoted element ++ " and its ancestors have no binding"]
  | .nothingKept key => ["nothing cached under key " ++ Text.quoted key]
  | .unknownAction name => ["unknown action " ++ Text.quoted name]
  | .page why => why.chain

/-- A failure as it is printed, with its cause below it. -/
def Failure.text (f : Failure) : String :=
  match f.chain with
  | [] => "Error: "
  | [top] => "Error: " ++ top
  | top :: causes => "Error: " ++ top ++ "\n\nCaused by:\n    " ++ "\n    ".intercalate causes

end CommandLine
end PageBinding
