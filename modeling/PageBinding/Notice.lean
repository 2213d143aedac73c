/-
# What is reported aside

Besides their result, operations report what a user may want to know: warnings,
and traces, which are shown on request only.  A notice is one such report.
-/

import PageBinding.Text.Quoted

namespace PageBinding

/-- What a repetition found where a list should be. -/
inductive NoList
  | undefined
  | context
  | otherValue
  deriving DecidableEq, Repr

def NoList.text : NoList → String
  | .undefined => "undefined"
  | .context => "the context itself"
  | .otherValue => "a non-array value"

/-- One report. -/
inductive Notice
  /-- An end tag closes nothing. -/
  | unmatchedEndTag (tag : String)
  /-- A document's text is not as it should be. -/
  | malformed (mistake : String)
  /-- A repetition has no list to repeat over. -/
  | nothingToRepeat (marker path : String) (found : NoList)
  /-- A repeated element has a condition, which is not looked at. -/
  | ignoredCondition (condition path repetition : String)
  /-- A request names no template, or an unknown one. -/
  | noTemplate (request : String) (template : Option String)
  | loading (request : String)
  | loaded (request : String)
  | loadFailed (request message : String)
  /-- A template was filled with an error message. -/
  | renderFailed (template message : String)
  /-- The binding of an element names no known template. -/
  | unknownTemplate (element : String)
  deriving DecidableEq, Repr

namespace Notice

/-- Whether a notice is shown without being asked for. -/
def isWarning : Notice → Bool
  | .unmatchedEndTag _ => true
  | .malformed _ => true
  | .renderFailed _ _ => true
  | .unknownTemplate _ => true
  | _ => false

/-- The words of a notice. -/
def text : Notice → String
  | .unmatchedEndTag tag => "dropping unmatched end tag </" ++ tag ++ ">"
  | .malformed mistake => "HTML parsing: " ++ mistake
  | .nothingToRepeat marker path found =>
    marker ++ "=" ++ Text.quoted path ++ " is " ++ found.text ++
      ", not an array; dropping the element"
  | .ignoredCondition condition path repetition =>
    condition ++ "=" ++ Text.quoted path ++ " on a " ++ repetition ++ " anchor is never evaluated"
  | .noTemplate request none => "binding " ++ request ++ ": no template None, ignoring"
  | .noTemplate request (some template) =>
    "binding " ++ request ++ ": no template Some(" ++ Text.quoted template ++ "), ignoring"
  | .loading request => "jx:loading " ++ request
  | .loaded request => "jx:success " ++ request
  | .loadFailed request message => "jx:error " ++ request ++ ": " ++ message
  | .renderFailed template message =>
    "rendering " ++ Text.quoted template ++ " failed: " ++ message
  | .unknownTemplate element =>
    "the binding of " ++ Text.quoted element ++ " names no known template"

/-- A notice as a line. -/
def line (n : Notice) : String := (if n.isWarning then "W: " else "T: ") ++ n.text

end Notice
end PageBinding
