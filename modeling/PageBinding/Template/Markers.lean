/-
# Marker attributes

The attributes that bind data into a page.  A page has one lead for them all, which stands in
front of each of their names, so the markers of a page are given by that lead alone.  Sets of
markers whose names are chosen one by one are left out.

| marker | value |
| --- | --- |
| `each` | the path of a list: the element is repeated for each item |
| `if` | a path: the element is left out if what is there is untrue |
| `get`, `post` | the address that a trigger requests |
| `template` | the name of the template that the answer fills |
| `target` | the element that the output goes into |
| `save` | the key that the answer is kept under |
| `trigger` | the event that triggers the request |
-/

namespace PageBinding
namespace Template

/-- The names of the marker attributes, given by what is in front of each. -/
structure Markers where
  lead : String
  deriving DecidableEq, Repr

namespace Markers

/-- The markers that a page has unless another lead is chosen. -/
def standard : Markers := ⟨"jx-"⟩

instance : Inhabited Markers := ⟨standard⟩

def each (m : Markers) : String := m.lead ++ "each"
def condition (m : Markers) : String := m.lead ++ "if"
def get (m : Markers) : String := m.lead ++ "get"
def post (m : Markers) : String := m.lead ++ "post"
def template (m : Markers) : String := m.lead ++ "template"
def target (m : Markers) : String := m.lead ++ "target"
def save (m : Markers) : String := m.lead ++ "save"
def trigger (m : Markers) : String := m.lead ++ "trigger"

end Markers
end Template
end PageBinding
