/-
# Walking down one node at a time

A descent gives out the nodes below a node one by one.  The nodes that are to be visited
are on a stack, of which the last one is the next.  A node that is given out leaves its
children there, the last child first.

What goes through a descent may stop before the nodes come to an end.

| going through | what is left of it | stops |
| --- | --- | --- |
| `findByIdOnDescent?` | an element | at the first one with the `id` |
| `textContentOnDescent` | the texts, one after the other | at the end |
| `liveSizeOnDescent` | the number of nodes | at the end |
-/

import PageBinding.Tree.Walk

namespace PageBinding
namespace Tree

/-- The nodes that are to be visited, each with those below it; the last one is the next. -/
structure Descent where
  stack : Array NodeId

namespace Descent

/-- The descent to what is below a node. -/
def below (t : Tree) (id : NodeId) : Except Fault Descent := do
  return ⟨(← t.children id).toArray.reverse⟩

/-- The next node, if there is one, and the descent that is left then. -/
def next (t : Tree) (d : Descent) : Except Fault (Option (NodeId × Descent)) :=
  match d.stack.back? with
  | none => return none
  | some id => do return some (id, ⟨d.stack.pop ++ (← t.children id).reverse⟩)

/-- What visits make of a state, one for each node, in at most the given number of steps.
A visit may be the last one. -/
def through {σ : Type} (t : Tree) (visit : NodeId → σ → Except Fault (ForInStep σ)) :
    Nat → Descent → σ → Except Fault σ
  | 0, d, s => do
    match ← d.next t with
    | none => return s
    | some (id, _) => throw (.cyclic id)
  | steps + 1, d, s => do
    match ← d.next t with
    | none => return s
    | some (id, d) =>
      match ← visit id s with
      | .done s => return s
      | .yield s => through t visit steps d s

end Descent

/-- The first element below the root with the given `id` attribute; no node behind it is
visited. -/
def findByIdOnDescent? (t : Tree) (name : String) : Except Fault (Option NodeId) := do
  let visit (id : NodeId) (found : Option NodeId) : Except Fault (ForInStep (Option NodeId)) :=
    return if ← t.hasId name id then .done (some id) else .yield found
  (← Descent.below t root).through t visit t.size none

/-- The texts in and below a node, put together as the nodes are visited. -/
def textContentOnDescent (t : Tree) (id : NodeId) : Except Fault String := do
  let visit (id : NodeId) (out : String) : Except Fault (ForInStep String) :=
    return .yield (out ++ (← t.ownText id))
  let own ← t.ownText id
  (← Descent.below t id).through t visit t.size own

/-- The number of nodes that the root leads to, itself included, counted as they are
visited. -/
def liveSizeOnDescent (t : Tree) : Except Fault Nat := do
  let visit (_ : NodeId) (n : Nat) : Except Fault (ForInStep Nat) := return .yield (n + 1)
  return 1 + (← (← Descent.below t root).through t visit t.size 0)

end Tree
end PageBinding
