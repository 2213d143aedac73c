/-
# Properties of all contents

What holds of a document if it holds of those right below its top node holds of
every document (`Document.induction_up`).  A property of contents holds everywhere in a
document (`Document.Every`) if it holds of the content of each node.
-/

import PageBinding.Html.Basic

namespace PageBinding
namespace Html
namespace Document

/-- The content of the top node. -/
def content : Document → Node
  | .node n _ => n

/-- The documents right below the top node. -/
def children : Document → List Document
  | .node _ ds => ds

mutual

/-- What holds of a document if it holds of those right below its top node holds
of every document. -/
theorem induction_up {P : Document → Prop}
    (step : ∀ n ds, (∀ d ∈ ds, P d) → P (.node n ds)) : ∀ d, P d
  | .node n ds => step n ds (induction_upAll step ds)

/-- What passes from the documents right below a node to the one with that node on top holds for
each of some documents. -/
theorem induction_upAll {P : Document → Prop}
    (step : ∀ n ds, (∀ d ∈ ds, P d) → P (.node n ds)) : ∀ ds : List Document, ∀ d ∈ ds, P d
  | [], _, hd => absurd hd List.not_mem_nil
  | c :: ds, d, hd => by
    rcases List.mem_cons.1 hd with h | hd
    · exact h ▸ induction_up step c
    · exact induction_upAll step ds d hd

end

mutual

/-- A property of contents holds everywhere in a document. -/
def Every (P : Node → Prop) : Document → Prop
  | .node n ds => P n ∧ EveryAll P ds

/-- A property of contents holds everywhere in some documents. -/
def EveryAll (P : Node → Prop) : List Document → Prop
  | [] => True
  | d :: ds => Every P d ∧ EveryAll P ds

end

variable {P Q : Node → Prop} {n : Node} {d : Document} {ds es : List Document}

/-- A property holds everywhere in some documents if it does in each of them. -/
theorem everyAll_iff : EveryAll P ds ↔ ∀ d ∈ ds, Every P d := by
  induction ds with
  | nil => simp [EveryAll]
  | cons d ds ih => rw [EveryAll, ih, List.forall_mem_cons]

/-- A property holds everywhere in a document if it does at the top and in each document below. -/
theorem every_node : Every P (.node n ds) ↔ P n ∧ ∀ d ∈ ds, Every P d := by
  rw [Every, everyAll_iff]

/-- A property holds everywhere in two lists in a row if it does in both. -/
theorem everyAll_append : EveryAll P (ds ++ es) ↔ EveryAll P ds ∧ EveryAll P es := by
  rw [everyAll_iff, everyAll_iff, everyAll_iff, List.forall_mem_append]

/-- A property that holds everywhere can be weakened. -/
theorem Every.mono (h : Every P d) (hPQ : ∀ n, P n → Q n) : Every Q d := by
  induction d using Document.induction_up with
  | step n ds ih =>
    obtain ⟨hn, hds⟩ := every_node.1 h
    exact every_node.2 ⟨hPQ n hn, fun d hd => ih d hd (hds d hd)⟩

/-- Two properties that hold everywhere hold together everywhere. -/
theorem Every.and (hP : Every P d) (hQ : Every Q d) : Every (fun n => P n ∧ Q n) d := by
  induction d using Document.induction_up with
  | step n ds ih =>
    obtain ⟨hPn, hPs⟩ := every_node.1 hP
    obtain ⟨hQn, hQs⟩ := every_node.1 hQ
    exact every_node.2 ⟨⟨hPn, hQn⟩, fun d hd => ih d hd (hPs d hd) (hQs d hd)⟩

end Document
end Html
end PageBinding
