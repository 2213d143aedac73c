/-
# What a template means

The documents that a document stands for when data is bound to it, said without
a tree that changes:

| content | documents |
| --- | --- |
| an element with the `each` marker | for each item of the list at its path, those of the element without its `each` and `if` markers, bound to the item; none if there is no list |
| another element, whose `if` marker has an untrue path | none |
| another element | the element without its `if` marker, with its attribute values filled |
| a text | the text, filled |
| a comment or a fragment | itself |

Below a node that stays is what the documents below it stand for, one after the
other.  An element that is repeated has lost an attribute when it is looked at
again, so the number of nodes and attributes (`weight`) goes down.
-/

import PageBinding.Proofs.Html.Every
import PageBinding.Template.Rendering

namespace PageBinding

open Html (Node Element Document)
open Json (Value)

namespace Html

/-- The number of attributes of a content. -/
def Node.attributeCount (n : Node) : Nat := (n.element?.map fun e => e.attributes.length).getD 0

namespace Document

mutual

/-- The number of nodes and attributes of a document. -/
def weight : Document → Nat
  | .node n ds => weightAll ds + 1 + n.attributeCount

/-- The number of nodes and attributes of some documents. -/
def weightAll : List Document → Nat
  | [] => 0
  | d :: ds => weight d + weightAll ds

end

/-- A document has at least one node. -/
theorem weight_pos (d : Document) : 0 < weight d := by
  cases d
  rw [weight]
  omega

/-- Each of some documents weighs no more than all of them. -/
theorem weight_le_of_mem {ds : List Document} {d : Document} (hd : d ∈ ds) :
    weight d ≤ weightAll ds := by
  induction ds with
  | nil => cases hd
  | cons c ds ih =>
    rw [weightAll]
    rcases List.mem_cons.1 hd with rfl | hd
    · exact Nat.le_add_right ..
    · exact Nat.le_trans (ih hd) (Nat.le_add_left ..)

end Document

/-- Removing an attribute leaves no more attributes. -/
theorem Element.length_remove_le (e : Element) (name : String) :
    (e.remove name).attributes.length ≤ e.attributes.length :=
  List.eraseP_sublist.length_le

/-- Removing an attribute that an element has leaves fewer. -/
theorem Element.length_remove_lt {e : Element} {name v : String} (h : e.get? name = some v) :
    (e.remove name).attributes.length < e.attributes.length := by
  obtain ⟨a, ha, -⟩ := Option.map_eq_some_iff.1 h
  have hmem : a ∈ e.attributes := List.mem_of_find?_eq_some ha
  rw [Element.remove, List.length_eraseP_of_mem hmem (List.find?_some ha :)]
  exact Nat.sub_lt (List.length_pos_of_mem hmem) Nat.one_pos

end Html

namespace Template

open Html.Document (weight weightAll)

/-- An element with its attribute values filled. -/
def fillAttributes (context : Value) (e : Element) : Element :=
  { e with attributes := e.attributes.map fun a => (a.1, fillText context a.2) }

/-- An element without what marks it as repeated. -/
def single (m : Markers) (e : Element) : Element := (e.remove m.each).remove m.condition

/-- An element that is repeated has fewer attributes without what marks it so. -/
theorem length_single_lt {m : Markers} {e : Element} {path : String}
    (h : e.get? m.each = some path) : (single m e).attributes.length < e.attributes.length :=
  Nat.lt_of_le_of_lt (Element.length_remove_le ..) (Element.length_remove_lt h)

mutual

/-- The documents that a document stands for. -/
def meaning (m : Markers) (context : Value) : Document → List Document
  | .node (.element e) ds =>
    match _h : e.get? m.each with
    | some path =>
      match context.resolve? path with
      | some (.array items) =>
        items.flatMap fun item => meaning m item (.node (.element (single m e)) ds)
      | _ => []
    | none =>
      let filled := fillAttributes context e
      match filled.get? m.condition with
      | none => [.node (.element filled) (meaningAll m context ds)]
      | some path =>
        if Json.truthy? (context.resolve? path) then
          [.node (.element (filled.remove m.condition)) (meaningAll m context ds)]
        else []
  | .node (.text s) ds => [.node (.text (fillText context s)) (meaningAll m context ds)]
  | .node (.comment s) ds => [.node (.comment s) (meaningAll m context ds)]
  | .node .fragment ds => [.node .fragment (meaningAll m context ds)]
termination_by d => (weight d, 0)
decreasing_by
  all_goals
    simp only [weight, Node.attributeCount, Node.element?, Option.map_some, Option.getD_some,
      Option.map_none, Option.getD_none, Prod.lex_def]
    left
  · have := length_single_lt _h
    omega
  all_goals omega

/-- The documents that some documents stand for, one after the other. -/
def meaningAll (m : Markers) (context : Value) : List Document → List Document
  | [] => []
  | d :: ds => meaning m context d ++ meaningAll m context ds
termination_by ds => (weightAll ds, 1)
decreasing_by
  all_goals
    have := d.weight_pos
    simp only [weightAll, Prod.lex_def]
    omega

end

/-- A content without what marks it as repeated. -/
def singleContent (m : Markers) : Node → Node
  | .element e => .element (single m e)
  | n => n

variable {m : Markers} {context : Value} {n : Node} {ds : List Document} {path : String}

/-- A repeated document weighs less without what marks it so, which is why the recursion ends. -/
theorem weight_singleContent_lt (h : repetition? m n = some path) :
    weight (.node (singleContent m n) ds) < weight (.node n ds) := by
  cases n with
  | element e =>
    have := length_single_lt (m := m) (e := e) h
    simp only [weight, singleContent, Node.attributeCount, Node.element?, Option.map_some,
      Option.getD_some]
    omega
  | _ => cases h

/-- What documents stand for is what each of them stands for. -/
theorem meaningAll_eq_flatMap : meaningAll m context ds = ds.flatMap (meaning m context) := by
  induction ds with
  | nil => rw [meaningAll, List.flatMap_nil]
  | cons d ds ih => rw [meaningAll, ih, List.flatMap_cons]

/-- What a repeated document stands for. -/
theorem meaning_repeated (h : repetition? m n = some path) :
    meaning m context (.node n ds) =
      match context.resolve? path with
      | some (.array items) => items.flatMap fun item => meaning m item (.node (singleContent m n) ds)
      | _ => [] := by
  cases n with
  | element e =>
    have he : e.get? m.each = some path := h
    rw [meaning]
    split
    · rename_i path' he'
      rw [he] at he'
      obtain rfl := Option.some.inj he'
      rfl
    · rename_i he'
      rw [he] at he'
      cases he'
  | _ => cases h

/-- A document that is repeated over a list stands for what it means for each item. -/
theorem meaning_repeated_array {items : List Value} (h : repetition? m n = some path)
    (hr : context.resolve? path = some (.array items)) :
    meaning m context (.node n ds) =
      items.flatMap fun item => meaning m item (.node (singleContent m n) ds) := by
  rw [meaning_repeated h, hr]

/-- A document that is repeated over anything but a list stands for nothing. -/
theorem meaning_repeated_other (h : repetition? m n = some path)
    (hr : ∀ items, context.resolve? path ≠ some (.array items)) :
    meaning m context (.node n ds) = [] := by
  rw [meaning_repeated h]
  split
  · rename_i items hi
    exact absurd hi (hr items)
  · rfl

/-- What a document stands for that is not repeated. -/
theorem meaning_single (h : repetition? m n = none) :
    meaning m context (.node n ds) =
      if (checkContent m context (fillContent context n)).2 then
        [.node (checkContent m context (fillContent context n)).1 (ds.flatMap (meaning m context))]
      else [] := by
  rw [← meaningAll_eq_flatMap]
  cases n with
  | element e =>
    have he : e.get? m.each = none := h
    rw [meaning]
    split
    · rename_i path' he'
      rw [he] at he'
      cases he'
    · rw [fillContent, checkContent, ← fillAttributes]
      cases hc : (fillAttributes context e).get? m.condition with
      | none =>
        simp only [hc]
        rfl
      | some path => simp only [hc]
  | _ => rw [meaning]; rfl

/-! ## What stays so -/

/-- A property of contents that is kept when data is bound. -/
structure Lasting (m : Markers) (P : Node → Prop) : Prop where
  fill : ∀ context n, P n → P (fillContent context n)
  check : ∀ context n, P n → P (checkContent m context n).1
  single : ∀ n, P n → P (singleContent m n)

/-- The names of the attributes of a content. -/
def names (n : Node) : List String := ((n.element?.map Element.attributes).getD []).map Prod.fst

/-- Filling attribute values keeps the names. -/
theorem names_fillContent (context : Value) (n : Node) : names (fillContent context n) = names n := by
  cases n with
  | element e => simp [names, fillContent, Node.element?]
  | _ => rfl

/-- Removing an attribute adds no name. -/
theorem names_remove (e : Element) (name : String) :
    (names (.element (e.remove name))).Sublist (names (.element e)) :=
  List.eraseP_sublist.map _

/-- Checking a condition adds no name. -/
theorem names_checkContent (m : Markers) (context : Value) (n : Node) :
    (names (checkContent m context n).1).Sublist (names n) := by
  cases n with
  | element e =>
    rw [checkContent]
    split
    · exact .refl _
    · exact names_remove e _
  | _ => exact .refl _

/-- Removing what marks a repetition adds no name. -/
theorem names_singleContent (m : Markers) (n : Node) :
    (names (singleContent m n)).Sublist (names n) := by
  cases n with
  | element e => exact (names_remove _ _).trans (names_remove e _)
  | _ => exact .refl _

/-- What holds of the names of a content and of fewer of them is kept. -/
theorem lasting_names (m : Markers) {Q : List String → Prop}
    (hQ : ∀ ks ls, List.Sublist ks ls → Q ls → Q ks) : Lasting m fun n => Q (names n) where
  fill context n h := (names_fillContent context n).symm ▸ h
  check context n h := hQ _ _ (names_checkContent m context n) h
  single n h := hQ _ _ (names_singleContent m n) h

/-- The attributes of a content have different names. -/
def Distinct (n : Node) : Prop := (names n).Nodup

/-- Attributes of different names stay so when data is bound. -/
theorem lasting_distinct (m : Markers) : Lasting m Distinct :=
  lasting_names m fun _ _ hs h => h.sublist hs

/-- An attribute that was removed is gone, if no other one has its name. -/
theorem get?_remove_self {e : Element} {name : String} (h : Distinct (.element e)) :
    (e.remove name).get? name = none := by
  have key : ∀ as : List Html.Attribute, (as.map Prod.fst).Nodup →
      (as.eraseP fun a => a.1 = name).find? (fun a => a.1 = name) = none := by
    intro as
    induction as with
    | nil => exact fun _ => rfl
    | cons a as ih =>
      intro hn
      rw [List.map_cons, List.nodup_cons] at hn
      by_cases ha : a.1 = name
      · rw [List.eraseP_cons_of_pos (by simpa using ha), List.find?_eq_none]
        intro b hb hbn
        exact hn.1 (List.mem_map.2 ⟨b, hb, (of_decide_eq_true hbn).trans ha.symm⟩)
      · rw [List.eraseP_cons_of_neg (by simpa using ha), List.find?_cons_of_neg (by simpa using ha),
          ih hn.2]
  rw [Element.get?, Element.remove, key e.attributes h, Option.map_none]

/-- Removing an attribute adds none. -/
theorem get?_remove_none {e : Element} {name other : String} (h : e.get? name = none) :
    (e.remove other).get? name = none := by
  rw [Element.get?, Option.map_eq_none_iff, List.find?_eq_none] at h ⊢
  exact fun a ha => h a (List.mem_of_mem_eraseP ha)

/-- An element lacks an attribute just if the name is not among those of its attributes. -/
theorem get?_eq_none_iff {e : Element} {name : String} :
    e.get? name = none ↔ name ∉ names (.element e) := by
  rw [Element.get?, Option.map_eq_none_iff, List.find?_eq_none]
  constructor
  · intro h hm
    obtain ⟨a, ha, rfl⟩ := List.mem_map.1 hm
    exact h a ha (decide_eq_true rfl)
  · exact fun h a ha he => h (List.mem_map.2 ⟨a, ha, of_decide_eq_true he⟩)

/-- A copy is not left out, if no name occurs twice. -/
theorem checkContent_singleContent (h : Distinct n) (context : Value) :
    (checkContent m context (fillContent context (singleContent m n))).2 = true := by
  cases n with
  | element e =>
    have hs : (single m e).get? m.condition = none :=
      get?_remove_self (h.sublist (names_remove e m.each))
    have hf : (fillAttributes context (single m e)).get? m.condition = none := by
      rw [get?_eq_none_iff] at hs ⊢
      exact (names_fillContent context (.element (single m e))).symm ▸ hs
    rw [singleContent, fillContent, ← fillAttributes, checkContent, hf]
  | _ => rfl

/-- **A copy is not repeated again,** if no name occurs twice. -/
theorem repetition?_singleContent (h : Distinct n) : repetition? m (singleContent m n) = none := by
  cases n with
  | element e => exact get?_remove_none (get?_remove_self h)
  | _ => rfl

end Template
end PageBinding
