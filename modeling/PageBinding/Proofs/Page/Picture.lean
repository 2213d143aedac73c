/-
# The picture of a page

What a page is to look like is said by the documents that it was made of and by
the last output of each of its templates: each template that has been filled is
replaced, where it stands, by its last output (`Document.filledWith`).  Bindings
that are set up write attributes onto elements (`Document.rewrite`), which neither
changes an `id` nor moves anything.

The nodes that follow a template among its siblings in the picture are counted by
`followers?`.
-/

import PageBinding.Keyed
import PageBinding.Page.Binding
import PageBinding.Proofs.Html.Every
import PageBinding.Proofs.Template.Collected
import PageBinding.Proofs.Template.Meaning
import Mathlib.Data.List.Pairwise

namespace PageBinding
namespace Html

/-- The `id` of a content. -/
def Node.id? (n : Node) : Option String := n.element?.bind fun e => e.get? "id"

/-- A content has no `id`. -/
def Node.Unnamed (n : Node) : Prop := n.id? = none

/-- The name of a template. -/
def Node.templateName? (n : Node) : Option String := if n.isTemplate then n.id? else none

/-- The content with its element changed, if that has the given `id`. -/
def Node.rewrite (name : String) (f : Element → Element) : Node → Node
  | .element e => if e.get? "id" = some name then .element (f e) else .element e
  | n => n

/-- Asking whether a content has an `id` compares that with its own. -/
theorem Node.hasId_iff {n : Node} {name : String} : n.hasId name = true ↔ n.id? = some name := by
  rw [hasId, id?]
  cases n.element? <;> simp

/-- A content with another `id`, or none, is not rewritten. -/
theorem Node.rewrite_of_ne {n : Node} {name : String} (f : Element → Element)
    (h : n.id? ≠ some name) : n.rewrite name f = n := by
  cases n with
  | element e => exact if_neg h
  | _ => rfl

/-- A change of an element that keeps its `id` and its tag. -/
structure Element.Keeps (f : Element → Element) : Prop where
  id : ∀ e, (f e).get? "id" = e.get? "id"
  tag : ∀ e, (f e).tag = e.tag

/-- A change that keeps the `id` of elements keeps that of contents. -/
theorem Element.Keeps.id? {f : Element → Element} (h : Element.Keeps f) (name : String) (n : Node) :
    (n.rewrite name f).id? = n.id? := by
  cases n with
  | element e =>
    rw [Node.rewrite]
    split_ifs
    · exact h.id e
    · rfl
  | _ => rfl

/-- A change that keeps the tag of elements keeps which contents are templates. -/
theorem Element.Keeps.isTemplate {f : Element → Element} (h : Element.Keeps f) (name : String)
    (n : Node) : (n.rewrite name f).isTemplate = n.isTemplate := by
  cases n with
  | element e =>
    rw [Node.rewrite]
    split_ifs
    · simp only [Node.isTemplate, Node.element?, Option.any_some, h.tag]
    · rfl
  | _ => rfl

/-- A change that keeps `id` and tag of elements keeps the names of templates. -/
theorem Element.Keeps.templateName? {f : Element → Element} (h : Element.Keeps f) (name : String)
    (n : Node) : (n.rewrite name f).templateName? = n.templateName? := by
  rw [Node.templateName?, Node.templateName?, h.isTemplate, h.id?]

namespace Document

mutual

/-- The `id`s in a document, in document order. -/
def idsOf : Document → List String
  | .node n ds => n.id?.toList ++ idsOfAll ds

/-- The `id`s in some documents. -/
def idsOfAll : List Document → List String
  | [] => []
  | d :: ds => idsOf d ++ idsOfAll ds

end

mutual

/-- What is inside a template that has a name has no `id`s. -/
def Closed : Document → Prop
  | .node n ds => (n.templateName? ≠ none → EveryAll Node.Unnamed ds) ∧ ClosedAll ds

/-- What is inside the templates of some documents has no `id`s. -/
def ClosedAll : List Document → Prop
  | [] => True
  | d :: ds => Closed d ∧ ClosedAll ds

end

mutual

/-- The documents in the place of a document whose templates are filled. -/
def filledWith (outputs : List (String × List Document)) : Document → List Document
  | .node n ds =>
    match n.templateName?.bind (List.lookup · outputs) with
    | some output => output
    | none => [.node n (filledWithAll outputs ds)]

/-- The documents in the place of some documents whose templates are filled. -/
def filledWithAll (outputs : List (String × List Document)) : List Document → List Document
  | [] => []
  | d :: ds => filledWith outputs d ++ filledWithAll outputs ds

end

mutual

/-- How many nodes follow the element of an `id` among its siblings, once templates
are filled. -/
def followers? (outputs : List (String × List Document)) (name : String) : Document → Option Nat
  | .node _ ds => followersAll? outputs name ds

/-- How many nodes follow the element of an `id` that is one of some documents or
inside one of them. -/
def followersAll? (outputs : List (String × List Document)) (name : String) :
    List Document → Option Nat
  | [] => none
  | d :: ds =>
    if d.content.id? = some name then some (filledWithAll outputs ds).length
    else
      match followers? outputs name d with
      | some k => some k
      | none => followersAll? outputs name ds

end

mutual

/-- The document with the elements of an `id` changed. -/
def rewrite (name : String) (f : Element → Element) : Document → Document
  | .node n ds => .node (n.rewrite name f) (rewriteAll name f ds)

/-- Some documents with the elements of an `id` changed. -/
def rewriteAll (name : String) (f : Element → Element) : List Document → List Document
  | [] => []
  | d :: ds => rewrite name f d :: rewriteAll name f ds

end

variable {d : Document} {ds es : List Document} {name : String} {f : Element → Element}
  {outputs : List (String × List Document)}

/-- The `id`s of documents in a row. -/
theorem idsOfAll_append : idsOfAll (ds ++ es) = idsOfAll ds ++ idsOfAll es := by
  induction ds with
  | nil => rfl
  | cons d ds ih => rw [List.cons_append, idsOfAll, idsOfAll, ih, List.append_assoc]

/-- Documents are closed if each of them is. -/
theorem closedAll_iff : ClosedAll ds ↔ ∀ d ∈ ds, Closed d := by
  induction ds with
  | nil => simp [ClosedAll]
  | cons d ds ih => rw [ClosedAll, ih, List.forall_mem_cons]

/-- Documents in a row are closed if they are on both sides. -/
theorem closedAll_append : ClosedAll (ds ++ es) ↔ ClosedAll ds ∧ ClosedAll es := by
  rw [closedAll_iff, closedAll_iff, closedAll_iff, List.forall_mem_append]

/-- Documents in a row are rewritten on both sides. -/
theorem rewriteAll_append :
    rewriteAll name f (ds ++ es) = rewriteAll name f ds ++ rewriteAll name f es := by
  induction ds with
  | nil => rfl
  | cons d ds ih => rw [List.cons_append, rewriteAll, rewriteAll, ih, List.cons_append]

/-- An `id` is in a document if it is that of the top or below it. -/
theorem mem_idsOf {n : Node} :
    name ∈ idsOf (.node n ds) ↔ n.id? = some name ∨ name ∈ idsOfAll ds := by
  rw [idsOf, List.mem_append, Option.mem_toList]

/-- An `id` is in some documents if it is in one of them. -/
theorem mem_idsOfAll : name ∈ idsOfAll ds ↔ ∃ d ∈ ds, name ∈ idsOf d := by
  induction ds with
  | nil => simp [idsOfAll]
  | cons d ds ih => simp [idsOfAll, ih]

mutual

/-- Only what is found for each template matters. -/
theorem filledWith_congr {outputs' : List (String × List Document)}
    (h : ∀ name, outputs'.lookup name = outputs.lookup name) : ∀ d : Document,
    filledWith outputs' d = filledWith outputs d
  | .node n ds => by
    have hn : n.templateName?.bind (List.lookup · outputs') =
        n.templateName?.bind (List.lookup · outputs) := by
      cases n.templateName? with
      | none => rfl
      | some name => exact h name
    rw [filledWith, filledWith, hn, filledWithAll_congr h ds]

/-- What is shown depends on what each template is filled with, and not on the order of the
outputs. -/
theorem filledWithAll_congr {outputs' : List (String × List Document)}
    (h : ∀ name, outputs'.lookup name = outputs.lookup name) : ∀ ds : List Document,
    filledWithAll outputs' ds = filledWithAll outputs ds
  | [] => rfl
  | d :: ds => by
    rw [filledWithAll, filledWithAll, filledWith_congr h d, filledWithAll_congr h ds]

end

/-- What has no `id` anywhere has no `id`s. -/
theorem idsOf_of_every (h : d.Every Node.Unnamed) : idsOf d = [] := by
  induction d using Document.induction_up with
  | step n ds ih =>
    obtain ⟨hn, hds⟩ := every_node.1 h
    rw [idsOf, show n.id? = none from hn, Option.toList_none, List.nil_append,
      List.eq_nil_iff_forall_not_mem]
    intro x hx
    obtain ⟨d, hd, hx⟩ := mem_idsOfAll.1 hx
    rw [ih d hd (hds d hd)] at hx
    cases hx

/-- Where no content has an `id`, there are none. -/
theorem idsOfAll_of_every (h : EveryAll Node.Unnamed ds) : idsOfAll ds = [] := by
  rw [List.eq_nil_iff_forall_not_mem]
  intro x hx
  obtain ⟨d, hd, hx⟩ := mem_idsOfAll.1 hx
  rw [idsOf_of_every (everyAll_iff.1 h d hd)] at hx
  cases hx

mutual

/-- Where no element has the `id`, nothing is changed. -/
theorem rewrite_of_notMem : ∀ (d : Document), name ∉ idsOf d → rewrite name f d = d
  | .node n ds, h => by
    rw [mem_idsOf, not_or] at h
    rw [rewrite, Node.rewrite_of_ne f h.1, rewriteAll_of_notMem ds h.2]

/-- Documents without an `id` stay as they are when its elements are changed. -/
theorem rewriteAll_of_notMem : ∀ (ds : List Document), name ∉ idsOfAll ds →
    rewriteAll name f ds = ds
  | [], _ => rfl
  | d :: ds, h => by
    rw [idsOfAll, List.mem_append, not_or] at h
    rw [rewriteAll, rewrite_of_notMem d h.1, rewriteAll_of_notMem ds h.2]

end

mutual

/-- A change that keeps `id`s keeps all of them. -/
theorem idsOf_rewrite (hf : Element.Keeps f) : ∀ (d : Document), idsOf (rewrite name f d) = idsOf d
  | .node n ds => by rw [rewrite, idsOf, idsOf, hf.id?, idsOfAll_rewriteAll hf ds]

/-- A change that keeps the `id` of elements keeps all of them. -/
theorem idsOfAll_rewriteAll (hf : Element.Keeps f) : ∀ (ds : List Document),
    idsOfAll (rewriteAll name f ds) = idsOfAll ds
  | [] => rfl
  | d :: ds => by rw [rewriteAll, idsOfAll, idsOfAll, idsOf_rewrite hf d, idsOfAll_rewriteAll hf ds]

end

mutual

/-- A property that the change keeps is kept everywhere in a document. -/
theorem every_rewrite {P : Node → Prop} (hf : ∀ n, P n → P (n.rewrite name f)) : ∀ (d : Document),
    Every P d → Every P (rewrite name f d)
  | .node n ds, h => ⟨hf n h.1, everyAll_rewriteAll hf ds h.2⟩

/-- A property that the change keeps is kept everywhere in some documents. -/
theorem everyAll_rewriteAll {P : Node → Prop} (hf : ∀ n, P n → P (n.rewrite name f)) :
    ∀ (ds : List Document), EveryAll P ds → EveryAll P (rewriteAll name f ds)
  | [], _ => trivial
  | d :: ds, h => ⟨every_rewrite hf d h.1, everyAll_rewriteAll hf ds h.2⟩

end

mutual

/-- A change that keeps `id` and tag keeps a document closed. -/
theorem closed_rewrite (hf : Element.Keeps f) : ∀ (d : Document), Closed d → Closed (rewrite name f d)
  | .node n ds, h => by
    refine ⟨fun hn => ?_, closedAll_rewriteAll hf ds h.2⟩
    rw [hf.templateName?] at hn
    exact everyAll_rewriteAll (fun n hn => (hf.id? name n).trans hn) ds (h.1 hn)

/-- A change that keeps `id` and tag keeps documents closed. -/
theorem closedAll_rewriteAll (hf : Element.Keeps f) : ∀ (ds : List Document), ClosedAll ds →
    ClosedAll (rewriteAll name f ds)
  | [], _ => trivial
  | d :: ds, h => ⟨closed_rewrite hf d h.1, closedAll_rewriteAll hf ds h.2⟩

end

mutual

/-- In a document without an `id` nothing follows it. -/
theorem followers?_of_notMem : ∀ (d : Document), name ∉ idsOf d → followers? outputs name d = none
  | .node n ds, h => by
    rw [mem_idsOf, not_or] at h
    rw [followers?, followersAll?_of_notMem ds h.2]

/-- In documents without an `id` nothing follows it. -/
theorem followersAll?_of_notMem : ∀ (ds : List Document), name ∉ idsOfAll ds →
    followersAll? outputs name ds = none
  | [], _ => rfl
  | .node n es :: ds, h => by
    rw [idsOfAll, List.mem_append, not_or] at h
    have hn : (Document.node n es).content.id? ≠ some name := fun hn => h.1 (mem_idsOf.2 (.inl hn))
    rw [followersAll?, if_neg hn, followers?_of_notMem _ h.1, followersAll?_of_notMem ds h.2]

end

/-- Documents without the `id` do not count if they stand before. -/
theorem followersAll?_append (h : name ∉ idsOfAll ds) :
    followersAll? outputs name (ds ++ es) = followersAll? outputs name es := by
  induction ds with
  | nil => rfl
  | cons d ds ih =>
    rw [idsOfAll, List.mem_append, not_or] at h
    obtain ⟨n, cs⟩ := d
    have hn : (Document.node n cs).content.id? ≠ some name := fun hn => h.1 (mem_idsOf.2 (.inl hn))
    rw [List.cons_append, followersAll?, if_neg hn, followers?_of_notMem _ h.1, ih h.2]

end Document
end Html

/-! ## Looking for an `id` -/

namespace Tree

open Html (Node)
open Html.Document (idsOf idsOfAll)
open Numbered (idsAll)

variable {t : Tree} {a : Numbered} {x y : NodeId} {name : String} {n : Node}

/-- The `id` of a node. -/
def idAt (t : Tree) (x : NodeId) : Option String := (t.contentOf x).bind Node.id?

mutual

/-- The `id`s of the nodes of what is held are those of its document. -/
theorem Holds.filterMap_idAt : ∀ {a : Numbered}, t.Holds a →
    a.ids.filterMap t.idAt = idsOf a.document
  | .node id n bs, h => by
    have hn : t.idAt id = n.id? := by rw [idAt, h.1]; rfl
    rw [Numbered.ids, Numbered.document, idsOf, List.filterMap_cons, hn,
      HoldsAll.filterMap_idAt h.2.2]
    cases n.id? <;> rfl

/-- The `id`s of nodes that a tree holds are those of their documents. -/
theorem HoldsAll.filterMap_idAt : ∀ {bs : List Numbered}, t.HoldsAll bs →
    (idsAll bs).filterMap t.idAt = idsOfAll (Numbered.documents bs)
  | [], _ => rfl
  | b :: bs, h => by
    rw [idsAll, Numbered.documents, idsOfAll, List.filterMap_append, Holds.filterMap_idAt h.1,
      HoldsAll.filterMap_idAt h.2]

end

/-- What two members of a list without repetitions share, if nothing is shared, is
that they are one. -/
theorem eq_of_nodup_filterMap {α β : Type} {f : α → Option β} {l : List α} {x y : α} {b : β}
    (hn : (l.filterMap f).Nodup) (hx : x ∈ l) (hy : y ∈ l) (hfx : f x = some b)
    (hfy : f y = some b) : x = y := by
  by_contra hne
  have : Std.Symm fun x y => ∀ b, f x = some b → ∀ c, f y = some c → b ≠ c :=
    ⟨fun x y h b hb c hc hbc => h c hc b hb hbc.symm⟩
  exact (List.pairwise_filterMap.1 hn).forall hx hy hne b hfx b hfy rfl

/-- **The element of an `id` is found,** if no other one has it. -/
theorem findById?_unique (hw : t.WellFormed) (ha : t.Holds a) (htop : a.top = root)
    (hn : (idsOf a.document).Nodup) (hx : x ∈ idsAll a.inside) (hid : t.idAt x = some name) :
    t.findById? name = .ok (some x) := by
  have hsome : ((idsAll a.inside).find? fun x => (t.contentOf x).any (Node.hasId name)).isSome := by
    refine List.find?_isSome.2 ⟨x, hx, ?_⟩
    obtain ⟨n, hn, hid⟩ := Option.bind_eq_some_iff.1 hid
    rw [hn, Option.any_some]
    exact Node.hasId_iff.2 hid
  obtain ⟨y, hy⟩ := Option.isSome_iff_exists.1 hsome
  have hfind := findById?_ok hw ha htop name
  rw [hy] at hfind
  obtain ⟨hmem, n, hny, hidy⟩ := findById?_eq_some hw ha htop hfind
  have hall : ∀ z ∈ idsAll a.inside, z ∈ a.ids := fun z hz => by
    rw [Numbered.ids_eq]
    exact List.mem_cons_of_mem _ hz
  have hyid : t.idAt y = some name := by
    rw [idAt, hny]
    exact Node.hasId_iff.1 hidy
  rw [← ha.filterMap_idAt] at hn
  rw [hfind, eq_of_nodup_filterMap hn (hall x hx) (hall y hmem) hid hyid]

/-- What is found has the `id`. -/
theorem idAt_of_findById? (hw : t.WellFormed) (ha : t.Holds a) (htop : a.top = root)
    (h : t.findById? name = .ok (some x)) : x ∈ idsAll a.inside ∧ t.idAt x = some name := by
  obtain ⟨hmem, n, hn, hid⟩ := findById?_eq_some hw ha htop h
  exact ⟨hmem, by rw [idAt, hn]; exact Node.hasId_iff.1 hid⟩

end Tree

namespace Page

open Html (Element Document)
open Html.Document (EveryAll idsOfAll filledWithAll rewriteAll)
open Template (Markers)

/-- Removing an attribute leaves the other ones. -/
theorem get?_remove_of_ne {e : Element} {name other : String} (h : other ≠ name) :
    (e.remove name).get? other = e.get? other := by
  rw [Element.get?, Element.get?, Element.remove]
  congr 1
  induction e.attributes with
  | nil => rfl
  | cons a as ih =>
    by_cases ha : a.1 = name
    · have hne : ¬ a.1 = other := fun he => h (he.symm.trans ha)
      rw [List.eraseP_cons_of_pos (by simpa using ha), List.find?_cons_of_neg (by simpa using hne)]
    · rw [List.eraseP_cons_of_neg (by simpa using ha), List.find?_cons, List.find?_cons, ih]

/-- Setting an attribute leaves the other ones. -/
theorem get?_set_of_ne {e : Element} {name other v : String} (h : other ≠ name) :
    (e.set name v).get? other = e.get? other := by
  rw [Element.get?, Element.get?, Element.set]
  congr 1
  induction e.attributes with
  | nil => simp [Element.setIn, Ne.symm h]
  | cons a as ih =>
    obtain ⟨k, w⟩ := a
    rw [Element.setIn]
    split_ifs with hk
    · have hne : ¬ k = other := fun he => h (he.symm.trans hk)
      rw [List.find?_cons_of_neg (by simpa using hne), List.find?_cons_of_neg (by simpa using hne)]
    · rw [List.find?_cons, List.find?_cons, ih]

/-- No marker that is written is called `id`. -/
theorem id_ne_marker (m : Markers) : "id" ≠ m.get ∧ "id" ≠ m.post ∧ "id" ≠ m.template ∧
    "id" ≠ m.save := by
  have key : ∀ s : String, 2 < s.length → "id" ≠ m.lead ++ s := by
    intro s hs he
    have hl := congrArg String.length he
    rw [String.length_append] at hl
    have : "id".length = 2 := rfl
    omega
  exact ⟨key _ (by decide), key _ (by decide), key _ (by decide), key _ (by decide)⟩

/-- **Only four markers are written.** -/
theorem Setup.get?_writeOn_of_ne {s : Setup} {m : Markers} {url name : String} {e : Element}
    (hget : name ≠ m.get) (hpost : name ≠ m.post) (htemplate : name ≠ m.template)
    (hsave : name ≠ m.save) : (s.writeOn m url e).get? name = e.get? name := by
  rw [writeOn]
  cases s.method <;> cases s.save <;> dsimp only <;>
    simp only [get?_set_of_ne hget, get?_set_of_ne hpost, get?_set_of_ne htemplate,
      get?_set_of_ne hsave, get?_remove_of_ne hget, get?_remove_of_ne hpost]

/-- **Writing a request onto an element** keeps its `id` and its tag. -/
theorem Setup.writeOn_keeps (s : Setup) (m : Markers) (url : String) :
    Element.Keeps (s.writeOn m url) := by
  obtain ⟨hget, hpost, htemplate, hsave⟩ := id_ne_marker m
  refine ⟨fun e => get?_writeOn_of_ne hget hpost htemplate hsave, fun e => ?_⟩
  rw [writeOn]
  cases s.method <;> cases s.save <;> rfl

/-- The picture of a page: the documents that it was made of, with what bindings
wrote onto them, and the last outputs of its templates. -/
structure Picture where
  page : List Document
  outputs : List (String × List Document)

namespace Picture

/-- What a page shows, as its picture says. -/
def documents (picture : Picture) : List Document := filledWithAll picture.outputs picture.page

/-- The picture with a template filled. -/
def fill (picture : Picture) (template : String) (output : List Document) : Picture :=
  { picture with outputs := Keyed.set template output picture.outputs }

/-- The picture with a binding set up. -/
def write (picture : Picture) (m : Markers) (selector : String) (s : Setup) : Picture :=
  match s.data, s.url with
  | none, some url =>
    { picture with page := rewriteAll (selectedId selector) (s.writeOn m url) picture.page }
  | _, _ => picture

/-- A name is an `id` of the documents that a page was made of, and of templates only. -/
structure Has (picture : Picture) (name : String) : Prop where
  mem : name ∈ idsOfAll picture.page
  template : EveryAll (fun n => n.id? = some name → n.isTemplate = true) picture.page

end Picture
end Page
end PageBinding
