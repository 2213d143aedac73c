/-
# Layouts

A layout says for a page which of its nodes are still those that it was made of,
and where the outputs of templates are.  It has a source, the documents that the
page was made of, and it shows what is held below the root.

A layout fits what a live page remembers (`Layout.Fits`) if each output is at the
place of its template, and the elements that are left have no places.  Then what it
shows is its source with the templates filled (`documents_shownAll`), and the element
of each `id`, or the place of the template of that name, stands somewhere in it
(`exists_around`).
-/

import PageBinding.Page.LivePage
import PageBinding.Proofs.Page.Picture
import PageBinding.Proofs.Tree.Around
import PageBinding.Proofs.Tree.Compacting

namespace PageBinding
namespace Page

open Html (Node Element Document)
open Html.Document (ClosedAll idsOf idsOfAll filledWith filledWithAll followers? followersAll? rewrite
  rewriteAll EveryAll everyAll_iff every_node)
open Numbered (documents)

/-- What stands in a page: a node of those that it was made of, or the outputs of a
template in its place. -/
inductive Layout
  | node (id : NodeId) (content : Node) (inside : List Layout)
  | place (content : Node) (hidden : List Document) (outputs : List Numbered)

namespace Layout

mutual

/-- What a layout shows. -/
def shown : Layout → List Numbered
  | .node id n ls => [.node id n (shownAll ls)]
  | .place _ _ outs => outs

/-- What some layouts show, one after the other. -/
def shownAll : List Layout → List Numbered
  | [] => []
  | l :: ls => shown l ++ shownAll ls

end

mutual

/-- What a layout was made of. -/
def source : Layout → Document
  | .node _ n ls => .node n (sourceAll ls)
  | .place n hidden _ => .node n hidden

/-- What some layouts were made of. -/
def sourceAll : List Layout → List Document
  | [] => []
  | l :: ls => source l :: sourceAll ls

end

/-- The content of the node, or of the template. -/
def content : Layout → Node
  | .node _ n _ => n
  | .place n _ _ => n

mutual

/-- A layout fits what is remembered of places and outputs, below a node. -/
def Fits (places : List (String × Place)) (outputs : List (String × List Document))
    (owner : NodeId) : Layout → Prop
  | .node id n ls =>
    (∀ name, n.id? = some name → places.lookup name = none ∧ outputs.lookup name = none) ∧
      FitsAll places outputs id ls
  | .place n hidden outs =>
    ∃ name place, n.templateName? = some name ∧ places.lookup name = some place ∧
      place.parent = owner ∧ place.nodes = outs.map Numbered.top ∧
      outputs.lookup name = some (documents outs) ∧ EveryAll Node.Unnamed hidden ∧
      EveryAll Node.Unnamed (documents outs)

/-- Some layouts fit what is remembered, below a node. -/
def FitsAll (places : List (String × Place)) (outputs : List (String × List Document))
    (owner : NodeId) : List Layout → Prop
  | [] => True
  | l :: ls => Fits places outputs owner l ∧ FitsAll places outputs owner ls

end

mutual

/-- What holds of a layout if it holds of those right inside it holds of every one. -/
theorem induction_up {P : Layout → Prop}
    (node : ∀ id n ls, (∀ l ∈ ls, P l) → P (.node id n ls))
    (place : ∀ n hidden outs, P (.place n hidden outs)) : ∀ l, P l
  | .node id n ls => node id n ls (induction_upAll node place ls)
  | .place n hidden outs => place n hidden outs

/-- What passes from the layouts inside a node to the node, and holds for all places, holds for each
of some layouts. -/
theorem induction_upAll {P : Layout → Prop}
    (node : ∀ id n ls, (∀ l ∈ ls, P l) → P (.node id n ls))
    (place : ∀ n hidden outs, P (.place n hidden outs)) : ∀ ls : List Layout, ∀ l ∈ ls, P l
  | [], _, hl => absurd hl List.not_mem_nil
  | k :: ls, l, hl => by
    rcases List.mem_cons.1 hl with h | hl
    · exact h ▸ induction_up node place k
    · exact induction_upAll node place ls l hl

end

variable {places places' : List (String × Place)} {outputs outputs' : List (String × List Document)}
  {owner q : NodeId} {name : String} {l : Layout} {ls ks pre post : List Layout} {n : Node}
  {C : List Layout → List Layout} {f : NodeId → NodeId}

/-- What layouts in a row show is what they show, in a row. -/
theorem shownAll_append : shownAll (ls ++ ks) = shownAll ls ++ shownAll ks := by
  induction ls with
  | nil => rfl
  | cons l ls ih => rw [List.cons_append, shownAll, shownAll, ih, List.append_assoc]

/-- What layouts in a row were made of is what they were made of, in a row. -/
theorem sourceAll_append : sourceAll (ls ++ ks) = sourceAll ls ++ sourceAll ks := by
  induction ls with
  | nil => rfl
  | cons l ls ih => rw [List.cons_append, sourceAll, sourceAll, ih, List.cons_append]

/-- Layouts in a row fit if they do on both sides. -/
theorem fitsAll_append : FitsAll places outputs owner (ls ++ ks) ↔
    FitsAll places outputs owner ls ∧ FitsAll places outputs owner ks := by
  induction ls with
  | nil => simp [FitsAll]
  | cons l ls ih => rw [List.cons_append, FitsAll, FitsAll, ih, and_assoc]

/-- The `id`s that layouts were made of split at each one of them. -/
theorem idsOfAll_split : idsOfAll (sourceAll (pre ++ l :: post)) =
    idsOfAll (sourceAll pre) ++ (idsOf l.source ++ idsOfAll (sourceAll post)) := by
  rw [sourceAll_append, Document.idsOfAll_append, sourceAll, idsOfAll]

/-- Only a template with that `id` has the name. -/
theorem templateName?_eq_some {name : String} (h : n.templateName? = some name) :
    n.isTemplate = true ∧ n.id? = some name := by
  rw [Node.templateName?] at h
  split_ifs at h with ht
  exact ⟨ht, h⟩

/-! ## What is shown -/

mutual

/-- **What is shown is the source with the templates filled.** -/
theorem documents_shown : ∀ {owner : NodeId} (l : Layout), Fits places outputs owner l →
    documents l.shown = filledWith outputs l.source
  | _, .node id n ls, h => by
    rw [shown, source, filledWith]
    have hn : n.templateName?.bind (List.lookup · outputs) = none := by
      cases hname : n.templateName? with
      | none => rfl
      | some name => exact (h.1 name (templateName?_eq_some hname).2).2
    rw [hn, documents, documents, Numbered.document, documents_shownAll ls h.2]
  | _, .place n hidden outs, ⟨name, spot, hname, _, _, _, hout, _⟩ => by
    rw [shown, source, filledWith, hname, Option.bind_some, hout]

/-- What fitting layouts show are the documents of the page with its templates filled. -/
theorem documents_shownAll : ∀ {owner : NodeId} (ls : List Layout), FitsAll places outputs owner ls →
    documents (shownAll ls) = filledWithAll outputs (sourceAll ls)
  | _, [], _ => rfl
  | _, l :: ls, h => by
    rw [shownAll, sourceAll, filledWithAll, Numbered.Around.documents_append, documents_shown l h.1,
      documents_shownAll ls h.2]

end

mutual

/-- The `id`s that are shown are among those of the source. -/
theorem idsOf_shown : ∀ {owner : NodeId} (l : Layout), Fits places outputs owner l →
    (idsOfAll (documents l.shown)).Sublist (idsOf l.source)
  | _, .node id n ls, h => by
    rw [shown, source, documents, documents, Numbered.document, idsOfAll, idsOfAll, List.append_nil,
      idsOf, idsOf]
    exact (List.Sublist.refl _).append (idsOf_shownAll ls h.2)
  | _, .place n hidden outs, ⟨name, spot, _, _, _, _, _, _, hun⟩ => by
    rw [shown, Document.idsOfAll_of_every hun]
    exact List.nil_sublist _

/-- The `id`s that are shown are some of those that the page was made of, in their order. -/
theorem idsOf_shownAll : ∀ {owner : NodeId} (ls : List Layout), FitsAll places outputs owner ls →
    (idsOfAll (documents (shownAll ls))).Sublist (idsOfAll (sourceAll ls))
  | _, [], _ => .slnil
  | _, l :: ls, h => by
    rw [shownAll, sourceAll, Numbered.Around.documents_append, Document.idsOfAll_append, idsOfAll]
    exact (idsOf_shown l h.1).append (idsOf_shownAll ls h.2)

end

mutual

/-- What is remembered of another template does not matter. -/
theorem Fits.congr (hp : ∀ other, other ≠ name → places'.lookup other = places.lookup other)
    (ho : ∀ other, other ≠ name → outputs'.lookup other = outputs.lookup other) :
    ∀ {owner : NodeId} (l : Layout), name ∉ idsOf l.source → Fits places outputs owner l →
      Fits places' outputs' owner l
  | _, .node id n ls, hn, h => by
    rw [source, Document.mem_idsOf, not_or] at hn
    refine ⟨fun other hother => ?_, FitsAll.congr hp ho ls hn.2 h.2⟩
    have hne : other ≠ name := by
      rintro rfl
      exact hn.1 hother
    rw [hp other hne, ho other hne]
    exact h.1 other hother
  | _, .place n hidden outs, hn, ⟨other, spot, hother, hspot, hparent, hnodes, hout, hh, hun⟩ => by
    rw [source, Document.mem_idsOf, not_or] at hn
    have hne : other ≠ name := by
      rintro rfl
      exact hn.1 (templateName?_eq_some hother).2
    exact ⟨other, spot, hother, (hp other hne).trans hspot, hparent, hnodes,
      (ho other hne).trans hout, hh, hun⟩

/-- Layouts without a name fit when only what is remembered of that name changes. -/
theorem FitsAll.congr (hp : ∀ other, other ≠ name → places'.lookup other = places.lookup other)
    (ho : ∀ other, other ≠ name → outputs'.lookup other = outputs.lookup other) :
    ∀ {owner : NodeId} (ls : List Layout), name ∉ idsOfAll (sourceAll ls) →
      FitsAll places outputs owner ls → FitsAll places' outputs' owner ls
  | _, [], _, _ => trivial
  | _, l :: ls, hn, h => by
    rw [sourceAll, idsOfAll, List.mem_append, not_or] at hn
    exact ⟨Fits.congr hp ho l hn.1 h.1, FitsAll.congr hp ho ls hn.2 h.2⟩

end

/-! ## Where the element of an `id` stands -/

/-- Some siblings below a node, and what they are part of as siblings below a node at
or above it.  The element of an `id` is nowhere else. -/
inductive Around (name : String) (q : NodeId) : NodeId → (List Layout → List Layout) → Prop
  | here : Around name q q id
  | within {id owner : NodeId} {n : Node} {C : List Layout → List Layout}
      (before after : List Layout) : name ∉ idsOfAll (sourceAll before) →
    name ∉ idsOfAll (sourceAll after) → n.id? ≠ some name → Around name q id C →
    Around name q owner fun ls => before ++ .node id n (C ls) :: after

namespace Around

/-- What the surroundings show is around what is inside them. -/
theorem shown (h : Around name q owner C) :
    ∃ S, Numbered.Around q owner S ∧ ∀ ls, shownAll (C ls) = S (shownAll ls) := by
  induction h with
  | here => exact ⟨_, .here, fun _ => rfl⟩
  | @within id _ n _ before after _ _ _ _ ih =>
    obtain ⟨S, hS, hC⟩ := ih
    refine ⟨fun bs => shownAll before ++ .node id n (S bs) :: shownAll after,
      .within (shownAll before) (shownAll after) hS, fun ls => ?_⟩
    rw [shownAll_append, shownAll, Layout.shown, hC]
    rfl

/-- What the surroundings were made of depends on what the inside was made of only. -/
theorem source_congr (h : Around name q owner C) (hs : sourceAll ls = sourceAll ks) :
    sourceAll (C ls) = sourceAll (C ks) := by
  induction h with
  | here => exact hs
  | within before after _ _ _ _ ih =>
    rw [sourceAll_append, sourceAll_append, sourceAll, sourceAll, source, source, ih]

/-- The element of the `id` is changed where it stands. -/
theorem source_rewrite (h : Around name q owner C) {f : Element → Element}
    (hs : rewriteAll name f (sourceAll ls) = sourceAll ks) :
    rewriteAll name f (sourceAll (C ls)) = sourceAll (C ks) := by
  induction h with
  | here => exact hs
  | within before after hbefore hafter hn _ ih =>
    rw [sourceAll_append, sourceAll_append, sourceAll, sourceAll, source, source,
      Document.rewriteAll_append, rewriteAll, rewrite, Document.rewriteAll_of_notMem _ hbefore,
      Document.rewriteAll_of_notMem _ hafter, Node.rewrite_of_ne f hn, ih]

/-- What follows a name is told by the siblings it stands among. -/
theorem followers (h : Around name q owner C) :
    followersAll? outputs name (sourceAll (C ls)) = followersAll? outputs name (sourceAll ls) := by
  induction h with
  | here => rfl
  | @within _ _ n C before after hbefore hafter hn _ ih =>
    have hc : (Document.node n (sourceAll (C ls))).content.id? ≠ some name := hn
    rw [sourceAll_append, Document.followersAll?_append hbefore, sourceAll, source, followersAll?,
      if_neg hc, followers?, ih, Document.followersAll?_of_notMem _ hafter]
    cases followersAll? outputs name (sourceAll ls) <;> rfl

/-- A property of all that a page was made of holds inside. -/
theorem every_inner {P : Node → Prop} (h : Around name q owner C)
    (hs : EveryAll P (sourceAll (C ls))) : EveryAll P (sourceAll ls) := by
  induction h with
  | here => exact hs
  | within before after _ _ _ _ ih =>
    rw [sourceAll_append, Document.everyAll_append, sourceAll, source] at hs
    exact ih hs.2.1.2

/-- If no template of the page has `id`s inside, no template further in has. -/
theorem closed_inner (h : Around name q owner C) (hs : ClosedAll (sourceAll (C ls))) :
    ClosedAll (sourceAll ls) := by
  induction h with
  | here => exact hs
  | within before after _ _ _ _ ih =>
    rw [sourceAll_append, Document.closedAll_append, sourceAll, source] at hs
    exact ih hs.2.1.2

/-- The `id` is not shown if it is not shown among the siblings. -/
theorem notMem_shown (h : Around name q owner C) (hf : FitsAll places outputs owner (C ls))
    (hs : name ∉ idsOfAll (documents (shownAll ls))) :
    name ∉ idsOfAll (documents (shownAll (C ls))) := by
  induction h with
  | here => exact hs
  | within before after hbefore hafter hn _ ih =>
    obtain ⟨hb, hm, ha⟩ := fitsAll_append.1 hf
    rw [shownAll_append, shownAll, Layout.shown, Numbered.Around.documents_append,
      Document.idsOfAll_append, List.mem_append, not_or]
    refine ⟨fun hmem => hbefore ((idsOf_shownAll before hb).subset hmem), ?_⟩
    rw [List.cons_append, documents, idsOfAll, Numbered.document, List.mem_append, not_or,
      Document.mem_idsOf, not_or]
    exact ⟨⟨hn, ih hm.2⟩, fun hmem => hafter ((idsOf_shownAll after ha).subset hmem)⟩

/-- If the whole fits, so does what is inside. -/
theorem fits_inner (h : Around name q owner C) (hf : FitsAll places outputs owner (C ls)) :
    FitsAll places outputs q ls := by
  induction h with
  | here => exact hf
  | within before after _ _ _ _ ih => exact ih (fitsAll_append.1 hf).2.1.2

/-- What is remembered of the name, and the siblings, may change together. -/
theorem fits_outer (h : Around name q owner C)
    (hp : ∀ other, other ≠ name → places'.lookup other = places.lookup other)
    (ho : ∀ other, other ≠ name → outputs'.lookup other = outputs.lookup other)
    (hf : FitsAll places outputs owner (C ls)) (hk : FitsAll places' outputs' q ks) :
    FitsAll places' outputs' owner (C ks) := by
  induction h with
  | here => exact hk
  | within before after hbefore hafter hn _ ih =>
    obtain ⟨hb, hm, ha⟩ := fitsAll_append.1 hf
    refine fitsAll_append.2 ⟨FitsAll.congr hp ho before hbefore hb, ⟨fun other hother => ?_, ih hm.2⟩,
      FitsAll.congr hp ho after hafter ha⟩
    have hne : other ≠ name := by
      rintro rfl
      exact hn hother
    rw [hp other hne, ho other hne]
    exact hm.1 other hother

end Around

/-- Where the element of an `id`, or the place of the template of that name, stands. -/
def Stands (name : String) (owner : NodeId) (ls : List Layout) : Prop :=
  ∃ q C pre l post, Around name q owner C ∧ ls = C (pre ++ l :: post) ∧
    l.content.id? = some name ∧ name ∉ idsOfAll (sourceAll pre) ∧
    name ∉ idsOfAll (sourceAll post) ∧ name ∉ idsOfAll l.source.children

/-- **The element of each `id` stands somewhere.** -/
theorem exists_around : ∀ {owner : NodeId} {ls : List Layout}, FitsAll places outputs owner ls →
    (idsOfAll (sourceAll ls)).Nodup → name ∈ idsOfAll (sourceAll ls) → Stands name owner ls := by
  -- In the one of the siblings that has the `id`, it is on top or further inside.
  have split : ∀ {owner : NodeId} {ls : List Layout},
      (∀ l ∈ ls, Fits places outputs owner l → (idsOf l.source).Nodup → name ∈ idsOf l.source →
        (l.content.id? = some name ∧ name ∉ idsOfAll l.source.children) ∨
          ∃ id n ks, l = .node id n ks ∧ n.id? ≠ some name ∧ Stands name id ks) →
      FitsAll places outputs owner ls → (idsOfAll (sourceAll ls)).Nodup →
        name ∈ idsOfAll (sourceAll ls) → Stands name owner ls := by
    intro owner ls hl hf hn hm
    obtain ⟨pre, l, post, rfl, hml⟩ : ∃ pre l post, ls = pre ++ l :: post ∧ name ∈ idsOf l.source := by
      clear hl hf hn
      induction ls with
      | nil => cases hm
      | cons l ls ih =>
        rw [sourceAll, idsOfAll, List.mem_append] at hm
        rcases hm with hm | hm
        · exact ⟨[], l, ls, rfl, hm⟩
        · obtain ⟨pre, k, post, rfl, hk⟩ := ih hm
          exact ⟨l :: pre, k, post, rfl, hk⟩
    rw [idsOfAll_split, List.nodup_append'] at hn
    have hpre : name ∉ idsOfAll (sourceAll pre) := fun h =>
      hn.2.2 h (List.mem_append_left _ hml)
    have hn' := List.nodup_append'.1 hn.2.1
    have hpost : name ∉ idsOfAll (sourceAll post) := fun h => hn'.2.2 hml h
    rcases hl l (List.mem_append_right _ (List.mem_cons_self ..)) (fitsAll_append.1 hf).2.1 hn'.1 hml
      with ⟨hid, hin⟩ | ⟨id, n, ks, rfl, hne, q, C, pre', k, post', hC, rfl, h⟩
    · exact ⟨owner, _, pre, l, post, .here, rfl, hid, hpre, hpost, hin⟩
    · exact ⟨q, _, pre', k, post', .within pre post hpre hpost hne hC, rfl, h⟩
  intro owner ls
  refine split fun l hl => ?_
  clear hl
  induction l using Layout.induction_up generalizing owner with
  | node id n ks ih =>
    intro hf hn hm
    rw [source, idsOf] at hn
    have hn' := List.nodup_append'.1 hn
    rcases Document.mem_idsOf.1 hm with hid | hin
    · exact .inl ⟨hid, fun h => hn'.2.2 (Option.mem_toList.2 hid) h⟩
    · refine .inr ⟨id, n, ks, rfl, fun hid => hn'.2.2 (Option.mem_toList.2 hid) hin, ?_⟩
      exact split (fun l hl => ih l hl) hf.2 hn'.2.1 hin
  | place n hidden outs =>
    rintro ⟨_, _, _, _, _, _, _, hh, _⟩ _ hm
    have hnil := Document.idsOfAll_of_every hh
    rcases Document.mem_idsOf.1 hm with hid | hin
    · refine .inl ⟨hid, ?_⟩
      show name ∉ idsOfAll hidden
      rw [hnil]
      exact List.not_mem_nil
    · rw [hnil] at hin
      cases hin

/-! ## Elements changed -/

/-- The layout with its top element changed, if that has the given `id`. -/
def rewrite (name : String) (f : Element → Element) : Layout → Layout
  | .node id n ls => .node id (n.rewrite name f) ls
  | .place n hidden outs => .place (n.rewrite name f) hidden outs

/-- Rewriting an element at the top rewrites what the layout was made of. -/
theorem source_rewrite {f : Element → Element} (h : name ∉ idsOfAll l.source.children) :
    (l.rewrite name f).source = l.source.rewrite name f := by
  cases l with
  | node id n ls =>
    rw [rewrite, source, source, Document.rewrite, Document.rewriteAll_of_notMem (sourceAll ls) h]
  | place n hidden outs =>
    rw [rewrite, source, source, Document.rewrite, Document.rewriteAll_of_notMem hidden h]

/-- A layout fits when an element at its top changes but for its `id` and its tag. -/
theorem fits_rewrite {f : Element → Element} (hf : Element.Keeps f)
    (h : Fits places outputs owner l) : Fits places outputs owner (l.rewrite name f) := by
  cases l with
  | node id n ls =>
    refine ⟨fun other hother => h.1 other ?_, h.2⟩
    rwa [hf.id?] at hother
  | place n hidden outs =>
    obtain ⟨other, place, hother, h⟩ := h
    exact ⟨other, place, (hf.templateName? name n).trans hother, h⟩

/-! ## Other numbers -/

mutual

/-- The layout with other node numbers. -/
def renumber (f : NodeId → NodeId) : Layout → Layout
  | .node id n ls => .node (f id) n (renumberAll f ls)
  | .place n hidden outs => .place n hidden (Numbered.renumberAll f outs)

/-- Some layouts with other node numbers. -/
def renumberAll (f : NodeId → NodeId) : List Layout → List Layout
  | [] => []
  | l :: ls => renumber f l :: renumberAll f ls

end

mutual

/-- With other numbers a layout shows the same nodes under these numbers. -/
theorem shown_renumber : ∀ l : Layout, (l.renumber f).shown = Numbered.renumberAll f l.shown
  | .node id n ls => by
    rw [renumber, shown, shown, Numbered.renumberAll, Numbered.renumberAll, Numbered.renumber,
      shownAll_renumberAll ls]
  | .place n hidden outs => rfl

/-- With other numbers layouts show the same nodes under these numbers. -/
theorem shownAll_renumberAll : ∀ ls : List Layout,
    shownAll (renumberAll f ls) = Numbered.renumberAll f (shownAll ls)
  | [] => rfl
  | l :: ls => by
    rw [renumberAll, shownAll, shownAll, shown_renumber l, shownAll_renumberAll ls,
      Numbered.renumberAll_append]

end

mutual

/-- The documents that a layout was made of have no numbers. -/
theorem source_renumber : ∀ l : Layout, (l.renumber f).source = l.source
  | .node id n ls => by rw [renumber, source, source, sourceAll_renumberAll ls]
  | .place n hidden outs => rfl

/-- The documents that layouts were made of have no numbers. -/
theorem sourceAll_renumberAll : ∀ ls : List Layout, sourceAll (renumberAll f ls) = sourceAll ls
  | [] => rfl
  | l :: ls => by rw [renumberAll, sourceAll, sourceAll, source_renumber l, sourceAll_renumberAll ls]

end

/-- What is remembered of places has been renumbered, for those of kept nodes. -/
structure Renumbered (places places' : List (String × Place)) (kept : NodeId → Prop)
    (f : NodeId → NodeId) : Prop where
  none : ∀ name, places.lookup name = none → places'.lookup name = none
  some : ∀ name spot, places.lookup name = some spot → kept spot.parent →
    (∀ x ∈ spot.nodes, kept x) → ∃ spot', places'.lookup name = some spot' ∧
      spot'.parent = f spot.parent ∧ spot'.nodes = spot.nodes.map f

mutual

/-- A layout fits what is remembered once both are renumbered. -/
theorem Fits.renumber {kept : NodeId → Prop} (h : Renumbered places places' kept f) :
    ∀ {owner : NodeId} (l : Layout), kept owner → (∀ b ∈ l.shown, ∀ x ∈ b.ids, kept x) →
      Fits places outputs owner l → Fits places' outputs (f owner) (l.renumber f)
  | _, .node id n ls, _, hk, hf => by
    have hkin : ∀ x ∈ (Numbered.node id n (shownAll ls)).ids, kept x :=
      hk _ (List.mem_singleton_self _)
    refine ⟨fun name hname => ⟨h.none name (hf.1 name hname).1, (hf.1 name hname).2⟩,
      FitsAll.renumber h ls (hkin id (List.mem_cons_self ..)) (fun b hb x hx => ?_) hf.2⟩
    exact hkin x (List.mem_cons_of_mem _ (Numbered.mem_idsAll.2 ⟨b, hb, hx⟩))
  | _, .place n hidden outs, ho, hk, ⟨name, spot, hname, hspot, hparent, hnodes, hout, hh, hun⟩ => by
    have hkn : ∀ x ∈ spot.nodes, kept x := by
      intro x hx
      rw [hnodes] at hx
      obtain ⟨b, hb, rfl⟩ := List.mem_map.1 hx
      exact hk b hb _ b.top_mem_ids
    obtain ⟨spot', hspot', hparent', hnodes'⟩ := h.some name spot hspot (hparent ▸ ho) hkn
    refine ⟨name, spot', hname, hspot', by rw [hparent', hparent], ?_, ?_, hh, ?_⟩
    · rw [hnodes', hnodes, Numbered.map_top_renumberAll]
    · rw [Numbered.documents_renumberAll, hout]
    · rw [Numbered.documents_renumberAll]
      exact hun

/-- Layouts fit under new numbers what is remembered under new numbers. -/
theorem FitsAll.renumber {kept : NodeId → Prop} (h : Renumbered places places' kept f) :
    ∀ {owner : NodeId} (ls : List Layout), kept owner →
      (∀ b ∈ shownAll ls, ∀ x ∈ b.ids, kept x) → FitsAll places outputs owner ls →
        FitsAll places' outputs (f owner) (renumberAll f ls)
  | _, [], _, _, _ => trivial
  | _, l :: ls, ho, hk, hf =>
    ⟨Fits.renumber h l ho (fun b hb => hk b (List.mem_append_left _ hb)) hf.1,
      FitsAll.renumber h ls ho (fun b hb => hk b (List.mem_append_right _ hb)) hf.2⟩

end

/-! ## Pages to which nothing has happened -/

mutual

/-- The layout of nodes that a page was made of. -/
def ofNumbered : Numbered → Layout
  | .node id n bs => .node id n (ofNumberedAll bs)

/-- The layouts of some nodes that a page was made of. -/
def ofNumberedAll : List Numbered → List Layout
  | [] => []
  | b :: bs => ofNumbered b :: ofNumberedAll bs

end

mutual

/-- A layout without places shows the nodes it was made of. -/
theorem shown_ofNumbered : ∀ b : Numbered, (ofNumbered b).shown = [b]
  | .node id n bs => by rw [ofNumbered, shown, shownAll_ofNumberedAll bs]

/-- Layouts without places show the nodes they were made of. -/
theorem shownAll_ofNumberedAll : ∀ bs : List Numbered, shownAll (ofNumberedAll bs) = bs
  | [] => rfl
  | b :: bs => by rw [ofNumberedAll, shownAll, shown_ofNumbered b, shownAll_ofNumberedAll bs]; rfl

end

mutual

/-- A layout without places was made of its nodes. -/
theorem source_ofNumbered : ∀ b : Numbered, (ofNumbered b).source = b.document
  | .node id n bs => by rw [ofNumbered, source, sourceAll_ofNumberedAll bs, Numbered.document]

/-- Layouts without places were made of their nodes. -/
theorem sourceAll_ofNumberedAll : ∀ bs : List Numbered, sourceAll (ofNumberedAll bs) = documents bs
  | [] => rfl
  | b :: bs => by
    rw [ofNumberedAll, sourceAll, source_ofNumbered b, sourceAll_ofNumberedAll bs, documents]

end

mutual

/-- A layout without places fits as long as nothing is remembered. -/
theorem fits_ofNumbered : ∀ {owner : NodeId} (b : Numbered), Fits [] [] owner (ofNumbered b)
  | _, .node _ _ bs => ⟨fun _ _ => ⟨rfl, rfl⟩, fitsAll_ofNumberedAll bs⟩

/-- Layouts without places fit as long as nothing is remembered. -/
theorem fitsAll_ofNumberedAll : ∀ {owner : NodeId} (bs : List Numbered),
    FitsAll [] [] owner (ofNumberedAll bs)
  | _, [] => trivial
  | _, b :: bs => ⟨fits_ofNumbered b, fitsAll_ofNumberedAll bs⟩

end

end Layout
end Page
end PageBinding
