/-
# Arranged pages

A live page is arranged as a layout (`Arranged`) if its tree holds what the layout
shows and if the layout fits what the page remembers.  It reads then as its picture
says (`Arranged.read`).

The element of an `id` stands at one spot of the layout (`Spot`), and if that is a
template, an output goes there.  A place with nodes is found by its nodes.  A place
without any is found by what came after it once, and that is where the template
stands if as many nodes follow in the picture (`LivePage.Settled`).

Compaction keeps a page arranged (`Arranged.compact`).
-/

import PageBinding.Proofs.Page.Layout
import PageBinding.Proofs.Page.Upkeep

namespace PageBinding

open Html (Node Element Document)
open Html.Document (ClosedAll idsOf idsOfAll filledWithAll followersAll? rewriteAll EveryAll)
open Numbered (documents idsAll numberAllFrom)

/-- The documents below the root of a tree. -/
def Tree.below (t : Tree) : List Document :=
  match t.read Tree.root with
  | .ok d => d.children
  | .error _ => []

/-- Below the root of a tree are the documents of what the root holds. -/
theorem Tree.below_eq {t : Tree} {a : Numbered} (hw : t.WellFormed) (ha : t.Holds a)
    (htop : a.top = Tree.root) : t.below = documents a.inside := by
  rw [below, ← htop, ha.read hw]
  cases a
  rfl

/-- The tree that is built of documents has them below its root. -/
theorem Tree.below_ofDocuments (ds : List Document) : (Tree.ofDocuments ds).below = ds := by
  rw [below_eq (ofDocuments_wellFormed ds) (ofDocuments_holds ds) (Numbered.top_numberFrom ..),
    Numbered.numberFrom, Numbered.inside, Numbered.documents_numberAllFrom]

namespace Page

open Layout (shownAll sourceAll FitsAll fitsAll_append shownAll_append sourceAll_append)
open PageBinding.Tree (root)

/-- **A live page is arranged as a layout,** and the layout is one of the picture. -/
structure Arranged (p : LivePage) (picture : Picture) (ls : List Layout) : Prop
    extends LivePage.Linked p where
  holds : p.tree.Holds (.node root .fragment (shownAll ls))
  fits : FitsAll p.places picture.outputs root ls
  source : sourceAll ls = picture.page
  unique : (idsOfAll picture.page).Nodup
  closed : ClosedAll picture.page

/-- The place of a template, if it has no nodes, is as far from the end as the template
is in the picture. -/
def LivePage.Settled (p : LivePage) (picture : Picture) (name : String) : Prop :=
  ∀ place, p.places.lookup name = some place → place.nodes = [] →
    followersAll? picture.outputs name picture.page = some (place.distance p.tree)

variable {p : LivePage} {picture : Picture} {ls pre post : List Layout} {l : Layout} {name : String}
  {q : NodeId} {C : List Layout → List Layout} {S : List Numbered → List Numbered}

namespace Arranged

/-- **An arranged page reads as its picture says.** -/
theorem read (h : Arranged p picture ls) :
    p.tree.read root = .ok (.node .fragment picture.documents) := by
  have hread := h.holds.read h.wellFormed
  rwa [Numbered.document, Layout.documents_shownAll ls h.fits, h.source] at hread

/-- No `id` is shown twice. -/
theorem shown_nodup (h : Arranged p picture ls) :
    (idsOf (Numbered.node root .fragment (shownAll ls)).document).Nodup := by
  have hs := Layout.idsOf_shownAll ls h.fits
  rw [h.source] at hs
  exact h.unique.sublist hs

/-- A page to which nothing has happened is arranged as what it was made of. -/
theorem ofPage {page : Tree} (hl : (LivePage.ofPage page).Linked)
    (hu : (idsOfAll page.below).Nodup) (hc : ClosedAll page.below) :
    ∃ ls, Arranged (.ofPage page) ⟨page.below, []⟩ ls := by
  obtain ⟨a, htop, ha⟩ := hl.exists_root
  have ha : page.Holds a := ha
  have hn : a.content = .fragment :=
    Option.some.inj (ha.content.symm.trans (htop ▸ hl.root_content))
  have hbelow := Tree.below_eq hl.wellFormed ha htop
  refine ⟨Layout.ofNumberedAll a.inside, hl, ?_, Layout.fitsAll_ofNumberedAll a.inside, ?_, hu, hc⟩
  · rw [Layout.shownAll_ofNumberedAll, ← hn, ← htop]
    cases a
    exact ha
  · rw [Layout.sourceAll_ofNumberedAll]
    exact hbelow.symm

end Arranged

/-! ## The spot of an `id` -/

/-- The spot of a layout at which the element of an `id`, or the place of the template
of that name, stands. -/
structure Spot (name : String) (q : NodeId) (C : List Layout → List Layout)
    (S : List Numbered → List Numbered) (pre : List Layout) (l : Layout) (post : List Layout) :
    Prop where
  around : Layout.Around name q root C
  outer : Numbered.Around q root S
  shown : ∀ ks, shownAll (C ks) = S (shownAll ks)
  id : l.content.id? = some name
  before : name ∉ idsOfAll (sourceAll pre)
  after : name ∉ idsOfAll (sourceAll post)
  inside : name ∉ idsOfAll l.source.children

/-- A name of the page has a spot in every layout it is arranged as, and something stands there. -/
theorem Arranged.exists_spot (h : Arranged p picture ls) (hm : name ∈ idsOfAll picture.page) :
    ∃ q C S pre l post, Spot name q C S pre l post ∧ ls = C (pre ++ l :: post) := by
  obtain ⟨q, C, pre, l, post, hC, rfl, hid, hpre, hpost, hin⟩ :=
    Layout.exists_around h.fits (h.source ▸ h.unique) (h.source ▸ hm)
  obtain ⟨S, hS, hshown⟩ := hC.shown
  exact ⟨q, C, S, pre, l, post, ⟨hC, hS, hshown, hid, hpre, hpost, hin⟩, rfl⟩

/-- What layouts show splits at each one of them. -/
theorem shownAll_split : shownAll (pre ++ l :: post) = shownAll pre ++ l.shown ++ shownAll post := by
  rw [shownAll_append, shownAll, List.append_assoc]

namespace Spot

/-- The siblings at the spot are held. -/
theorem holds (s : Spot name q C S pre l post) (h : Arranged p picture (C (pre ++ l :: post))) :
    ∃ n, p.tree.Holds (.node q n (shownAll (pre ++ l :: post))) := by
  have hh := h.holds
  rw [s.shown] at hh
  exact s.outer.holds_inner hh

/-- The children of a spot are what the layouts there show. -/
theorem children (s : Spot name q C S pre l post) (h : Arranged p picture (C (pre ++ l :: post))) :
    p.tree.childrenOf q = (shownAll pre).map Numbered.top ++ l.shown.map Numbered.top ++
      (shownAll post).map Numbered.top := by
  obtain ⟨n, hq⟩ := s.holds h
  have hc := hq.children
  rw [Numbered.inside, shownAll_split, List.map_append, List.map_append] at hc
  exact hc

/-- What is shown at the spot is below the root. -/
theorem mem_idsAll (s : Spot name q C S pre l post) {x : NodeId}
    (hx : x ∈ idsAll (shownAll (pre ++ l :: post))) :
    x ∈ idsAll (shownAll (C (pre ++ l :: post))) := by
  rw [s.shown]
  exact s.outer.idsAll_subset hx

/-- The nodes at the spot are below its parent. -/
theorem parentOf (s : Spot name q C S pre l post) (h : Arranged p picture (C (pre ++ l :: post)))
    {b : Numbered} (hb : b ∈ l.shown) : p.tree.parentOf b.top = some q := by
  refine (h.wellFormed.linked q b.top).1 ?_
  rw [s.children h]
  exact List.mem_append_left _ (List.mem_append_right _ (List.mem_map_of_mem hb))

/-- An element at its spot is found by its `id`. -/
theorem findById? {x : NodeId} {n : Node} {ks : List Layout}
    (s : Spot name q C S pre (.node x n ks) post)
    (h : Arranged p picture (C (pre ++ .node x n ks :: post))) :
    p.tree.Holds (.node x n (shownAll ks)) ∧ p.tree.findById? name = .ok (some x) := by
  have hmem : Numbered.node x n (shownAll ks) ∈ shownAll (pre ++ .node x n ks :: post) := by
    rw [shownAll_split]
    exact List.mem_append_left _ (List.mem_append_right _ (List.mem_singleton_self _))
  obtain ⟨_, hq⟩ := s.holds h
  have hx := hq.of_mem hmem
  have hid : p.tree.idAt x = some name := by
    rw [Tree.idAt, show p.tree.contentOf x = some n from hx.content]
    exact s.id
  refine ⟨hx, Tree.findById?_unique h.wellFormed h.holds rfl h.shown_nodup ?_ hid⟩
  exact s.mem_idsAll (Numbered.mem_idsAll.2 ⟨_, hmem, List.mem_cons_self ..⟩)

/-- **Where the output of a template goes:** to the nodes at its spot, or, if there are
none, to the place that is remembered. -/
theorem placeOf_eq (s : Spot name q C S pre l post) (h : Arranged p picture (C (pre ++ l :: post)))
    (hl : l.content.isTemplate = true) : ∃ place, p.placeOf name = .ok place ∧ place.parent = q ∧
      place.nodes = l.shown.map Numbered.top ∧
        (place.nodes = [] → p.places.lookup name = some place) := by
  have hfits := (fitsAll_append.1 (s.around.fits_inner h.fits)).2.1
  cases l with
  | node x n ks =>
    obtain ⟨hx, hfound⟩ := s.findById? h
    have htag : (n.element?.any fun e => e.tag = Html.templateTag) = true := hl
    have htemplate : p.templateElement? name = .ok (some x) := by
      rw [LivePage.templateElement?, hfound, ok_bind]
      dsimp only
      rw [Tree.element?_ok (show p.tree.contentOf x = some n from hx.content), ok_bind, if_pos htag]
      rfl
    have hparent : p.tree.parentOf x = some q := s.parentOf h (List.mem_singleton_self _)
    refine ⟨⟨q, [x], p.tree.following x⟩, ?_, rfl, rfl, fun h => by cases h⟩
    rw [LivePage.placeOf, (hfits.1 name s.id).1]
    exact LivePage.firstPlace_eq h.wellFormed htemplate hparent
  | place n hidden outs =>
    obtain ⟨other, place, hother, hplace, hparent, hnodes, -⟩ := hfits
    obtain rfl : other = name :=
      Option.some.inj ((Layout.templateName?_eq_some hother).2.symm.trans s.id)
    exact ⟨place, by rw [LivePage.placeOf, hplace]; rfl, hparent, hnodes, fun _ => hplace⟩

/-- As many nodes follow in the picture as stand after the spot. -/
theorem followers (s : Spot name q C S pre l post) (h : Arranged p picture (C (pre ++ l :: post))) :
    followersAll? picture.outputs name picture.page = some (shownAll post).length := by
  have hid : l.source.content.id? = some name := by
    cases l <;> exact s.id
  have hpost := (fitsAll_append.1 (s.around.fits_inner h.fits)).2.2
  rw [← h.source, s.around.followers, sourceAll_append, Document.followersAll?_append s.before,
    sourceAll, followersAll?, if_pos hid, ← Layout.documents_shownAll post hpost,
    Numbered.documents_eq_map, List.length_map]

end Spot

/-! ## Compaction -/

/-- What is found among entries whose values are changed or dropped, if the one that was
found is not dropped. -/
theorem lookup_filterMap {β γ : Type} {g : β → Option γ} {k : String} {es : List (String × β)}
    (h : ∀ b, es.lookup k = some b → g b ≠ none) :
    (es.filterMap fun (t, b) => (g b).map (t, ·)).lookup k = (es.lookup k).bind g := by
  induction es with
  | nil => rfl
  | cons e es ih =>
    obtain ⟨t, b⟩ := e
    rw [List.lookup_cons] at h ⊢
    cases hk : k == t with
    | true =>
      rw [hk] at h
      obtain ⟨c, hc⟩ := Option.ne_none_iff_exists'.1 (h b rfl)
      simp only [List.filterMap_cons, hc, Option.map_some, List.lookup_cons, hk, Option.bind_some]
    | false =>
      rw [hk] at h
      cases hb : g b with
      | none => simpa only [List.filterMap_cons, hb, Option.map_none] using ih h
      | some c =>
        simpa only [List.filterMap_cons, hb, Option.map_some, List.lookup_cons, hk] using ih h

/-- A compacted page reads as before. -/
theorem read_compact {p' : LivePage} {new : Renumbering} (h : p.Linked)
    (hc : p.compact = .ok (p', new)) : p'.tree.read root = p.tree.read root := by
  obtain ⟨a, htop, ha⟩ := h.exists_root
  obtain ⟨u, new', hu, heq⟩ := LivePage.compact_eq h.wellFormed ha htop
  obtain ⟨rfl, rfl⟩ := Prod.mk.inj (Except.ok.inj (hc.symm.trans heq))
  have hh := hu.holds ha ha a.top_mem_ids
  have hread := hh.read (hu.wellFormed h.wellFormed ha)
  rw [Numbered.top_renumber, htop, Tree.Compacted.placeIn_root htop, Numbered.document_renumber,
    ← ha.read h.wellFormed, htop] at hread
  exact hread

/-- **Compaction keeps a page arranged.** -/
theorem Arranged.compact {p' : LivePage} {new : Renumbering} (h : Arranged p picture ls)
    (hc : p.compact = .ok (p', new)) : ∃ ls', Arranged p' picture ls' := by
  obtain ⟨q, new', hq, hsound, -⟩ := LivePage.compact_sound h.toLinked
  obtain ⟨rfl, rfl⟩ := Prod.mk.inj (Except.ok.inj (hc.symm.trans hq))
  obtain ⟨u, new', hu, heq⟩ := LivePage.compact_eq h.wellFormed h.holds rfl
  obtain ⟨hp, rfl⟩ := Prod.mk.inj (Except.ok.inj (hc.symm.trans heq))
  subst hp
  obtain ⟨a, ha⟩ : ∃ a, a = Numbered.node root .fragment (shownAll ls) := ⟨_, rfl⟩
  have hh := h.holds
  rw [← ha] at hh hu
  have hget : ∀ x ∈ a.ids, new.get? x = some (Tree.placeIn a x) := fun x hx => by
    rw [hu.get?, if_pos hx]
  have hren : Layout.Renumbered p.places (renumberPlaces new p.places) (· ∈ a.ids)
      (Tree.placeIn a) := by
    refine ⟨fun name hname => ?_, fun name spot hspot hparent hnodes => ?_⟩
    · rw [renumberPlaces, lookup_filterMap (by rw [hname]; exact fun _ hb => by cases hb), hname]
      rfl
    · have hren : spot.renumber? new = some ⟨Tree.placeIn a spot.parent,
          spot.nodes.map (Tree.placeIn a), spot.next.bind new.get?⟩ := by
        have hmap : spot.nodes.filterMap new.get? = spot.nodes.map (Tree.placeIn a) := by
          rw [← List.filterMap_eq_map]
          exact List.filterMap_congr fun x hx => hget x (hnodes x hx)
        rw [Place.renumber?, hget _ hparent, Option.map_some, hmap]
      refine ⟨⟨Tree.placeIn a spot.parent, spot.nodes.map (Tree.placeIn a),
        spot.next.bind new.get?⟩, ?_, rfl, rfl⟩
      rw [renumberPlaces, lookup_filterMap, hspot, Option.bind_some, hren]
      intro b hb
      rw [← Option.some.inj (hspot.symm.trans hb), hren]
      exact Option.some_ne_none _
  have hroot : Tree.placeIn a root = root := Tree.Compacted.placeIn_root (ha ▸ rfl)
  have hfits : FitsAll _ picture.outputs (Tree.placeIn a root)
      (Layout.renumberAll (Tree.placeIn a) ls) :=
    Layout.FitsAll.renumber hren ls (ha ▸ List.mem_cons_self ..) (fun b hb x hx => by
      rw [ha]
      exact List.mem_cons_of_mem _ (Numbered.mem_idsAll.2 ⟨b, hb, hx⟩)) h.fits
  rw [hroot] at hfits
  refine ⟨Layout.renumberAll (Tree.placeIn a) ls, hsound.toLinked, ?_, hfits, ?_, h.unique,
    h.closed⟩
  · have hheld := hu.holds hh hh a.top_mem_ids
    rw [ha, Numbered.renumber, ← ha, hroot] at hheld
    rw [Layout.shownAll_renumberAll]
    exact hheld
  · rw [Layout.sourceAll_renumberAll, h.source]

end Page
end PageBinding
