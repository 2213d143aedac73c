/-
# Live pages stay sound

A live page is sound (`LivePage.Sound`) if its tree is well-formed with a fragment
at the root and above nothing else, if it has every node that is remembered, and
if it is not crowded.  Filling a template of a page keeps the page sound and gives
nodes that the page has, or fails with something other than a fault
(`fillTidily_safe`).

Until it is tidied up a page may be crowded; `LivePage.Linked` is the rest of
soundness.  Compaction keeps that and leaves no detached nodes (`compact_sound`), so
the page is not crowded then.
-/

import PageBinding.Proofs.Page.Places
import PageBinding.Proofs.Template.Collected
import PageBinding.Proofs.Tree.Compacting

namespace PageBinding

open Html (Node Document)
open Numbered (idsAll numberAllFrom)

namespace Page

open PageBinding.Tree (Compacted Inserted root)

/-! ## Operations that may fail -/

/-- An operation succeeds with a result of a kind, or fails with no fault. -/
def Safe {α : Type} (Q : α → Prop) : Except Failure α → Prop
  | .ok a => Q a
  | .error e => ∀ f, e ≠ .fault f

/-- What is safe, and safe to go on with, is safe in a row. -/
theorem Safe.bind {α β : Type} {Q : α → Prop} {R : β → Prop} {r : Except Failure α}
    {f : α → Except Failure β} (h : Safe Q r) (hf : ∀ a, Q a → Safe R (f a)) : Safe R (r >>= f) := by
  cases r with
  | ok a => exact hf a h
  | error e => exact h

/-- What succeeds in a tree succeeds in a page. -/
theorem lift_ok {α : Type} (a : α) : (liftM (Except.ok a : Except Fault α) : Except Failure α) = .ok a :=
  rfl

/-! ## What compaction makes of what is remembered -/

/-- What compaction makes of places. -/
def renumberPlaces (new : Renumbering) (places : List (String × Place)) : List (String × Place) :=
  places.filterMap fun (t, place) => (place.renumber? new).map (t, ·)

/-- What compaction makes of the data of elements. -/
def renumberData (new : Renumbering) (data : List (NodeId × OwnData)) : List (NodeId × OwnData) :=
  data.filterMap fun (id, d) => (new.get? id).map (·, d)

namespace LivePage

/-! ## Sound pages -/

/-- The links of a page are in order, and it has the nodes that are remembered. -/
structure Linked (p : LivePage) : Prop where
  wellFormed : p.tree.WellFormed
  root_content : p.tree.contentOf root = some .fragment
  root_parent : p.tree.parentOf root = none
  places : ∀ e ∈ p.places, e.2.Valid p.tree
  ownData : ∀ e ∈ p.ownData, p.tree.Has e.1

/-- Detached nodes do not outweigh the others. -/
def Roomy (p : LivePage) : Prop := ∃ live, p.tree.liveSize = .ok live ∧ p.tree.size ≤ 2 * live + tolerance

/-- A page is sound. -/
structure Sound (p : LivePage) : Prop extends Linked p where
  roomy : p.Roomy

variable {p q : LivePage} {a r : Numbered} {name : String} {content : Tree} {new : Renumbering}

/-- The tree of a linked page holds a root. -/
theorem Linked.exists_root (h : p.Linked) : ∃ a, a.top = root ∧ p.tree.Holds a :=
  h.wellFormed.exists_holds (Tree.has_iff_contentOf.2 ⟨_, h.root_content⟩)

/-- A page to which nothing has happened yet. -/
theorem linked_ofPage {page : Tree} (hw : page.WellFormed)
    (hc : page.contentOf root = some .fragment) (hp : page.parentOf root = none) :
    (ofPage page).Linked :=
  ⟨hw, hc, hp, nofun, nofun⟩

/-- A page is crowded if it has more than twice as many nodes as its root leads to, and some
more. -/
theorem isCrowded_eq (h : p.Linked) : ∃ live, p.tree.liveSize = .ok live ∧
    p.isCrowded = .ok (decide (p.tree.size > 2 * live + tolerance)) := by
  obtain ⟨a, htop, ha⟩ := h.exists_root
  have hl := Tree.liveSize_ok h.wellFormed ha htop
  exact ⟨_, hl, by rw [isCrowded, hl]; rfl⟩

/-- A page of documents has no detached nodes. -/
theorem roomy_ofDocuments (ds : List Document) :
    ∃ live, (Tree.ofDocuments ds).liveSize = .ok live ∧
      (Tree.ofDocuments ds).size ≤ 2 * live + tolerance := by
  have hg := Tree.ofDocuments_grown ds
  have hsize := hg.size
  refine ⟨_, Tree.liveSize_ok hg.wellFormed hg.holds.1 (Numbered.top_numberFrom ..), ?_⟩
  rw [Numbered.ids_numberFrom, List.length_map, List.length_range', hsize, Html.Document.countAll,
    Html.Document.countAll]
  simp only [Tree.size, Array.size_empty]
  omega

/-! ## Places -/

/-- The element of a template is the first one in document order that has its `id`, if that is a
template. -/
theorem templateElement?_ok (hw : p.tree.WellFormed) (ha : p.tree.Holds a) (htop : a.top = root)
    (name : String) : p.templateElement? name =
      .ok (((idsAll a.inside).find? fun x => (p.tree.contentOf x).any (Node.hasId name)).filter
        fun x => (p.tree.contentOf x).any Node.isTemplate) := by
  have hfind := Tree.findById?_ok hw ha htop name
  rw [templateElement?, hfind, ok_bind]
  cases hx : (idsAll a.inside).find? fun x => (p.tree.contentOf x).any (Node.hasId name) with
  | none => rfl
  | some x =>
    rw [hx] at hfind
    obtain ⟨-, n, hn, -⟩ := Tree.findById?_eq_some hw ha htop hfind
    dsimp only
    rw [Tree.element?_ok hn, ok_bind, Option.filter_some, hn, Option.any_some]
    rfl

/-- The place of a template that has not been filled yet. -/
theorem firstPlace_eq {x parent : NodeId} (hw : p.tree.WellFormed)
    (hx : p.templateElement? name = .ok (some x)) (hp : p.tree.parentOf x = some parent) :
    p.firstPlace name = .ok ⟨parent, [x], p.tree.following x⟩ := by
  have hxt : p.tree.Has x := Tree.has_of_parentOf hp
  rw [firstPlace, hx, lift_ok, ok_bind]
  dsimp only
  rw [Tree.parent_ok hxt, hp, lift_ok, ok_bind]
  dsimp only
  rw [hw.nextSibling_ok hxt]
  rfl

/-- Finding the first place of a template is safe. -/
theorem firstPlace_safe (h : p.Linked) (name : String) :
    Safe (fun place => place.Valid p.tree) (p.firstPlace name) := by
  obtain ⟨a, htop, ha⟩ := h.exists_root
  have ht := templateElement?_ok h.wellFormed ha htop name
  revert ht
  cases hx : ((idsAll a.inside).find? fun x => (p.tree.contentOf x).any (Node.hasId name)).filter
    fun x => (p.tree.contentOf x).any Node.isTemplate with
  | none =>
    intro ht
    rw [firstPlace, ht]
    exact nofun
  | some x =>
    intro ht
    have hmem : x ∈ idsAll a.inside := List.mem_of_find?_eq_some (Option.filter_eq_some_iff.1 hx).1
    have hxt : p.tree.Has x := ha.has (by rw [Numbered.ids_eq]; exact List.mem_cons_of_mem _ hmem)
    cases hp : p.tree.parentOf x with
    | none =>
      rw [firstPlace, ht, lift_ok, ok_bind]
      dsimp only
      rw [Tree.parent_ok hxt, hp]
      exact nofun
    | some parent =>
      rw [firstPlace_eq h.wellFormed ht hp]
      refine ⟨h.wellFormed.has_parent hp, fun y hy => ?_, fun y hy => ?_⟩
      · exact List.mem_singleton.1 hy ▸ hxt
      · exact h.wellFormed.has_following hy

/-- What is looked up is an entry. -/
theorem mem_of_lookup {β : Type} {k : String} {v : β} {entries : List (String × β)}
    (h : entries.lookup k = some v) : (k, v) ∈ entries := by
  induction entries with
  | nil => cases h
  | cons e es ih =>
    obtain ⟨j, w⟩ := e
    rw [List.lookup_cons] at h
    split at h
    · rename_i hj
      rw [Option.some.inj h, beq_iff_eq.1 hj]
      exact List.mem_cons_self ..
    · exact List.mem_cons_of_mem _ (ih h)

/-- Finding the place of a template is safe. -/
theorem placeOf_safe (h : p.Linked) (name : String) :
    Safe (fun place => place.Valid p.tree) (p.placeOf name) := by
  rw [placeOf]
  cases hl : p.places.lookup name with
  | none => exact firstPlace_safe h name
  | some place => exact h.places _ (mem_of_lookup hl)

/-- An entry after a key was set is that key's, or was there before. -/
theorem mem_set {κ β : Type} [BEq κ] {k : κ} {v : β} {entries : List (κ × β)} {e : κ × β}
    (h : e ∈ Keyed.set k v entries) : e = (k, v) ∨ e ∈ entries := by
  rw [Keyed.set, List.mem_cons] at h
  exact h.imp_right List.mem_of_mem_filter

/-! ## Filling -/

/-- A page with another tree that has its nodes. -/
theorem Linked.with_tree {t : Tree} (h : p.Linked) (hw : t.WellFormed) (hs : p.tree.size ≤ t.size)
    (hc : t.contentOf root = some .fragment) (hp : t.parentOf root = none) :
    ({ p with tree := t } : LivePage).Linked := by
  have hhas : ∀ {x}, p.tree.Has x → t.Has x := fun hx => Nat.lt_of_lt_of_le hx hs
  refine ⟨hw, hc, hp, fun e he => ?_, fun e he => hhas (h.ownData e he)⟩
  have hv := h.places e he
  exact ⟨hhas hv.parent, fun x hx => hhas (hv.nodes x hx), fun x hx => hhas (hv.next x hx)⟩

/-- Filling an element is safe, and leaves the page linked. -/
theorem fillElement_safe (h : p.Linked) (selector : String) (hc : content.WellFormed)
    (hr : content.Holds r) (htop : r.top = root) :
    Safe (fun s : LivePage × List NodeId => s.1.Linked ∧ ∀ x ∈ s.2, s.1.tree.Has x)
      (p.fillElement selector content) := by
  obtain ⟨a, hatop, ha⟩ := h.exists_root
  have hfind := Tree.findById?_ok h.wellFormed ha hatop (selectedId selector)
  rw [fillElement, selected?, hfind, lift_ok, ok_bind]
  cases hx : (idsAll a.inside).find?
    fun x => (p.tree.contentOf x).any (Node.hasId (selectedId selector)) with
  | none => exact nofun
  | some x =>
    have hmem : x ∈ a.ids := by
      rw [Numbered.ids_eq]
      exact List.mem_cons_of_mem _ (List.mem_of_find?_eq_some hx)
    obtain ⟨v, u, hd, hu, hi⟩ := h.wellFormed.replaceChildren_inserted hc hr htop (ha.has hmem)
    have hroot : v.Has root := hd.has.2 (Tree.has_iff_contentOf.2 ⟨_, h.root_content⟩)
    dsimp only
    rw [hu, lift_ok, ok_bind]
    refine ⟨h.with_tree hi.wellFormed (hd.size ▸ hi.size_le) ?_ ?_, fun y hy => ?_⟩
    · rw [hi.content _ hroot, hd.content, h.root_content]
    · rw [hi.parent _ hroot, hd.parent, Tree.parentsWithout, h.root_parent, ite_self]
    · obtain ⟨b, hb, rfl⟩ := List.mem_map.1 hy
      exact (hi.holds b hb).has_top

/-- A place that is refilled. -/
theorem refilled_linked {u : Tree} {place filled : Place} {news : List Numbered} (h : p.Linked)
    (hv : place.Valid p.tree) (hr : Refilled p.tree u place filled news) (template : String) :
    ({ p with tree := u, places := Keyed.set template filled p.places } : LivePage).Linked := by
  have hroot : p.tree.Has root := Tree.has_iff_contentOf.2 ⟨_, h.root_content⟩
  have hl : ({ p with tree := u } : LivePage).Linked := by
    refine h.with_tree hr.wellFormed hr.size_le ?_ ?_
    · rw [hr.content _ hroot, h.root_content]
    · rw [hr.parent _ hroot, Tree.parentsWithout, h.root_parent, ite_self]
  refine ⟨hl.wellFormed, hl.root_content, hl.root_parent, fun e he => ?_, hl.ownData⟩
  rcases mem_set he with rfl | he
  · exact hr.valid h.wellFormed hv
  · exact hl.places e he

/-- A place is filled if there is one. -/
theorem fillPlace_of_place {place : Place} (h : p.Linked) (hplace : p.placeOf name = .ok place)
    (hc : content.WellFormed) (hr : content.Holds r) (htop : r.top = root) :
    ∃ u filled, place.Valid p.tree ∧ Refilled p.tree u place filled
        (numberAllFrom p.tree.size (r.inside.map Numbered.document)) ∧
      p.fillPlace name content =
        .ok ({ p with tree := u, places := Keyed.set name filled p.places }, filled.nodes) := by
  have hv := placeOf_safe h name
  rw [hplace] at hv
  obtain ⟨u, filled, hu, href⟩ := Place.refill_refilled h.wellFormed hv hc hr htop
  exact ⟨u, filled, hv, href, by rw [fillPlace, hplace, ok_bind, hu, lift_ok, ok_bind]; rfl⟩

/-- Filling a place is safe, and leaves the page linked. -/
theorem fillPlace_safe (h : p.Linked) (template : String) (hc : content.WellFormed)
    (hr : content.Holds r) (htop : r.top = root) :
    Safe (fun s : LivePage × List NodeId => s.1.Linked ∧ ∀ x ∈ s.2, s.1.tree.Has x)
      (p.fillPlace template content) := by
  refine (placeOf_safe h template).bind fun place hv => ?_
  obtain ⟨u, filled, hu, href⟩ := Place.refill_refilled h.wellFormed hv hc hr htop
  rw [hu, lift_ok, ok_bind]
  exact ⟨refilled_linked h hv href template, (href.valid h.wellFormed hv).nodes⟩

/-- Filling is safe, and leaves the page linked. -/
theorem fill_safe (h : p.Linked) (template : String) (target : Option String)
    (hc : content.WellFormed) (hr : content.Holds r) (htop : r.top = root) :
    Safe (fun s : LivePage × List NodeId => s.1.Linked ∧ ∀ x ∈ s.2, s.1.tree.Has x)
      (p.fill template target content) := by
  cases target with
  | none => exact fillPlace_safe h template hc hr htop
  | some selector => exact fillElement_safe h selector hc hr htop

/-! ## Compaction -/

/-- Compacting a page compacts its tree and renumbers what is remembered. -/
theorem compact_eq (hw : p.tree.WellFormed) (ha : p.tree.Holds a) (htop : a.top = root) :
    ∃ u new, Compacted p.tree u a new ∧ p.compact = .ok (
      ⟨u, renumberPlaces new p.places, renumberData new p.ownData⟩, new) := by
  obtain ⟨u, new, hu, hc⟩ := Tree.compact_compacted hw ha htop
  exact ⟨u, new, hc, by rw [compact, hu, ok_bind]; rfl⟩

/-- **A compacted page is sound.** -/
theorem compact_sound (h : p.Linked) : ∃ q new, p.compact = .ok (q, new) ∧ q.Sound ∧
    ∀ x y, new.get? x = some y → q.tree.Has y := by
  obtain ⟨a, htop, ha⟩ := h.exists_root
  obtain ⟨u, new, hc, heq⟩ := compact_eq h.wellFormed ha htop
  have hw := hc.wellFormed h.wellFormed ha
  have hroot : root ∈ a.ids := htop ▸ a.top_mem_ids
  refine ⟨_, new, heq, ⟨⟨hw, ?_, hc.parentOf_root h.wellFormed ha htop, fun e he => ?_,
    fun e he => ?_⟩, ?_⟩, fun x y hxy => hc.has_of_get? hxy⟩
  · have hroot' := hc.content _ hroot
    rw [Compacted.placeIn_root htop, h.root_content] at hroot'
    exact hroot'
  · obtain ⟨⟨t, place⟩, -, hmap⟩ := List.mem_filterMap.1 he
    obtain ⟨renumbered, hren, rfl⟩ := Option.map_eq_some_iff.1 hmap
    obtain ⟨parent, hparent, rfl⟩ := Option.map_eq_some_iff.1 hren
    refine ⟨hc.has_of_get? hparent, fun x hx => ?_, fun x hx => ?_⟩
    · obtain ⟨y, -, hy⟩ := List.mem_filterMap.1 hx
      exact hc.has_of_get? hy
    · obtain ⟨y, -, hy⟩ := Option.bind_eq_some_iff.1 hx
      exact hc.has_of_get? hy
  · obtain ⟨⟨id, d⟩, -, hmap⟩ := List.mem_filterMap.1 he
    obtain ⟨y, hy, rfl⟩ := Option.map_eq_some_iff.1 hmap
    exact hc.has_of_get? hy
  · have hh := hc.holds ha ha a.top_mem_ids
    have htop' : (a.renumber (Tree.placeIn a)).top = root := by
      rw [Numbered.top_renumber, htop, Compacted.placeIn_root htop]
    refine ⟨_, Tree.liveSize_ok hw hh htop', ?_⟩
    have hlen : (a.renumber (Tree.placeIn a)).ids.length = a.ids.length := by
      rw [Numbered.ids_renumber, List.length_map]
    rw [hlen, hc.size]
    omega

/-- Filling a template is filling it as it is, or compacting the page afterwards. -/
theorem fillTidily_eq {template : String} {target : Option String} {nodes : List NodeId}
    (hq : q.Linked) (hfill : p.fill template target content = .ok (q, nodes)) :
    p.fillTidily template target content = .ok (q, nodes) ∨ ∃ s new,
      q.compact = .ok (s, new) ∧
        p.fillTidily template target content = .ok (s, nodes.filterMap new.get?) := by
  obtain ⟨live, -, hcrowded⟩ := isCrowded_eq hq
  obtain ⟨s, new, hcompact, -⟩ := compact_sound hq
  have htidy : p.fillTidily template target content =
      if q.tree.size > 2 * live + tolerance then .ok (s, nodes.filterMap new.get?)
      else .ok (q, nodes) := by
    rw [fillTidily, hfill, ok_bind]
    dsimp only
    rw [hcrowded, lift_ok, ok_bind, hcompact, lift_ok, ok_bind]
    simp only [decide_eq_true_eq]
    rfl
  rw [htidy]
  split_ifs
  · exact .inr ⟨s, new, hcompact, rfl⟩
  · exact .inl rfl

/-- **Filling a template keeps a page sound,** and gives nodes that the page has; or
it fails, and not with a fault. -/
theorem fillTidily_safe (h : p.Linked) (template : String) (target : Option String)
    (hc : content.WellFormed) (hr : content.Holds r) (htop : r.top = root) :
    Safe (fun s : LivePage × List NodeId => s.1.Sound ∧ ∀ x ∈ s.2, s.1.tree.Has x)
      (p.fillTidily template target content) := by
  refine (fill_safe h template target hc hr htop).bind fun ⟨q, nodes⟩ ⟨hq, hnodes⟩ => ?_
  obtain ⟨live, hlive, hcrowded⟩ := isCrowded_eq hq
  dsimp only
  rw [hcrowded, lift_ok, ok_bind]
  split_ifs with hsize
  · obtain ⟨s, new, hs, hsound, hnew⟩ := compact_sound hq
    rw [hs, lift_ok, ok_bind]
    refine ⟨hsound, fun x hx => ?_⟩
    obtain ⟨y, -, hy⟩ := List.mem_filterMap.1 hx
    exact hnew y x hy
  · refine ⟨⟨hq, live, hlive, ?_⟩, hnodes⟩
    rw [decide_eq_true_eq] at hsize
    exact Nat.le_of_not_lt hsize

end LivePage
end Page
end PageBinding
