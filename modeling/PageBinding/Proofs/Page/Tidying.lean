/-
# Pages and what compaction makes of them

Pages are alike (`LivePage.Alike`) if they compact to the same page; they read as the same
text then.  A page is alike to what compaction makes of it (`TidiesTo.alike`), and selectors
and templates name the same nodes in the two.

An output that goes to an element or to a steady place goes to the same spot in both, or can
go to none in both.  Whether or not the pages are crowded with it and tidied up, they are
alike afterwards (`fillTidily_alike`).  So are they when a binding is set up in both
(`TidiesTo.pageWith`).
-/

import PageBinding.Proofs.Page.Showing
import PageBinding.Proofs.Page.Steadiness

namespace PageBinding
namespace Page

open Template (Markers)
open PageBinding.Tree (root placeIn CompactsTo Onward)

variable {a : Numbered} {new : Renumbering} {x : NodeId} {p p' q c : LivePage} {template : String}
  {target : Option String}

namespace LivePage

/-! ## Compaction -/

/-- **A page compacts to another one,** with these new numbers. -/
structure TidiesTo (p c : LivePage) (a : Numbered) (new : Renumbering) : Prop where
  tree : CompactsTo p.tree c.tree a new
  places : c.places = renumberPlaces new p.places
  ownData : c.ownData = renumberData new p.ownData

/-- **Two pages are alike** if they compact to the same page. -/
def Alike (p q : LivePage) : Prop :=
  ∃ c new new', p.compact = .ok (c, new) ∧ q.compact = .ok (c, new')

/-- The place of a template and what compaction makes of it are at the same spot, if an
output for that place is not meant for an element. -/
def Steady (p : LivePage) (template : String) (target : Option String) : Prop :=
  target.isSome = true ∨ ∀ place, p.places.lookup template = some place → place.Steady p.tree

/-- The tree of a linked page has a root. -/
theorem Linked.rooted (h : p.Linked) : p.tree.Rooted :=
  ⟨h.wellFormed, Tree.has_iff_contentOf.2 ⟨_, h.root_content⟩, h.root_parent⟩

/-- A linked page compacts to another one. -/
theorem Linked.tidiesTo (h : p.Linked) :
    ∃ c a new, p.compact = .ok (c, new) ∧ c.Linked ∧ TidiesTo p c a new := by
  obtain ⟨a, htop, ha⟩ := h.exists_root
  obtain ⟨u, new, hc, heq⟩ := compact_eq h.wellFormed ha htop
  obtain ⟨c, new', hc', hsound, -⟩ := compact_sound h
  obtain ⟨rfl, rfl⟩ := Prod.mk.inj (Except.ok.inj (hc'.symm.trans heq))
  exact ⟨_, a, new', heq, hsound.toLinked, ⟨h.rooted, ha, htop, hc⟩, rfl, rfl⟩

/-- Pages that are alike are so in either order. -/
theorem Alike.symm (h : p.Alike q) : q.Alike p := by
  obtain ⟨c, new, new', hp, hq⟩ := h
  exact ⟨c, new', new, hq, hp⟩

/-- Two pages that are like a third one are alike. -/
theorem Alike.trans {r : LivePage} (h : p.Alike q) (h' : q.Alike r) : p.Alike r := by
  obtain ⟨c, new, new', hp, hq⟩ := h
  obtain ⟨d, _, new'', hq', hr⟩ := h'
  obtain ⟨rfl, -⟩ := Prod.mk.inj (Except.ok.inj (hq.symm.trans hq'))
  exact ⟨c, new, new'', hp, hr⟩

/-- A linked page is like itself. -/
theorem Linked.alike_refl (h : p.Linked) : p.Alike p := by
  obtain ⟨c, _, new, hc, -⟩ := h.tidiesTo
  exact ⟨c, new, new, hc, hc⟩

/-- Pages that are alike read as the same text. -/
theorem Alike.html_eq (h : p.Alike q) (hp : p.Linked) (hq : q.Linked) :
    p.tree.html = q.tree.html := by
  obtain ⟨c, new, new', hc, hc'⟩ := h
  rw [Tree.html, Tree.htmlAt, Tree.html, Tree.htmlAt, ← read_compact hp hc, ← read_compact hq hc']

/-- Pages are alike whose trees have gone on alike, if compaction makes the same of what is
remembered. -/
theorem alike_of_onward {g : NodeId → NodeId} (hp' : p'.Linked) (hq : q.Linked)
    (ht : CompactsTo p.tree c.tree a new) (ho : Onward p.tree a g p'.tree q.tree)
    (hrest : ∀ new' new'', (∀ x, p.tree.Has x → new'.get? x = (new.get? x).bind new''.get?) →
      (∀ x, p'.tree.Within root x → new''.get? (g x) = new'.get? x) →
      renumberPlaces new' p'.places = renumberPlaces new'' q.places ∧
        renumberData new' p'.ownData = renumberData new'' q.ownData) : p'.Alike q := by
  obtain ⟨d, a', new', hd, -, hd'⟩ := hp'.tidiesTo
  obtain ⟨e, b, new'', he, -, he'⟩ := hq.tidiesTo
  obtain ⟨htree, hget⟩ := ho.compacted_eq hd'.tree he'.tree
  obtain ⟨hplaces, hdata⟩ := hrest new' new'' (fun x hx => ho.get?_eq ht hd'.tree he'.tree hx) hget
  obtain rfl : e = d := by
    obtain ⟨et, ep, ed⟩ := e
    obtain ⟨dt, dp, dd⟩ := d
    congr
    · exact he'.places.trans (hplaces.symm.trans hd'.places.symm)
    · exact he'.ownData.trans (hdata.symm.trans hd'.ownData.symm)
  exact ⟨e, new', new'', hd, he⟩

/-- **A page is alike to what compaction makes of it.** -/
theorem TidiesTo.alike (h : TidiesTo p c a new) (hp : p.Linked) (hc : c.Linked) : p.Alike c :=
  alike_of_onward hp hc h.tree h.tree.onward fun new' new'' hget _ => by
    rw [h.places, h.ownData]
    exact ⟨renumberPlaces_bind hp.places hget, renumberData_bind hp.ownData hget⟩

/-! ## Where outputs go -/

/-- Places of a compacted page are in the page. -/
theorem TidiesTo.inPage (h : TidiesTo p c a new) : c.InPage template target := by
  refine .inr fun place hl => ?_
  have hmem := mem_of_lookup hl
  rw [h.places] at hmem
  obtain ⟨⟨name, old⟩, -, hmap⟩ := List.mem_filterMap.1 hmem
  obtain ⟨renumbered, hren, he⟩ := Option.map_eq_some_iff.1 hmap
  obtain ⟨parent, hparent, rfl⟩ := Option.map_eq_some_iff.1 hren
  obtain ⟨hlive, rfl⟩ := h.tree.live_of_get? hparent
  rw [← (Prod.mk.inj he).2]
  exact h.tree.within hlive

/-- If an output goes to an element or to a steady place, it goes into the page. -/
theorem Steady.inPage (h : p.Steady template target) : p.InPage template target :=
  h.imp_right fun hs place hl => (hs place hl).parent

/-- The element of a selector is found under its new number. -/
theorem TidiesTo.selected? (h : TidiesTo p c a new) (selector : String) :
    ∃ found, Page.selected? p.tree selector = .ok found ∧
      Page.selected? c.tree selector = .ok (found.map (placeIn a)) ∧
        ∀ x, found = some x → p.tree.Within root x :=
  h.tree.renamed.findById? h.tree.rooted h.tree.compacted_rooted (selectedId selector)

/-- Compaction keeps the element of a template, under its new number. -/
theorem TidiesTo.templateElement? (h : TidiesTo p c a new) (name : String) :
    ∃ found, p.templateElement? name = .ok found ∧
      c.templateElement? name = .ok (found.map (placeIn a)) ∧
        ∀ x, found = some x → p.tree.Within root x := by
  obtain ⟨found, hp, hc, hlive⟩ :=
    h.tree.renamed.findById? h.tree.rooted h.tree.compacted_rooted name
  rw [LivePage.templateElement?, hp, LivePage.templateElement?, hc]
  cases found with
  | none => exact ⟨none, rfl, rfl, fun x hx => by cases hx⟩
  | some x =>
    have hx := hlive x rfl
    obtain ⟨n, hn⟩ := Tree.has_iff_contentOf.1 (h.tree.rooted.within_has hx)
    simp only [Option.map_some, ok_bind, Tree.element?_ok hn,
      Tree.element?_ok ((h.tree.renamed.content x hx).trans hn)]
    by_cases ht : n.element?.any fun e => e.tag = Html.templateTag
    · exact ⟨some x, by rw [if_pos ht]; rfl, by rw [if_pos ht]; rfl, fun y hy => hlive y hy⟩
    · exact ⟨none, by rw [if_neg ht]; rfl, by rw [if_neg ht]; rfl, fun y hy => by cases hy⟩

/-- The place of a template that has not been filled is steady, and compaction makes of it
the place of that template. -/
theorem TidiesTo.firstPlace (h : TidiesTo p c a new) (hp : p.Linked) (hc : c.Linked)
    (name : String) :
    (∃ e, p.firstPlace name = .error e ∧ c.firstPlace name = .error e) ∨
      ∃ place place', p.firstPlace name = .ok place ∧ c.firstPlace name = .ok place' ∧
        place.Steady p.tree ∧ place.renumber? new = some place' := by
  obtain ⟨found, hfound, hfound', hlive⟩ := h.templateElement? name
  cases found with
  | none =>
    refine .inl ⟨.noPlace name, ?_, ?_⟩
    · rw [LivePage.firstPlace, hfound]
      rfl
    · rw [LivePage.firstPlace, hfound']
      rfl
  | some x =>
    have hx := hlive x rfl
    have hparent' := h.tree.renamed.parentOf h.tree.rooted h.tree.compacted_rooted hx
    cases hparent : p.tree.parentOf x with
    | none =>
      refine .inl ⟨.notAttached name, ?_, ?_⟩
      · rw [LivePage.firstPlace, hfound, lift_ok, ok_bind]
        dsimp only
        rw [Tree.parent_ok (h.tree.rooted.within_has hx), hparent]
        rfl
      · rw [LivePage.firstPlace, hfound', lift_ok, ok_bind]
        dsimp only [Option.map_some]
        rw [Tree.parent_ok (h.tree.compacted_rooted.within_has (h.tree.within hx)), hparent', hparent]
        rfl
    | some parent =>
      rw [hparent] at hparent'
      have hup := (h.tree.rooted.within_parent_iff hparent).1 hx
      refine .inr ⟨_, _, firstPlace_eq hp.wellFormed hfound hparent,
        firstPlace_eq hc.wellFormed hfound' hparent', ⟨hup, .inl ?_⟩, ?_⟩
      · rintro y (hy | hy)
        · exact Option.some.inj hy ▸ hx
        · exact Option.some.inj hy ▸ hx
      · rw [Place.renumber?_eq h.tree hup, following_compacted h.tree hx,
          List.filterMap_cons_some (h.tree.get?_live hx)]
        rfl

/-- Compaction makes of a steady place of a template the place of that template. -/
theorem TidiesTo.placeOf (h : TidiesTo p c a new) (hp : p.Linked) (hc : c.Linked)
    (hs : p.Steady template none) :
    (∃ e, p.placeOf template = .error e ∧ c.placeOf template = .error e) ∨
      ∃ place place', p.placeOf template = .ok place ∧ c.placeOf template = .ok place' ∧
        place.Steady p.tree ∧ place.renumber? new = some place' := by
  have hs : ∀ place, p.places.lookup template = some place → place.Steady p.tree :=
    hs.resolve_left (by simp)
  have hlookup : c.places.lookup template =
      (p.places.lookup template).bind fun place => place.renumber? new := by
    rw [h.places, renumberPlaces, lookup_filterMap]
    intro place hl
    rw [Place.renumber?_eq h.tree (hs place hl).parent]
    exact Option.some_ne_none _
  rw [LivePage.placeOf, LivePage.placeOf, hlookup]
  cases hl : p.places.lookup template with
  | none => exact h.firstPlace hp hc template
  | some place =>
    have hren := Place.renumber?_eq h.tree (hs place hl).parent
    exact .inr ⟨place, _, rfl, by rw [Option.bind_some, hren]; rfl, hs place hl, hren⟩

/-! ## Filling -/

/-- **The same has come of filling two pages:** the same failure, or pages that are alike and
as many nodes. -/
inductive FilledAlike :
    Except Failure (LivePage × List NodeId) → Except Failure (LivePage × List NodeId) → Prop
  | error (e : Failure) : FilledAlike (.error e) (.error e)
  | ok {p q : LivePage} {nodes nodes' : List NodeId} : p.Alike q → nodes'.length = nodes.length →
    FilledAlike (.ok (p, nodes)) (.ok (q, nodes'))

section
variable {content : Tree} {r : Numbered} (h : TidiesTo p c a new) (hp : p.Linked) (hc : c.Linked)
  (hw : content.WellFormed) (hr : content.Holds r) (htop : r.top = root)
include hp hw hr htop

/-- Filling keeps a page linked. -/
theorem fill_linked (template : String) (target : Option String) {nodes : List NodeId}
    (hf : p.fill template target content = .ok (q, nodes)) : q.Linked := by
  have hsafe := fill_safe hp template target hw hr htop
  rw [hf] at hsafe
  exact hsafe.1

/-- The root leads to the nodes of an output if it leads to where the output goes. -/
theorem fill_live (template : String) (target : Option String) {nodes : List NodeId} (ho : p.Owned)
    (hi : p.InPage template target)
    (hf : p.fill template target content = .ok (q, nodes)) : ∀ x ∈ nodes, q.tree.Within root x := by
  obtain ⟨spot, old, news, rfl, -, hfills⟩ := fill_fills hp ho hw hr htop hf
  exact ((hfills.laid.shows_iff hp.wellFormed hp.rooted.has hfills.has).2
    (.inr (hfills.within.2 hi))).within

include h hc

/-- Filling an element of a page and of what compaction makes of it. -/
theorem fillElement_alike (selector : String) :
    FilledAlike (p.fillElement selector content) (c.fillElement selector content) := by
  have hlinked : ∀ {nodes q}, p.fillElement selector content = .ok (q, nodes) → q.Linked :=
    fill_linked hp hw hr htop "" (some selector)
  have hlinked' : ∀ {nodes q}, c.fillElement selector content = .ok (q, nodes) → q.Linked :=
    fill_linked hc hw hr htop "" (some selector)
  obtain ⟨found, hfound, hfound', hlive⟩ := h.selected? selector
  rw [fillElement, hfound, lift_ok, ok_bind] at hlinked ⊢
  rw [fillElement, hfound', lift_ok, ok_bind] at hlinked' ⊢
  cases found with
  | none => exact .error _
  | some x =>
    have hx := hlive x rfl
    obtain ⟨v, t', hd, ht', hi⟩ := hp.wellFormed.replaceChildren_inserted hw hr htop
      (h.tree.rooted.within_has hx)
    obtain ⟨w, u', hd', hu', hi'⟩ := hc.wellFormed.replaceChildren_inserted hw hr htop
      (h.tree.compacted_rooted.within_has (h.tree.within hx))
    dsimp only [Option.map_some] at hlinked hlinked' ⊢
    rw [ht', lift_ok, ok_bind] at hlinked ⊢
    rw [hu', lift_ok, ok_bind] at hlinked' ⊢
    have hswap := hi.swapped hp.wellFormed hd
    have hswap' := hi'.swapped hc.wellFormed hd'
    have hchildren : c.tree.childrenOf (placeIn a x) =
        (p.tree.childrenOf x).filterMap new.get? := by
      rw [h.tree.renamed.children x hx, h.tree.compacted.filterMap_eq]
      exact fun y hy => h.tree.mem_ids.2 (h.tree.rooted.within_child hx hy)
    rw [hchildren] at hswap'
    refine .ok (alike_of_onward (hlinked rfl) (hlinked' rfl) h.tree
      (h.tree.swapped hswap hswap' hx fun y hy => hp.wellFormed.has_child hy)
      fun new' new'' hget _ => ?_) ?_
    · rw [h.places, h.ownData]
      exact ⟨renumberPlaces_bind hp.places hget, renumberData_bind hp.ownData hget⟩
    · rw [Tree.map_top_moved (placeIn a) p.tree, List.length_map]

end

section
variable {content : Tree} {r : Numbered} (h : TidiesTo p c a new) (hp : p.Linked) (hc : c.Linked)
  (ho : p.Owned) (hs : p.Steady template target)
  (hw : content.WellFormed) (hr : content.Holds r) (htop : r.top = root)
include h hp hc ho hw hr htop

/-- Filling a steady place of a page and of what compaction makes of it. -/
theorem fillPlace_alike (hs : p.Steady template none) :
    FilledAlike (p.fillPlace template content) (c.fillPlace template content) := by
  have hlinked : ∀ {nodes q}, p.fillPlace template content = .ok (q, nodes) → q.Linked :=
    fill_linked hp hw hr htop template none
  have hlinked' : ∀ {nodes q}, c.fillPlace template content = .ok (q, nodes) → q.Linked :=
    fill_linked hc hw hr htop template none
  have hlive : ∀ {nodes q}, p.fillPlace template content = .ok (q, nodes) →
      ∀ x ∈ nodes, q.tree.Within root x :=
    fill_live hp hw hr htop template none ho hs.inPage
  have hvalid := placeOf_safe hp template
  have hvalid' := placeOf_safe hc template
  rw [fillPlace] at hlinked hlive ⊢
  rw [fillPlace] at hlinked' ⊢
  rcases h.placeOf hp hc hs with ⟨e, he, he'⟩ | ⟨place, place', hplace, hplace', hsteady, hren⟩
  · rw [he, he']
    exact .error e
  · rw [hplace] at hvalid hlinked hlive ⊢
    rw [hplace'] at hvalid' hlinked' ⊢
    obtain ⟨t', filled, ht', hrefill⟩ := Place.refill_refilled hp.wellFormed hvalid hw hr htop
    obtain ⟨u', filled', hu', hrefill'⟩ := Place.refill_refilled hc.wellFormed hvalid' hw hr htop
    rw [ok_bind, ht', lift_ok, ok_bind] at hlinked hlive ⊢
    rw [ok_bind, hu', lift_ok, ok_bind] at hlinked' ⊢
    refine .ok (alike_of_onward (hlinked rfl) (hlinked' rfl) h.tree
      (Refilled.onward h.tree hsteady hvalid hren hrefill hrefill') fun new' new'' hget hget' => ?_) ?_
    · rw [h.places, h.ownData, renumberPlaces_set, renumberPlaces_set,
        Refilled.renumber?_eq h.tree hsteady hvalid hren hrefill hrefill' (hlive rfl) hget hget',
        renumberPlaces_bind hp.places hget, renumberData_bind hp.ownData hget]
      exact ⟨rfl, rfl⟩
    · rw [hrefill.nodes_eq, hrefill'.nodes_eq, Tree.map_top_moved (placeIn a) p.tree,
        List.length_map]

include hs

/-- The same comes of filling a page and the one it compacts to. -/
theorem fill_alike : FilledAlike (p.fill template target content) (c.fill template target content) := by
  cases target with
  | none => exact fillPlace_alike h hp hc ho hw hr htop hs
  | some selector => exact fillElement_alike h hp hc hw hr htop selector

end

/-- A page is tidied up to one that is alike, and no nodes that the root leads to are lost. -/
theorem fillTidily_of_fill {content : Tree} {nodes : List NodeId}
    (hf : p.fill template target content = .ok (q, nodes)) (hq : q.Linked)
    (hlive : ∀ x ∈ nodes, q.tree.Within root x) :
    ∃ s ids, p.fillTidily template target content = .ok (s, ids) ∧ q.Alike s ∧
      ids.length = nodes.length := by
  obtain ⟨live, -, hcrowded⟩ := isCrowded_eq hq
  rw [fillTidily, hf, ok_bind]
  dsimp only
  rw [hcrowded, lift_ok, ok_bind]
  split_ifs
  · obtain ⟨s, a, new, hs, hlinked, ht⟩ := hq.tidiesTo
    rw [hs, lift_ok, ok_bind]
    refine ⟨s, _, rfl, ht.alike hq hlinked, ?_⟩
    rw [ht.tree.compacted.filterMap_eq fun x hx => ht.tree.mem_ids.2 (hlive x hx), List.length_map]
  · exact ⟨q, nodes, rfl, hq.alike_refl, rfl⟩

/-- **An output that goes to an element or to a steady place** goes there just as well once
the page is compacted. -/
theorem fillTidily_alike {content : Tree} {r : Numbered} (h : TidiesTo p c a new) (hp : p.Linked)
    (hc : c.Linked) (ho : p.Owned) (hoc : c.Owned) (hs : p.Steady template target)
    (hw : content.WellFormed) (hr : content.Holds r) (htop : r.top = root) :
    FilledAlike (p.fillTidily template target content) (c.fillTidily template target content) := by
  have hfill := fill_alike h hp hc ho hs hw hr htop
  cases hf : p.fill template target content with
  | error e =>
    rw [hf] at hfill
    cases hf' : c.fill template target content with
    | error e' =>
      rw [hf'] at hfill
      cases hfill
      rw [fillTidily, hf, fillTidily, hf']
      exact .error e
    | ok filled =>
      rw [hf'] at hfill
      cases hfill
  | ok filled =>
    rw [hf] at hfill
    cases hf' : c.fill template target content with
    | error e' =>
      rw [hf'] at hfill
      cases hfill
    | ok filled' =>
      rw [hf'] at hfill
      cases hfill with
      | ok halike hlength =>
        obtain ⟨s, ids, hs', hqs, hids⟩ := fillTidily_of_fill hf
          (fill_linked hp hw hr htop template target hf)
          (fill_live hp hw hr htop template target ho hs.inPage hf)
        obtain ⟨s', ids', hs'', hqs', hids'⟩ := fillTidily_of_fill hf'
          (fill_linked hc hw hr htop template target hf')
          (fill_live hc hw hr htop template target hoc h.inPage hf')
        rw [hs', hs'']
        exact .ok (hqs.symm.trans (halike.trans hqs')) (by rw [hids, hids', hlength])

/-! ## Bindings -/

/-- **A binding may be set up before or after compaction.** -/
theorem TidiesTo.pageWith (h : TidiesTo p c a new) (m : Markers) (selector : String) (s : Setup)
    (hx : p.tree.Within root x) :
    (∃ e, Runner.pageWith p m selector s x = .error e ∧
      Runner.pageWith c m selector s (placeIn a x) = .error e) ∨
    ∃ p' c' a', Runner.pageWith p m selector s x = .ok p' ∧
      Runner.pageWith c m selector s (placeIn a x) = .ok c' ∧ TidiesTo p' c' a' new := by
  rw [Runner.pageWith, Runner.pageWith]
  cases hdata : s.data with
  | some data =>
    refine .inr ⟨_, _, a, rfl, rfl, h.tree, h.places, ?_⟩
    rw [setOwnData, setOwnData, h.ownData]
    exact (renumberData_set h.tree hx ⟨s.template, data⟩ p.ownData).symm
  | none =>
    cases hurl : s.url with
    | none => exact .inl ⟨_, rfl, rfl⟩
    | some url =>
      obtain ⟨n, hn⟩ := Tree.has_iff_contentOf.1 (h.tree.rooted.within_has hx)
      dsimp only
      rw [Setup.apply, Setup.apply, hdata, hurl, Tree.element?_ok hn,
        Tree.element?_ok ((h.tree.renamed.content x hx).trans hn)]
      cases n.element? with
      | none => exact .inr ⟨p, c, a, rfl, rfl, h⟩
      | some e =>
        obtain ⟨t', u', a', ht', hu', htree⟩ := h.tree.setContent hx (.element (s.writeOn m url e))
        simp only [Option.isSome_none, Bool.false_eq_true, if_false, ok_bind, ht', hu']
        exact .inr ⟨_, _, a', rfl, rfl, htree, h.places, h.ownData⟩

end LivePage
end Page
end PageBinding
