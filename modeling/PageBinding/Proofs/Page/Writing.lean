/-
# Bindings set up in arranged pages

A binding that is set up writes attributes onto the element of an `id`, and keeps a
page arranged (`Arranged.setUp`).  The element is found if it is shown, and then it is
changed where it stands.  It may also be a template that is filled; then it is changed
in the picture only, where its output hides it.
-/

import PageBinding.Proofs.Page.Arrangement
import PageBinding.Proofs.Page.Running

namespace PageBinding

open Html (Node Element Document)
open Html.Document (idsOfAll rewriteAll EveryAll)
open Numbered (documents idsAll numberAllFrom)

namespace Page

open Layout (shownAll sourceAll FitsAll fitsAll_append sourceAll_append)
open PageBinding.Tree (root)

variable {p : LivePage} {picture : Picture} {ls pre post : List Layout} {l : Layout} {name : String}
  {q : NodeId} {C : List Layout → List Layout} {S : List Numbered → List Numbered}

/-! ## Bindings that are set up -/

section

variable {f : Element → Element} {t : Tree}

/-- The element at the spot is changed. -/
theorem Spot.arranged_rewrite (s : Spot name q C S pre l post)
    (h : Arranged p picture (C (pre ++ l :: post))) (hf : Element.Keeps f)
    (hp : ({ p with tree := t } : LivePage).Linked)
    (ht : t.Holds (.node root .fragment (S (shownAll (pre ++ l.rewrite name f :: post))))) :
    Arranged { p with tree := t } { picture with page := rewriteAll name f picture.page }
      (C (pre ++ l.rewrite name f :: post)) := by
  obtain ⟨hpre, hl, hpost⟩ := fitsAll_append.1 (s.around.fits_inner h.fits)
  refine ⟨hp, ?_, ?_, ?_, ?_, Document.closedAll_rewriteAll hf _ h.closed⟩
  · rw [s.shown]
    exact ht
  · exact s.around.fits_outer (fun _ _ => rfl) (fun _ _ => rfl) h.fits
      (fitsAll_append.2 ⟨hpre, Layout.fits_rewrite hf hl, hpost⟩)
  · rw [← h.source]
    refine (s.around.source_rewrite ?_).symm
    rw [sourceAll_append, sourceAll_append, sourceAll, sourceAll, Document.rewriteAll_append,
      rewriteAll, Document.rewriteAll_of_notMem _ s.before, Document.rewriteAll_of_notMem _ s.after,
      Layout.source_rewrite s.inside]
  · rw [Document.idsOfAll_rewriteAll hf]
    exact h.unique

/-- An element that is not shown may be changed in the picture. -/
theorem Arranged.write_hidden (h : Arranged p picture ls) (hf : Element.Keeps f)
    (hfound : p.tree.findById? name = .ok none) :
    ∃ ls', Arranged p { picture with page := rewriteAll name f picture.page } ls' := by
  by_cases hm : name ∈ idsOfAll picture.page
  · obtain ⟨q, C, S, pre, l, post, s, rfl⟩ := h.exists_spot hm
    cases l with
    | node x n ks =>
      rw [(s.findById? h).2] at hfound
      cases hfound
    | place n hidden outs =>
      have hh := h.holds
      rw [s.shown, shownAll_split] at hh
      refine ⟨_, s.arranged_rewrite h hf h.toLinked ?_⟩
      rw [shownAll_split]
      exact hh
  · rw [Document.rewriteAll_of_notMem _ hm]
    exact ⟨ls, h⟩

/-- The `id` of a template that is filled is not shown. -/
theorem Spot.notMem_shown {n : Node} {hidden : List Document} {outs : List Numbered}
    (s : Spot name q C S pre (.place n hidden outs) post)
    (h : Arranged p picture (C (pre ++ .place n hidden outs :: post))) :
    name ∉ idsOfAll (documents (shownAll (C (pre ++ .place n hidden outs :: post)))) := by
  obtain ⟨hpre, hl, hpost⟩ := fitsAll_append.1 (s.around.fits_inner h.fits)
  obtain ⟨_, _, _, _, _, _, _, _, hun⟩ := hl
  refine s.around.notMem_shown h.fits ?_
  rw [shownAll_split, Numbered.Around.documents_append, Numbered.Around.documents_append,
    Document.idsOfAll_append, Document.idsOfAll_append, List.mem_append, List.mem_append]
  rintro ((hm | hm) | hm)
  · exact s.before ((Layout.idsOf_shownAll pre hpre).subset hm)
  · rw [Layout.shown, Document.idsOfAll_of_every hun] at hm
    cases hm
  · exact s.after ((Layout.idsOf_shownAll post hpost).subset hm)

/-- A tree with another content at the spot. -/
theorem Spot.holds_changed {x : NodeId} {n n' : Node} {ks : List Layout}
    (s : Spot name q C S pre (.node x n ks) post)
    (h : Arranged p picture (C (pre ++ .node x n ks :: post))) (hx : t.contentOf x = some n')
    (hne : ∀ y, y ≠ x → t.contentOf y = p.tree.contentOf y)
    (hc : ∀ y, t.childrenOf y = p.tree.childrenOf y) :
    t.Holds (.node root .fragment (S (shownAll (pre ++ .node x n' ks :: post)))) := by
  have hh := h.holds
  rw [s.shown] at hh
  obtain ⟨_, hin⟩ := s.holds h
  have hnodup : ((shownAll (pre ++ .node x n ks :: post)).map Numbered.top).Nodup := by
    have hn := h.wellFormed.nodup q
    rwa [show p.tree.childrenOf q = _ from hin.children] at hn
  rw [shownAll_split, List.map_append, List.map_append] at hnodup
  have hblock : Numbered.node x n (shownAll ks) ∈ shownAll (pre ++ .node x n ks :: post) := by
    rw [shownAll_split]
    exact List.mem_append_left _ (List.mem_append_right _ (List.mem_singleton_self _))
  have hxin : x ∈ idsAll (shownAll (pre ++ .node x n ks :: post)) :=
    Numbered.mem_idsAll.2 ⟨_, hblock, List.mem_cons_self ..⟩
  have hframe : ∀ {c}, p.tree.Holds c → x ∉ c.ids → t.Holds c := fun hheld hnot =>
    hheld.frame (fun y hy => hne y fun he => hnot (he ▸ hy)) fun y _ => hc y
  have hbeside : ∀ {c}, c ∈ shownAll (pre ++ .node x n ks :: post) → c.top ≠ x → t.Holds c :=
    fun hmem htop => hframe (hin.of_mem hmem) fun hm =>
      hin.disjoint_of_mem h.wellFormed hmem hblock htop hm (List.mem_cons_self ..)
  refine s.outer.holds h.wellFormed hh (fun y _ hy => hne y fun he => hy (he ▸ hxin))
    (fun y _ _ _ => hc y) ?_ fun c hmem => ?_
  · rw [hc, show p.tree.childrenOf q = _ from hin.children, Numbered.inside, shownAll_split,
      shownAll_split, List.map_append, List.map_append, List.map_append, List.map_append]
    rfl
  · rw [shownAll_split, List.mem_append, List.mem_append] at hmem
    rw [List.nodup_append', List.nodup_append'] at hnodup
    obtain ⟨⟨-, -, hpre⟩, -, hpost⟩ := hnodup
    rcases hmem with (hmem | hmem) | hmem
    · refine hbeside ?_ fun he => hpre (List.mem_map_of_mem hmem) (he ▸ List.mem_cons_self ..)
      rw [shownAll_split]
      exact List.mem_append_left _ (List.mem_append_left _ hmem)
    · obtain rfl := List.mem_singleton.1 hmem
      have hb := hin.of_mem hblock
      refine Tree.holds_iff.2 ⟨hx, (hc x).trans hb.children, fun b hbm => ?_⟩
      exact hframe (hb.of_mem hbm) fun hm =>
        hb.top_notMem_idsAll h.wellFormed (Numbered.mem_idsAll.2 ⟨b, hbm, hm⟩)
    · refine hbeside ?_ fun he => hpost (List.mem_append_right _ (List.mem_cons_self ..)) ?_
      · rw [shownAll_split]
        exact List.mem_append_right _ hmem
      · show x ∈ (shownAll post).map Numbered.top
        rw [← he]
        exact List.mem_map_of_mem hmem

/-- An element that is found may be changed. -/
theorem Arranged.write_found {x : NodeId} {n : Node} {e : Element} (h : Arranged p picture ls)
    (hf : Element.Keeps f) (hfound : p.tree.findById? name = .ok (some x))
    (hn : p.tree.contentOf x = some n) (he : n.element? = some e)
    (ht : p.tree.setContent x (.element (f e)) = .ok t) :
    ∃ ls', Arranged { p with tree := t } { picture with page := rewriteAll name f picture.page } ls' := by
  obtain ⟨hmem, hid⟩ := Tree.idAt_of_findById? h.wellFormed h.holds rfl hfound
  have hshown : name ∈ idsOfAll (documents (shownAll ls)) := by
    rw [← Tree.HoldsAll.filterMap_idAt h.holds.2.2]
    exact List.mem_filterMap.2 ⟨x, hmem, hid⟩
  have hm : name ∈ idsOfAll picture.page := by
    rw [← h.source]
    exact (Layout.idsOf_shownAll ls h.fits).subset hshown
  obtain ⟨q, C, S, pre, l, post, s, rfl⟩ := h.exists_spot hm
  cases l with
  | place n hidden outs => exact absurd hshown (s.notMem_shown h)
  | node y n' ks =>
    obtain ⟨hy, hfound'⟩ := s.findById? h
    obtain rfl := Option.some.inj (Except.ok.inj (hfound.symm.trans hfound'))
    obtain rfl : n = n' := Option.some.inj (hn.symm.trans hy.content)
    have hlinked := Runner.linked_of_setContent h.toLinked hn he (f e) ht
    obtain ⟨u, hu, -, hcon, -, hch⟩ := Tree.setContent_ok hy.has_top (.element (f e))
    obtain rfl : t = u := Except.ok.inj (ht.symm.trans hu)
    refine ⟨_, s.arranged_rewrite h hf hlinked (s.holds_changed h ?_ (fun y hy => ?_) hch)⟩
    · have hx : t.contentOf x = some (.element (f e)) := (hcon x).trans (if_pos rfl)
      rw [hx]
      have hid : n.id? = some name := s.id
      cases n with
      | element e' =>
        obtain rfl := Option.some.inj he
        have hid : e'.get? "id" = some name := hid
        rw [Node.rewrite, if_pos hid]
      | _ => cases he
    · exact (hcon y).trans (if_neg hy)

end

/-- **Setting up a binding keeps a page arranged.** -/
theorem Arranged.setUp {σ γ : Type} {r : Runner σ γ} (h : Arranged r.page picture ls)
    (selector : String) (s : Setup) :
    ∃ ls', Arranged (r.setUp selector s).1.page (picture.write r.markers selector s) ls' := by
  obtain ⟨found, hfound, hhas⟩ := Runner.selected?_ok h.toLinked selector
  rw [Runner.setUp, hfound, Picture.write]
  cases hdata : s.data with
  | some data =>
    cases found with
    | none => exact ⟨ls, h⟩
    | some x =>
      dsimp only
      rw [Runner.pageWith, hdata]
      refine ⟨ls, ⟨h.wellFormed, h.root_content, h.root_parent, h.places, fun e he => ?_⟩, h.holds,
        h.fits, h.source, h.unique, h.closed⟩
      rcases LivePage.mem_set he with rfl | he
      · exact hhas x rfl
      · exact h.ownData e he
  | none =>
    cases hurl : s.url with
    | none =>
      cases found with
      | none => exact ⟨ls, h⟩
      | some x =>
        dsimp only
        rw [Runner.pageWith, hdata, hurl]
        exact ⟨ls, h⟩
    | some url =>
      have hkeeps := Setup.writeOn_keeps s r.markers url
      cases found with
      | none => exact h.write_hidden hkeeps hfound
      | some x =>
        obtain ⟨-, n, hn, hid⟩ := Tree.findById?_eq_some h.wellFormed h.holds rfl hfound
        obtain ⟨e, he, -⟩ := Option.bind_eq_some_iff.1 (Node.hasId_iff.1 hid)
        obtain ⟨t, ht, -⟩ := Tree.setContent_ok (hhas x rfl) (.element (s.writeOn r.markers url e))
        have happly : s.apply r.markers r.page.tree x = .ok t := by
          rw [Setup.apply, hdata, hurl, Tree.element?_ok hn, he]
          exact ht
        dsimp only
        rw [Runner.pageWith, hdata, hurl]
        dsimp only
        rw [happly]
        exact h.write_found hkeeps hfound hn he ht

end Page
end PageBinding
