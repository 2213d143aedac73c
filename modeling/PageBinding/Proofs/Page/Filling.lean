/-
# Filling arranged pages

Filling a template whose place is settled keeps a page arranged, and so does filling
one with nothing (`Arranged.after_fill`).  If the place is not settled, an output is
put beside its spot, and an error message that occurs nowhere in the page shows that
(`Arranged.misplaced`).
-/

import PageBinding.Proofs.Page.Arrangement
import PageBinding.Proofs.Page.Deliveries

namespace PageBinding

open Html (Node Element Document)
open Html.Document (idsOfAll rewriteAll EveryAll)
open Numbered (documents idsAll numberAllFrom)

namespace Page

open Layout (shownAll sourceAll FitsAll fitsAll_append sourceAll_append)
open PageBinding.Tree (root)

variable {p : LivePage} {picture : Picture} {ls pre post : List Layout} {l : Layout} {name : String}
  {q : NodeId} {C : List Layout → List Layout} {S : List Numbered → List Numbered}

section

variable {u : Tree} {place filled : Place} {news cs : List Numbered} {content : Tree} {r : Numbered}

namespace Spot

/-- **A tree in which the place at the spot is refilled** holds what there was around
it. -/
theorem holds_refilled (s : Spot name q C S pre l post)
    (h : Arranged p picture (C (pre ++ l :: post))) (hparent : place.parent = q)
    (hnodes : place.nodes = l.shown.map Numbered.top) (hr : Refilled p.tree u place filled news)
    (hq : u.childrenOf q = cs.map Numbered.top)
    (hcs : ∀ c ∈ cs, c ∈ news ∨ c ∈ shownAll pre ++ shownAll post) :
    u.Holds (.node root .fragment (S cs)) := by
  have hh := h.holds
  rw [s.shown] at hh
  have hhas : ∀ x ∈ root :: idsAll (S (shownAll (pre ++ l :: post))), p.tree.Has x := fun x hx =>
    hh.has hx
  have hold : ∀ y ∈ place.nodes, p.tree.parentOf y = some place.parent := by
    intro y hy
    rw [hnodes] at hy
    obtain ⟨b, hb, rfl⟩ := List.mem_map.1 hy
    rw [hparent]
    exact s.parentOf h hb
  have hkeep : ∀ {x}, p.tree.Has x → x ≠ q → u.childrenOf x = p.tree.childrenOf x := fun hx hne =>
    hr.children_of_ne h.wellFormed hold hx (hparent.symm ▸ hne)
  refine s.outer.holds h.wellFormed hh (fun x hx _ => hr.content x (hhas x hx))
    (fun x hx _ hne => hkeep (hhas x hx) hne) hq fun c hc => ?_
  rcases hcs c hc with hc | hc
  · exact hr.holds c hc
  -- What was beside the spot is as it was.
  · obtain ⟨n, hin⟩ := s.holds h
    have hmem : c ∈ shownAll (pre ++ l :: post) := by
      rw [shownAll_split]
      rcases List.mem_append.1 hc with hc | hc
      · exact List.mem_append_left _ (List.mem_append_left _ hc)
      · exact List.mem_append_right _ hc
    have hheld : p.tree.Holds c := hin.of_mem hmem
    refine hheld.frame (fun x hx => hr.content x (hheld.has hx)) fun x hx =>
      hkeep (hheld.has hx) ?_
    rintro rfl
    exact hin.top_notMem_idsAll h.wellFormed (Numbered.mem_idsAll.2 ⟨c, hmem, hx⟩)

/-- Filling a place changes nothing of what the page was made of. -/
theorem source_filled (s : Spot name q C S pre l post) :
    sourceAll (C (pre ++ .place l.content l.source.children news :: post)) =
      sourceAll (C (pre ++ l :: post)) := by
  have hsource : (Layout.place l.content l.source.children news).source = l.source := by
    cases l <;> rfl
  refine s.around.source_congr ?_
  rw [sourceAll_append, sourceAll_append, sourceAll, sourceAll, hsource]

/-- The layout with an output at the spot fits what is remembered then. -/
theorem fits_filled (s : Spot name q C S pre l post) (h : Arranged p picture (C (pre ++ l :: post)))
    (hl : l.content.templateName? = some name) (hparent : filled.parent = q)
    (hnodes : filled.nodes = news.map Numbered.top) (hun : EveryAll Node.Unnamed (documents news)) :
    FitsAll (Keyed.set name filled p.places) (picture.fill name (documents news)).outputs root
      (C (pre ++ .place l.content l.source.children news :: post)) := by
  have hclosed := h.closed
  rw [← h.source] at hclosed
  have hinner := s.around.closed_inner hclosed
  rw [sourceAll_append, Document.closedAll_append, sourceAll] at hinner
  have hhidden : EveryAll Node.Unnamed l.source.children := by
    have hcl := hinner.2.1
    cases l with
    | node x n ks => exact hcl.1 (hl ▸ Option.some_ne_none _)
    | place n hidden outs => exact hcl.1 (hl ▸ Option.some_ne_none _)
  have hp : ∀ other, other ≠ name → (Keyed.set name filled p.places).lookup other =
      p.places.lookup other := fun other hne => Keyed.lookup_set_of_ne hne ..
  have ho : ∀ other, other ≠ name → (picture.fill name (documents news)).outputs.lookup other =
      picture.outputs.lookup other := fun other hne => Keyed.lookup_set_of_ne hne ..
  obtain ⟨hpre, -, hpost⟩ := fitsAll_append.1 (s.around.fits_inner h.fits)
  have hplace : Layout.Fits (Keyed.set name filled p.places)
      (picture.fill name (documents news)).outputs q
      (.place l.content l.source.children news) :=
    ⟨name, filled, hl, Keyed.lookup_set_self .., hparent, hnodes, Keyed.lookup_set_self ..,
      hhidden, hun⟩
  exact s.around.fits_outer hp ho h.fits (fitsAll_append.2
    ⟨FitsAll.congr hp ho pre s.before hpre, hplace, FitsAll.congr hp ho post s.after hpost⟩)

/-- The picture with the template filled shows the output at the spot. -/
theorem documents_filled (s : Spot name q C S pre l post)
    (h : Arranged p picture (C (pre ++ l :: post))) (hl : l.content.templateName? = some name)
    (hparent : filled.parent = q) (hnodes : filled.nodes = news.map Numbered.top)
    (hun : EveryAll Node.Unnamed (documents news)) :
    (picture.fill name (documents news)).documents =
      documents (S (shownAll pre ++ news ++ shownAll post)) := by
  have hd := Layout.documents_shownAll _ (s.fits_filled h hl hparent hnodes hun)
  rw [s.source_filled, h.source, s.shown, shownAll_split, Layout.shown] at hd
  exact hd.symm

/-- The layout with an output at the spot is one of the page with the output. -/
theorem arranged (s : Spot name q C S pre l post) (h : Arranged p picture (C (pre ++ l :: post)))
    (hl : l.content.templateName? = some name) (hv : place.Valid p.tree)
    (hparent : place.parent = q) (hr : Refilled p.tree u place filled news)
    (hu : u.Holds (.node root .fragment (S (shownAll pre ++ news ++ shownAll post))))
    (hun : EveryAll Node.Unnamed (documents news)) :
    Arranged { p with tree := u, places := Keyed.set name filled p.places }
      (picture.fill name (documents news))
      (C (pre ++ .place l.content l.source.children news :: post)) := by
  refine ⟨LivePage.refilled_linked h.toLinked hv hr name, ?_,
    s.fits_filled h hl (hr.parent_eq.trans hparent) hr.nodes_eq hun,
    s.source_filled.trans h.source, h.unique, h.closed⟩
  rw [s.shown, shownAll_split]
  exact hu

/-- A layout at the spot of a name that templates alone have is a template's. -/
theorem templateName? (s : Spot name q C S pre l post)
    (h : Arranged p picture (C (pre ++ l :: post))) (hn : picture.Has name) :
    l.content.templateName? = some name := by
  have hall := hn.template
  rw [← h.source] at hall
  have hinner := s.around.every_inner hall
  rw [sourceAll_append, Document.everyAll_append, sourceAll] at hinner
  have hl : l.content.id? = some name → l.content.isTemplate = true := by
    cases l with
    | node x n ks => exact hinner.2.1.1
    | place n hidden outs => exact hinner.2.1.1
  rw [Node.templateName?, if_pos (hl s.id), s.id]

/-- **Filling the template at the spot** refills the place there. -/
theorem fillPlace_ok (s : Spot name q C S pre l post)
    (h : Arranged p picture (C (pre ++ l :: post))) (hl : l.content.isTemplate = true)
    (hc : content.WellFormed) (hr : content.Holds r) (htop : r.top = root) :
    ∃ u place filled, p.fillPlace name content =
        .ok ({ p with tree := u, places := Keyed.set name filled p.places }, filled.nodes) ∧
      p.placeOf name = .ok place ∧ place.Valid p.tree ∧ place.parent = q ∧
      place.nodes = l.shown.map Numbered.top ∧
      (place.nodes = [] → p.places.lookup name = some place) ∧
      Refilled p.tree u place filled (numberAllFrom p.tree.size content.below) := by
  obtain ⟨place, hplace, hparent, hnodes, hlookup⟩ := s.placeOf_eq h hl
  obtain ⟨u, filled, hv, href, hfill⟩ := LivePage.fillPlace_of_place h.toLinked hplace hc hr htop
  rw [← Numbered.documents_eq_map, ← Tree.below_eq hc hr htop] at href
  exact ⟨u, place, filled, hfill, hplace, hv, hparent, hnodes, hlookup, href⟩

/-- Nodes put in a place without any are as far from the end as that is. -/
theorem children_of_empty (s : Spot name q C S pre l post)
    (h : Arranged p picture (C (pre ++ l :: post))) (hv : place.Valid p.tree)
    (hparent : place.parent = q) (hnodes : place.nodes = l.shown.map Numbered.top)
    (hnil : place.nodes = []) (hr : Refilled p.tree u place filled news) :
    let bs := shownAll pre ++ shownAll post
    u.childrenOf q = (bs.take (bs.length - place.distance p.tree) ++ news ++
      bs.drop (bs.length - place.distance p.tree)).map Numbered.top := by
  intro bs
  have hq : p.tree.childrenOf q = bs.map Numbered.top := by
    rw [s.children h, ← hnodes, hnil, List.append_nil, ← List.map_append]
  have hchildren := hr.children_of_empty hv hnil
  rw [Place.splice_next, hparent, hq, List.length_map, ← List.map_take, ← List.map_drop,
    ← List.map_append, ← List.map_append] at hchildren
  exact hchildren

/-- Nodes put in the place at the spot stand there, if the place has nodes or is as far
from the end as the spot is. -/
theorem children_refilled (s : Spot name q C S pre l post)
    (h : Arranged p picture (C (pre ++ l :: post))) (hv : place.Valid p.tree)
    (hparent : place.parent = q) (hnodes : place.nodes = l.shown.map Numbered.top)
    (hr : Refilled p.tree u place filled news)
    (hd : place.nodes ≠ [] ∨ news = [] ∨ place.distance p.tree = (shownAll post).length) :
    u.childrenOf q = (shownAll pre ++ news ++ shownAll post).map Numbered.top := by
  by_cases hnil : place.nodes = []
  · have hchildren := s.children_of_empty h hv hparent hnodes hnil hr
    rcases hd with hne | rfl | hdist
    · exact absurd hnil hne
    · rw [hchildren, List.append_nil, List.take_append_drop, List.append_nil]
    · have hk : (shownAll pre ++ shownAll post).length - place.distance p.tree =
          (shownAll pre).length := by
        rw [hdist, List.length_append, Nat.add_sub_cancel]
      rw [hchildren, hk, List.take_left, List.drop_left]
  · have hq : p.tree.childrenOf place.parent = (shownAll pre).map Numbered.top ++ place.nodes ++
        (shownAll post).map Numbered.top := by
      rw [hparent, hnodes, s.children h]
    rw [← hparent, hr.children_of_nodes h.wellFormed hv hnil hq, List.map_append, List.map_append]

end Spot

/-- **Filling a template keeps a page arranged,** if its place is settled or nothing is
put there. -/
theorem Arranged.fillPlace (h : Arranged p picture ls) (hn : picture.Has name)
    (hc : content.WellFormed) (hr : content.Holds r) (htop : r.top = root)
    (hun : EveryAll Node.Unnamed content.below)
    (hs : content.below = [] ∨ p.Settled picture name) :
    ∃ p' nodes ls', p.fillPlace name content = .ok (p', nodes) ∧
      Arranged p' (picture.fill name content.below) ls' := by
  obtain ⟨q, C, S, pre, l, post, s, rfl⟩ := h.exists_spot hn.mem
  have hl := s.templateName? h hn
  obtain ⟨u, place, filled, hfill, -, hv, hparent, hnodes, hlookup, href⟩ :=
    s.fillPlace_ok h (Layout.templateName?_eq_some hl).1 hc hr htop
  have hd : place.nodes ≠ [] ∨ numberAllFrom p.tree.size content.below = [] ∨
      place.distance p.tree = (shownAll post).length := by
    by_cases hnil : place.nodes = []
    · rcases hs with hs | hs
      · exact .inr (.inl (by rw [hs]; rfl))
      · have hdist := hs place (hlookup hnil) hnil
        rw [s.followers h] at hdist
        exact .inr (.inr (Option.some.inj hdist).symm)
    · exact .inl hnil
  have hu := s.holds_refilled h hparent hnodes href
    (s.children_refilled h hv hparent hnodes href hd) fun c hc => by
      rw [List.mem_append, List.mem_append] at hc
      rcases hc with (hc | hc) | hc
      · exact .inr (List.mem_append_left _ hc)
      · exact .inl hc
      · exact .inr (List.mem_append_right _ hc)
  have harranged := s.arranged h hl hv hparent href hu (by
    rw [Numbered.documents_numberAllFrom]; exact hun)
  rw [Numbered.documents_numberAllFrom] at harranged
  exact ⟨_, _, _, hfill, harranged⟩

end

/-! ## Outputs that are delivered -/

/-- What a page is once a template is filled, up to compaction. -/
theorem after_eq {p' : LivePage} {nodes : List NodeId} {content : Tree} (hp : p'.Linked)
    (hfill : p.fillPlace name content = .ok (p', nodes)) :
    p.after (some ⟨name, none, content⟩) = p' ∨
      ∃ new, p'.compact = .ok (p.after (some ⟨name, none, content⟩), new) := by
  have hfill' : p.fill name none content = .ok (p', nodes) := hfill
  rcases LivePage.fillTidily_eq hp hfill' with heq | ⟨s, new, hcompact, heq⟩
  · exact .inl (by rw [LivePage.after, heq])
  · exact .inr ⟨new, by rw [LivePage.after, heq, hcompact]⟩

/-- **Delivering an output keeps a page arranged,** if the place of its template is
settled or if it has no nodes. -/
theorem Arranged.after_fill {content : Tree} {r : Numbered} (h : Arranged p picture ls)
    (hn : picture.Has name) (hc : content.WellFormed) (hr : content.Holds r) (htop : r.top = root)
    (hun : EveryAll Node.Unnamed content.below)
    (hs : content.below = [] ∨ p.Settled picture name) :
    ∃ ls', Arranged (p.after (some ⟨name, none, content⟩)) (picture.fill name content.below) ls' := by
  obtain ⟨p', nodes, ls', hfill, h'⟩ := h.fillPlace hn hc hr htop hun hs
  rcases after_eq h'.toLinked hfill with heq | ⟨new, hcompact⟩
  · exact ⟨ls', heq.symm ▸ h'⟩
  · exact h'.compact hcompact

/-- The place of a template whose last output was not empty is settled. -/
theorem Arranged.settled_of_output (h : Arranged p picture ls) (hn : picture.Has name)
    (ho : picture.outputs.lookup name ≠ some []) : p.Settled picture name := by
  intro place hplace hnil
  exfalso
  obtain ⟨q, C, S, pre, l, post, s, rfl⟩ := h.exists_spot hn.mem
  have hfits := (fitsAll_append.1 (s.around.fits_inner h.fits)).2.1
  cases l with
  | node x n ks =>
    rw [(hfits.1 name s.id).1] at hplace
    cases hplace
  | place n hidden outs =>
    obtain ⟨other, spot, hother, hspot, -, hnodes, hout, -⟩ := hfits
    obtain rfl : other = name :=
      Option.some.inj ((Layout.templateName?_eq_some hother).2.symm.trans s.id)
    obtain rfl := Option.some.inj (hspot.symm.trans hplace)
    rw [hnil] at hnodes
    rw [hout, List.map_eq_nil_iff.1 hnodes.symm] at ho
    exact ho rfl

/-! ## Outputs that are misplaced -/

/-- An error message has no `id`s. -/
theorem errorContent_unnamed (message : String) :
    EveryAll Node.Unnamed (errorContent message).below := by
  rw [errorContent, Tree.below_ofDocuments]
  refine ⟨⟨?_, ⟨?_, trivial⟩, trivial⟩, trivial⟩
  · rfl
  · rfl

/-- Some error message is told by none of some documents. -/
theorem exists_message (ds : List Document) :
    ∃ message d, (errorContent message).below = [d] ∧ d ∉ ds := by
  -- There are more messages than documents.
  let message (n : Nat) : String := String.ofList (List.replicate n 'a')
  let told (n : Nat) : Document := .node (.element ⟨"div", [("class", errorClass)]⟩)
    [.node (.text ("Error: " ++ message n)) []]
  have hinj : told.Injective := by
    intro n m hnm
    have ht : "Error: " ++ message n = "Error: " ++ message m := by
      simpa only [told, Document.node.injEq, List.cons.injEq, Node.text.injEq, true_and,
        and_true] using hnm
    have hl := congrArg String.length ht
    simpa [message, String.length_append] using hl
  have hnot : ∃ n ∈ List.range (ds.length + 1), told n ∉ ds := by
    by_contra hall
    push Not at hall
    have hsub : (List.range (ds.length + 1)).map told ⊆ ds := fun d hd => by
      obtain ⟨n, hn, rfl⟩ := List.mem_map.1 hd
      exact hall n hn
    have hlen := ((List.nodup_range.map hinj).subperm hsub).length_le
    rw [List.length_map, List.length_range] at hlen
    omega
  obtain ⟨n, -, hn⟩ := hnot
  exact ⟨message n, told n, Tree.below_ofDocuments _, hn⟩

/-- A document that occurs nowhere beside the spot shows how far from the end it is put
in a place without nodes. -/
theorem Spot.distance_eq {content : Tree} {r : Numbered} {place : Place} {d : Document}
    (s : Spot name q C S pre l post) (h : Arranged p picture (C (pre ++ l :: post)))
    (hl : l.content.templateName? = some name) (hlookup : p.places.lookup name = some place)
    (hnil : place.nodes = []) (hc : content.WellFormed) (hr : content.Holds r) (htop : r.top = root)
    (hbelow : content.below = [d]) (hun : EveryAll Node.Unnamed content.below)
    (hd : d ∉ documents (shownAll pre ++ shownAll post))
    (hread : (p.after (some ⟨name, none, content⟩)).tree.read root =
      .ok (.node .fragment (picture.fill name content.below).documents)) :
    place.distance p.tree = (shownAll post).length := by
  obtain ⟨u, place', filled, hfill, hplace, hv, hparent, hnodes, -, href⟩ :=
    s.fillPlace_ok h (Layout.templateName?_eq_some hl).1 hc hr htop
  rw [LivePage.placeOf, hlookup] at hplace
  obtain rfl := Except.ok.inj hplace
  obtain ⟨news, hnews⟩ : ∃ news, news = numberAllFrom p.tree.size content.below := ⟨_, rfl⟩
  rw [← hnews] at href
  have hdocuments : documents news = content.below := by
    rw [hnews, Numbered.documents_numberAllFrom]
  let bs := shownAll pre ++ shownAll post
  let k := bs.length - place.distance p.tree
  have hheld := s.holds_refilled h hparent hnodes href
    (s.children_of_empty h hv hparent hnodes hnil href) fun c hc => by
      rw [List.mem_append, List.mem_append] at hc
      rcases hc with (hc | hc) | hc
      · exact .inr (List.mem_of_mem_take hc)
      · exact .inl hc
      · exact .inr (List.mem_of_mem_drop hc)
  -- The page reads as it is arranged, and as the picture says.
  have hlinked := LivePage.refilled_linked h.toLinked hv href name
  have hread' : (p.after (some ⟨name, none, content⟩)).tree.read root =
      .ok (.node .fragment (documents (S (bs.take k ++ news ++ bs.drop k)))) := by
    have hu := hheld.read hlinked.wellFormed
    rcases after_eq hlinked hfill with heq | ⟨new, hcompact⟩
    · rw [heq]
      exact hu
    · rw [read_compact hlinked hcompact]
      exact hu
  have hpicture := s.documents_filled h hl (href.parent_eq.trans hparent) href.nodes_eq
    (hdocuments.symm ▸ hun)
  have hreads := hread'.symm.trans hread
  rw [← hdocuments, hpicture, Except.ok.injEq, Document.node.injEq] at hreads
  -- So the document is at the one spot and at the other.
  have hsame := s.outer.documents_inj hreads.2
  simp only [Numbered.Around.documents_append, hdocuments, hbelow, List.append_assoc,
    List.singleton_append] at hsame
  rw [Numbered.Around.documents_append, List.mem_append, not_or] at hd
  have hlen := congrArg List.length ((List.append_cons_inj_of_notMem hd.1 hd.2).1 hsame.symm).1
  have hbs : bs.length = (p.tree.childrenOf place.parent).length := by
    rw [hparent, s.children h, ← hnodes, hnil, List.append_nil, ← List.map_append, List.length_map]
  have hle := place.distance_le p.tree
  have hsum : bs.length = (shownAll pre).length + (shownAll post).length := List.length_append
  rw [Numbered.documents_eq_map, Numbered.documents_eq_map, List.length_map, List.length_map,
    List.length_take] at hlen
  omega

/-- **In a place that is not settled an output is misplaced.** -/
theorem Arranged.misplaced (h : Arranged p picture ls) (hn : picture.Has name)
    (hs : ¬ p.Settled picture name) : ∃ message,
      (p.after (some ⟨name, none, errorContent message⟩)).tree.read root ≠
        .ok (.node .fragment (picture.fill name (errorContent message).below).documents) := by
  rw [LivePage.Settled] at hs
  push Not at hs
  obtain ⟨place, hlookup, hnil, hdist⟩ := hs
  obtain ⟨q, C, S, pre, l, post, s, rfl⟩ := h.exists_spot hn.mem
  obtain ⟨message, d, hbelow, hd⟩ := exists_message (documents (shownAll pre ++ shownAll post))
  obtain ⟨hc, hroot⟩ := Runner.errorContent_rooted message
  obtain ⟨r, htop, hr⟩ := hc.exists_holds hroot
  refine ⟨message, fun hread => hdist ?_⟩
  rw [s.followers h, s.distance_eq h (s.templateName? h hn) hlookup hnil hc hr htop hbelow
    (errorContent_unnamed message) hd hread]

end Page
end PageBinding
