/-
# Outputs that replace each other

The place of a template is intact (`LivePage.Intact`) if the template stands in the page itself,
or if the page has the parent of the place, and among the children of that the nodes of the last
output, side by side, or else what came after them when they were replaced by nothing.  In each of
these cases the place is between some children of its parent (`Place.Between`), and so the template
stands there (`LivePage.Stands`).

| nodes of the place | the next output goes before |
| --- | --- |
| some | the first of them |
| none, and something came after them | what came after them |
| none, and nothing came after them | the end |

All of these are the same spot.  An output renews what stands there and nothing else, and the
template stands there again (`Stands.replaced`), even if the page is compacted then.  So however
often a template is filled, only the last output is left to be read (`Stands.fillAll`,
`last_output_replaces`).
-/

import PageBinding.Proofs.Page.Outcomes
import PageBinding.Proofs.Page.Tidying
import PageBinding.Proofs.Tree.Renewed

namespace PageBinding

open Html (Document)
open Numbered (numberAllFrom)

namespace Page

open Fetch (Source)
open Template (Markers)
open PageBinding.Tree (root placeIn CompactsTo Renewed)

/-- **A place is between some children** of a node of the page: its nodes stand there, or, if it has
none, it remembers the one behind it. -/
structure Place.Between (t : Tree) (place : Place) (pre post : List NodeId) : Prop where
  live : t.Within root place.parent
  split : t.childrenOf place.parent = pre ++ place.nodes ++ post
  next : place.nodes = [] → place.next = post.head?

variable {t u : Tree} {place filled : Place} {pre post old nodes : List NodeId} {x parent : NodeId}
  {ds : List Document} {a : Numbered} {new : Renumbering}

/-- A place whose nodes stand side by side, or that remembers a child, is between some. -/
theorem Place.exists_between (hlive : t.Within root place.parent)
    (h : place.nodes ≠ [] ∧ place.nodes <:+: t.childrenOf place.parent ∨
      place.nodes = [] ∧ ∀ x, place.next = some x → x ∈ t.childrenOf place.parent) :
    ∃ pre post, place.Between t pre post := by
  rcases h with ⟨hne, pre, post, hsplit⟩ | ⟨hnil, hnext⟩
  · exact ⟨pre, post, hlive, hsplit.symm, fun hnil => absurd hnil hne⟩
  · cases hx : place.next with
    | none => exact ⟨t.childrenOf place.parent, [], hlive, by simp [hnil], fun _ => hx⟩
    | some x =>
      obtain ⟨pre, post, hsplit⟩ := List.append_of_mem (hnext x hx)
      exact ⟨pre, x :: post, hlive, by simp [hsplit, hnil], fun _ => hx⟩

namespace Place.Between

/-- The nodes of the place are in the page. -/
theorem within (h : place.Between t pre post) (ht : t.Rooted) (hx : x ∈ place.nodes) :
    t.Within root x :=
  ht.within_child h.live (Tree.mem_children_of_old h.split hx)

/-- A place between children of a node of the page is steady. -/
theorem steady (h : place.Between t pre post) (ht : t.Rooted) : place.Steady t :=
  ⟨h.live, .inl fun _ hx => h.within ht (hx.elim List.mem_of_head? List.mem_of_getLast?)⟩

/-- What comes after the nodes of the place, or after their spot, is the child behind it. -/
theorem afterOf_eq (h : place.Between t pre post) (ht : t.Rooted) :
    place.afterOf t = post.head? := by
  cases hl : place.nodes.getLast? with
  | none => rw [Place.afterOf_of_none hl, h.next (List.getLast?_eq_none_iff.1 hl)]
  | some last =>
    obtain ⟨init, hinit⟩ := List.getLast?_eq_some_iff.1 hl
    have hlast := Tree.mem_children_of_old h.split (List.mem_of_getLast? hl)
    have hsplit : t.childrenOf place.parent = (pre ++ init) ++ last :: post := by
      rw [h.split, hinit]
      simp
    have hn := ht.wellFormed.nodup place.parent
    rw [hsplit, List.nodup_append'] at hn
    rw [Place.afterOf_of_last hl, Tree.following, (ht.wellFormed.linked _ _).1 hlast,
      Option.bind_some, hsplit]
    exact Tree.follower?_split fun hm => hn.2.2 hm (List.mem_cons_self ..)

/-- Compaction leaves a place between the same children. -/
theorem compacted (h : place.Between t pre post) (hc : CompactsTo t u a new) :
    place.renumber? new = some ⟨placeIn a place.parent, place.nodes.map (placeIn a),
        place.next.bind new.get?⟩ ∧
      Place.Between u ⟨placeIn a place.parent, place.nodes.map (placeIn a),
        place.next.bind new.get?⟩ (pre.map (placeIn a)) (post.map (placeIn a)) := by
  have hnodes : place.nodes.filterMap new.get? = place.nodes.map (placeIn a) :=
    hc.compacted.filterMap_eq fun x hx => hc.mem_ids.2 (h.within hc.rooted hx)
  refine ⟨by rw [Place.renumber?_eq hc h.live, hnodes], hc.within h.live, ?_, fun hnil => ?_⟩
  · rw [hc.renamed.children _ h.live, h.split, List.map_append, List.map_append]
  · show place.next.bind new.get? = _
    rw [h.next (List.map_eq_nil_iff.1 hnil), List.head?_map]
    cases hx : post.head? with
    | none => rfl
    | some x =>
      have hmem := Tree.mem_children_of_beside h.split (.inr (List.mem_of_head? hx))
      rw [Option.bind_some, hc.get?_live (hc.rooted.within_child h.live hmem), Option.map_some]

end Place.Between

/-! ## Refilling -/

namespace Refilled

/-- The new nodes stand where the old ones did. -/
theorem children_of_between {news : List Numbered} (h : Refilled t u place filled news)
    (hb : place.Between t pre post) (ht : t.Rooted) (hv : place.Valid t) :
    u.childrenOf place.parent = pre ++ news.map Numbered.top ++ post := by
  by_cases hnil : place.nodes = []
  · have hsplit : t.childrenOf place.parent = pre ++ post := by
      rw [hb.split, hnil, List.append_nil]
    have hn := ht.wellFormed.nodup place.parent
    rw [hsplit, List.nodup_append'] at hn
    rw [h.children_of_empty hv hnil, hb.next hnil, hsplit,
      Tree.splice_head? fun c hc hm => hn.2.2 hc hm]
  · exact h.children_of_nodes ht.wellFormed hv hnil hb.split

/-- The filled place is between the same children. -/
theorem between {news : List Numbered} (h : Refilled t u place filled news)
    (hb : place.Between t pre post) (ht : t.Rooted) (hu : u.Rooted) (hv : place.Valid t)
    (hlive : u.Within root place.parent) : filled.Between u pre post := by
  have hchildren := h.children_of_between hb ht hv
  -- What is remembered in between is the child behind as well.
  have hfilled : Place.Between u ⟨place.parent, news.map Numbered.top, place.afterOf t⟩ pre post :=
    ⟨hlive, hchildren, fun _ => hb.afterOf_eq ht⟩
  rw [h.filled_eq]
  exact ⟨hlive, hchildren, fun _ => hfilled.afterOf_eq hu⟩

section
variable (h : Refilled t u place filled (numberAllFrom t.size ds)) (hb : place.Between t pre post)
  (ht : t.Rooted) (hv : place.Valid t)
include h hb ht hv

omit hv in
/-- The children of other nodes of the page stay. -/
theorem children_of_other (hx : t.Within root x) (hne : x ≠ place.parent) :
    u.childrenOf x = t.childrenOf x := by
  refine h.children_of_ne ht.wellFormed (fun y hy => ?_) (ht.within_has hx) hne
  exact (ht.wellFormed.linked _ _).1 (Tree.mem_children_of_old hb.split hy)

/-- The root still leads to what stays. -/
theorem within_of_stays (hx : t.Stays place.nodes x) : u.Within root x := by
  have hu := h.swapped.rooted ht
  refine hx.1.down (P := fun y => t.Stays place.nodes y → u.Within root y) (fun _ => .self ..)
    (fun p c _ ih hc hs => ?_) hx
  have hp := hs.parent ht hc
  have hmem := (ht.wellFormed.linked p c).2 hc
  refine hu.within_child (ih hp) ?_
  by_cases hpp : p = place.parent
  · subst hpp
    rw [hb.split, List.mem_append, List.mem_append] at hmem
    rw [h.children_of_between hb ht hv, List.mem_append, List.mem_append]
    rcases hmem with (hpre | hold) | hpost
    · exact .inl (.inl hpre)
    · exact absurd hold hs.notMem
    · exact .inr hpost
  · rwa [h.children_of_other hb ht hp.1 hpp]

/-- The root leads to nothing else but what is in the new nodes. -/
theorem stays_or_new (hx : u.Within root x) :
    t.Stays place.nodes x ∨ ∃ y ∈ (numberAllFrom t.size ds).map Numbered.top, u.Within y x := by
  have hu := h.swapped.rooted ht
  refine hx.down (P := fun x => t.Stays place.nodes x ∨
    ∃ y ∈ (numberAllFrom t.size ds).map Numbered.top, u.Within y x)
    (.inl (Tree.stays_root ht hb.live hb.split)) fun p c _ ih hc => ?_
  rcases ih with hp | ⟨y, hy, hyp⟩
  · have hmem := (hu.wellFormed.linked p c).2 hc
    by_cases hpp : p = place.parent
    · rw [hpp, h.children_of_between hb ht hv, List.mem_append, List.mem_append] at hmem
      have hbeside : ∀ {z}, z ∈ pre ∨ z ∈ post → t.Stays place.nodes z := fun hz =>
        Tree.stays_beside ht hb.live hb.split hz (.self ..)
      rcases hmem with (hpre | hnew) | hpost
      · exact .inl (hbeside (.inl hpre))
      · exact .inr ⟨c, hnew, .self ..⟩
      · exact .inl (hbeside (.inr hpost))
    · rw [h.children_of_other hb ht hp.1 hpp] at hmem
      exact .inl (hp.child ht hmem (Tree.notMem_old ht hb.split hpp hmem))
  · exact .inr ⟨y, hy, (hyp.above hc).within⟩

/-- **Refilling a place renews its nodes.** -/
theorem renewed : Renewed id t u place.parent pre place.nodes post
    ((numberAllFrom t.size ds).map Numbered.top) ds where
  live := hb.live
  split := hb.split
  fixed := rfl
  within x hx := h.within_of_stays hb ht hv hx
  inj _ _ _ _ he := he
  content x hx := h.content x (ht.within_has hx.1)
  parent x hx := by
    rw [id_eq, h.parent x (ht.within_has hx.1), Tree.parentsWithout, if_neg hx.notMem,
      Option.map_id, id_eq]
  children x hx hne := by
    rw [id_eq, h.children_of_other hb ht hx.1 hne, List.map_id]
  renewed := by
    rw [id_eq, h.children_of_between hb ht hv, List.map_id, List.map_id]
  fresh x hx y hy hxy := by
    obtain ⟨b, hmem, rfl⟩ := List.mem_map.1 hx
    exact h.fresh y (Numbered.mem_idsAll.2 ⟨b, hmem, ((h.holds b hmem).mem_ids h.wellFormed).2 hxy⟩)
      (ht.within_has hy.1)
  only y hy := (h.stays_or_new hb ht hv hy).imp_left fun hs => ⟨y, hs, rfl⟩
  read := by
    rw [Tree.mapM_read h.wellFormed h.holds, Numbered.documents_numberAllFrom]

end
end Refilled

namespace LivePage

variable {p q : LivePage} {name : String} {content : Tree} {f : NodeId → NodeId}

/-- **The place of a template is intact:** the template has not been filled, and stands in the page;
or the page has the parent of its place, and among the children of that all nodes of the place, side
by side, or, if it has none, what came after them, if anything did. -/
def Intact (p : LivePage) (name : String) : Prop :=
  match p.places.lookup name with
  | none => ∃ x, p.templateElement? name = .ok (some x)
  | some place => p.tree.Within root place.parent ∧
      (place.nodes ≠ [] ∧ place.nodes <:+: p.tree.childrenOf place.parent ∨
        place.nodes = [] ∧ ∀ x, place.next = some x → x ∈ p.tree.childrenOf place.parent)

/-- **A template stands between some children of a node:** its place does, with these nodes. -/
def Stands (p : LivePage) (name : String) (parent : NodeId) (pre old post : List NodeId) : Prop :=
  ∃ next, p.placeOf name = .ok ⟨parent, old, next⟩ ∧
    Place.Between p.tree ⟨parent, old, next⟩ pre post

/-! ## Templates that stand somewhere -/

/-- A template that has not been filled is between its siblings. -/
theorem exists_between_firstPlace (h : p.Linked) (hx : p.templateElement? name = .ok (some x)) :
    ∃ place pre post, p.firstPlace name = .ok place ∧ place.Between p.tree pre post := by
  obtain ⟨a, htop, ha⟩ := h.exists_root
  have hfound := Except.ok.inj ((templateElement?_ok h.wellFormed ha htop name).symm.trans hx)
  obtain ⟨parent, hparent⟩ := exists_parent h.wellFormed ha
    (List.mem_of_find?_eq_some (Option.filter_eq_some_iff.1 hfound).1)
  have hplace := firstPlace_eq h.wellFormed hx hparent
  obtain ⟨pre, post, hsplit⟩ := List.append_of_mem ((h.wellFormed.linked _ _).2 hparent)
  refine ⟨_, pre, post, hplace, (firstPlace_below h hplace).2, ?_, nofun⟩
  rw [hsplit, List.append_assoc, List.singleton_append]

/-- **A template whose place is intact stands somewhere.** -/
theorem Intact.stands (hi : p.Intact name) (h : p.Linked) :
    ∃ parent pre old post, p.Stands name parent pre old post := by
  have key : ∃ place pre post, p.placeOf name = .ok place ∧ place.Between p.tree pre post := by
    rw [Intact] at hi
    rw [placeOf]
    cases hl : p.places.lookup name with
    | none =>
      rw [hl] at hi
      obtain ⟨x, hx⟩ := hi
      exact exists_between_firstPlace h hx
    | some place =>
      rw [hl] at hi
      obtain ⟨pre, post, hb⟩ := Place.exists_between hi.1 hi.2
      exact ⟨place, pre, post, rfl, hb⟩
  obtain ⟨place, pre, post, hplace, hb⟩ := key
  exact ⟨place.parent, pre, place.nodes, post, place.next, hplace, hb⟩

/-- **The place of a template that stands somewhere is intact.** -/
theorem Stands.intact (hs : p.Stands name parent pre old post) (h : p.Linked) : p.Intact name := by
  obtain ⟨next, hplace, hb⟩ := hs
  rw [Intact]
  cases hl : p.places.lookup name with
  | none =>
    have hp : p.Placeable name none := by
      by_contra hp
      rw [h.no_place hp] at hplace
      cases hplace
    exact hp.resolve_left fun ⟨place, hlookup⟩ => by cases hl.symm.trans hlookup
  | some place =>
    rw [placeOf, hl] at hplace
    obtain rfl := Except.ok.inj hplace
    refine ⟨hb.live, ?_⟩
    by_cases hnil : old = []
    · refine .inr ⟨hnil, fun x hx => ?_⟩
      rw [hb.next hnil] at hx
      exact Tree.mem_children_of_beside hb.split (.inr (List.mem_of_head? hx))
    · exact .inl ⟨hnil, pre, post, hb.split.symm⟩

/-- Compaction leaves a template where it stands. -/
theorem Stands.compacted (hs : p.Stands name parent pre old post) (h : p.Linked) (hq : q.Linked)
    (ht : TidiesTo p q a new) : q.Stands name (placeIn a parent) (pre.map (placeIn a))
      (old.map (placeIn a)) (post.map (placeIn a)) := by
  obtain ⟨next, hplace, hb⟩ := hs
  have hsteady : p.Steady name none := .inr fun place hl => by
    rw [placeOf, hl] at hplace
    exact Except.ok.inj hplace ▸ hb.steady h.rooted
  obtain ⟨hren, hbetween⟩ := hb.compacted ht.tree
  rcases ht.placeOf h hq hsteady with ⟨e, he, -⟩ | ⟨place, place', hp, hp', -, hren'⟩
  · cases hplace.symm.trans he
  · obtain rfl := Except.ok.inj (hplace.symm.trans hp)
    obtain rfl := Option.some.inj (hren.symm.trans hren')
    exact ⟨_, hp', hbetween⟩

/-! ## Outputs that are put in -/

/-- **A page is left as it is, or it is compacted.**  The function gives the new numbers. -/
def CompactedBy (p q : LivePage) (f : NodeId → NodeId) : Prop :=
  p = q ∧ f = id ∨
    ∃ new, p.compact = .ok (q, new) ∧ ∀ x, p.tree.Within root x → new.get? x = some (f x)

/-- **An output replaces the last one.**  Copies of what is below the root of its tree are put in
where the template stands, and the page is compacted or not.  What was there is renewed, and
nothing else is; and the template stands there again. -/
structure Replaced (p : LivePage) (name : String) (content : Tree) (parent : NodeId)
    (pre old post : List NodeId) (f : NodeId → NodeId) (q : LivePage) (nodes : List NodeId) :
    Prop where
  filled : p.fillTidily name none content = .ok (q, nodes)
  copied : ∃ u, p.fill name none content =
      .ok (u, (numberAllFrom p.tree.size content.below).map Numbered.top) ∧
    CompactedBy u q f ∧ nodes = ((numberAllFrom p.tree.size content.below).map Numbered.top).map f
  renewed : Renewed f p.tree q.tree parent pre old post nodes content.below
  stands : q.Stands name (f parent) (pre.map f) nodes (post.map f)

section
variable (h : p.Linked) (hs : p.Stands name parent pre old post)
include h hs

/-- **Filling a template** renews what stands in its place. -/
theorem Stands.fill (hc : content.WellFormed) (hr : content.Has root) : ∃ u,
    p.fill name none content =
      .ok (u, (numberAllFrom p.tree.size content.below).map Numbered.top) ∧ u.Linked ∧
    Renewed id p.tree u.tree parent pre old post
      ((numberAllFrom p.tree.size content.below).map Numbered.top) content.below ∧
    u.Stands name parent pre ((numberAllFrom p.tree.size content.below).map Numbered.top) post := by
  obtain ⟨next, hplace, hb⟩ := hs
  obtain ⟨r, htop, ha⟩ := hc.exists_holds hr
  obtain ⟨u, filled, hv, href, hfill⟩ := fillPlace_of_place h hplace hc ha htop
  rw [← Numbered.documents_eq_map, ← Tree.below_eq hc ha htop] at href
  have hlinked := refilled_linked h hv href name
  have hrenewed := href.renewed hb h.rooted hv
  have hbetween := href.between hb h.rooted hlinked.rooted hv
    (hrenewed.within _ (Tree.stays_spot h.rooted hb.live hb.split))
  have hfilled : filled = ⟨parent, (numberAllFrom p.tree.size content.below).map Numbered.top,
      filled.next⟩ := by
    rw [← href.nodes_eq, ← show filled.parent = parent from href.parent_eq]
  refine ⟨_, ?_, hlinked, hrenewed, filled.next, ?_, hfilled ▸ hbetween⟩
  · rw [LivePage.fill, hfill, href.nodes_eq]
  · rw [placeOf, Keyed.lookup_set_self]
    exact congrArg _ hfilled

/-- **Compaction** renews the nodes of a template by themselves. -/
theorem Stands.compact (hcompact : p.compact = .ok (q, new))
    (hread : old.mapM p.tree.read = .ok ds) :
    ∃ f, (∀ x, p.tree.Within root x → new.get? x = some (f x)) ∧ q.Linked ∧
      old.filterMap new.get? = old.map f ∧
      Renewed f p.tree q.tree parent pre old post (old.map f) ds ∧
      q.Stands name (f parent) (pre.map f) (old.map f) (post.map f) := by
  obtain ⟨s, a, new', hs', hlinked, ht⟩ := h.tidiesTo
  obtain ⟨rfl, rfl⟩ := Prod.mk.inj (Except.ok.inj (hcompact.symm.trans hs'))
  have hstands := hs.compacted h hlinked ht
  obtain ⟨next, -, hb⟩ := hs
  exact ⟨placeIn a, fun x hx => ht.tree.get?_live hx, hlinked,
    ht.tree.compacted.filterMap_eq fun x hx => ht.tree.mem_ids.2 (hb.within h.rooted hx),
    ht.tree.renewed hb.live hb.split hread, hstands⟩

/-- **An output replaces the last one,** and nothing else. -/
theorem Stands.replaced (hc : content.WellFormed) (hr : content.Has root) :
    ∃ f q nodes, p.Replaced name content parent pre old post f q nodes ∧ q.Linked := by
  obtain ⟨u, hu, hlinked, hrenewed, hstands⟩ := hs.fill h hc hr
  rcases fillTidily_eq hlinked hu with heq | ⟨q, new, hcompact, heq⟩
  · refine ⟨id, u, _, ⟨heq, ⟨u, hu, .inl ⟨rfl, rfl⟩, (List.map_id _).symm⟩, hrenewed, ?_⟩, hlinked⟩
    rw [List.map_id, List.map_id]
    exact hstands
  · obtain ⟨f, hget, hq, hnodes, hrenewed', hstands'⟩ :=
      hstands.compact hlinked hcompact hrenewed.read
    have htrans := hrenewed.trans h.rooted (g := f) (v := q.tree) (by
      rw [id_eq, List.map_id, List.map_id]; exact hrenewed')
    exact ⟨f, q, _, ⟨heq, ⟨u, hu, .inr ⟨new, hcompact, hget⟩, hnodes⟩, hnodes ▸ htrans,
      hnodes ▸ hstands'⟩, hq⟩

end

/-! ## Outputs that are put in one after the other -/

/-- The page with outputs put in the place of a template, one after the other. -/
def fillAll (p : LivePage) (name : String) : List Tree → Except Failure LivePage
  | [] => return p
  | content :: contents => do
    let (q, _) ← p.fillTidily name none content
    q.fillAll name contents

/-- Outputs are put in one after the other. -/
theorem fillAll_cons {contents : List Tree}
    (h : p.fillTidily name none content = .ok (q, nodes)) :
    p.fillAll name (content :: contents) = q.fillAll name contents := by
  rw [fillAll, h]
  rfl

/-- **However many outputs are put in,** the last one replaces what stood there at first. -/
theorem Stands.fillAll (contents : List Tree) (h : p.Linked)
    (hs : p.Stands name parent pre old post)
    (hcs : ∀ c ∈ contents ++ [content], c.WellFormed ∧ c.Has root) :
    ∃ f q nodes, p.fillAll name (contents ++ [content]) = .ok q ∧ q.Linked ∧
      Renewed f p.tree q.tree parent pre old post nodes content.below ∧
      q.Stands name (f parent) (pre.map f) nodes (post.map f) := by
  induction contents generalizing p parent pre old post with
  | nil =>
    obtain ⟨hc, hr⟩ := hcs content (List.mem_cons_self ..)
    obtain ⟨f, q, nodes, hrep, hq⟩ := hs.replaced h hc hr
    exact ⟨f, q, nodes, fillAll_cons hrep.filled, hq, hrep.renewed, hrep.stands⟩
  | cons c contents ih =>
    obtain ⟨hc, hr⟩ := hcs c (List.mem_cons_self ..)
    obtain ⟨f, q, nodes, hrep, hq⟩ := hs.replaced h hc hr
    obtain ⟨g, s, last, hfill, hlinked, hrenewed, hstands⟩ :=
      ih hq hrep.stands fun d hd => hcs d (List.mem_cons_of_mem _ hd)
    rw [List.map_map, List.map_map] at hstands
    exact ⟨g ∘ f, s, last, (fillAll_cons hrep.filled).trans hfill, hlinked,
      hrep.renewed.trans h.rooted hrenewed, hstands⟩

/-- **Only the last output is left to be read.** -/
theorem Stands.fillAll_html (contents contents' : List Tree) (h : p.Linked)
    (hs : p.Stands name parent pre old post)
    (hcs : ∀ c ∈ contents ++ [content], c.WellFormed ∧ c.Has root)
    (hcs' : ∀ c ∈ contents' ++ [content], c.WellFormed ∧ c.Has root) :
    ∃ q s text, p.fillAll name (contents ++ [content]) = .ok q ∧
      p.fillAll name (contents' ++ [content]) = .ok s ∧
      q.tree.html = .ok text ∧ s.tree.html = .ok text := by
  obtain ⟨f, q, nodes, hq, hlinked, hrenewed, -⟩ := hs.fillAll contents h hcs
  obtain ⟨g, s, nodes', hs', hlinked', hrenewed', -⟩ := hs.fillAll contents' h hcs'
  obtain ⟨text, htext, htext'⟩ :=
    hrenewed.html_eq hrenewed' h.rooted hlinked.rooted hlinked'.rooted
  exact ⟨q, s, text, hq, hs', htext, htext'⟩

end LivePage

namespace Runner

variable {σ γ : Type} [Source σ] [Cache γ]

/-- **An output without target replaces the last one of its template.**  Whatever has been asked of
a runner of a well-formed page, if the place of a template is intact, the template stands between
some children of a node.  Any output that is put in replaces what stands there, by copies of what
the output has below its root, and nothing else; the template stands between the same children
again, and its place is intact.  So if outputs are put in one after the other, the page has the text
that it has with the last one alone. -/
theorem last_output_replaces (page : Tree) (m : Markers) (r : Runner σ γ) (name : String)
    (hw : page.WellFormed) (hc : page.contentOf root = some .fragment)
    (hp : page.parentOf root = none) (hr : Reachable page m r) (hi : r.page.Intact name) :
    ∃ parent pre old post, r.page.Stands name parent pre old post ∧
      (∀ content : Tree, content.WellFormed → content.Has root → ∃ f q nodes,
        r.page.Replaced name content parent pre old post f q nodes ∧ q.Intact name) ∧
      ∀ (earlier : List Tree) (last : Tree),
        (∀ c ∈ earlier ++ [last], c.WellFormed ∧ c.Has root) → ∃ q s text,
          r.page.fillAll name (earlier ++ [last]) = .ok q ∧ r.page.fillAll name [last] = .ok s ∧
          q.tree.html = .ok text ∧ s.tree.html = .ok text := by
  have hlinked := (reachable_tended (LivePage.linked_ofPage hw hc hp) hr).page
  obtain ⟨parent, pre, old, post, hs⟩ := hi.stands hlinked
  refine ⟨parent, pre, old, post, hs, fun content hwc hrc => ?_, fun earlier last hcs => ?_⟩
  · obtain ⟨f, q, nodes, hrep, hq⟩ := hs.replaced hlinked hwc hrc
    exact ⟨f, q, nodes, hrep, hrep.stands.intact hq⟩
  · exact hs.fillAll_html earlier [] hlinked hcs fun c hm => hcs c (List.mem_append_right _ hm)

/-- A template that has been filled with nothing: its place remembers what comes after it. -/
theorem last_output_replaces_of_empty :
    let page := Tree.ofDocuments
      [.node (.element ⟨"template", [("id", "t")]⟩) [.node (.element ⟨"i", [("jx-if", ".")]⟩) []],
        .node (.element ⟨"p", []⟩) []]
    ∃ r : Runner Fetch.Canned Cache.Memory,
      page.WellFormed ∧ page.contentOf root = some .fragment ∧ page.parentOf root = none ∧
      Reachable page .standard r ∧ r.page.places.lookup "t" = some ⟨root, [], some ⟨3⟩⟩ ∧
      r.page.Intact "t" ∧
      ∃ parent pre old post, r.page.Stands "t" parent pre old post ∧
        (∀ content : Tree, content.WellFormed → content.Has root → ∃ f q nodes,
          r.page.Replaced "t" content parent pre old post f q nodes ∧ q.Intact "t") ∧
        ∀ (earlier : List Tree) (last : Tree),
          (∀ c ∈ earlier ++ [last], c.WellFormed ∧ c.Has root) → ∃ q s text,
            r.page.fillAll "t" (earlier ++ [last]) = .ok q ∧ r.page.fillAll "t" [last] = .ok s ∧
            q.tree.html = .ok text ∧ s.tree.html = .ok text := by
  intro page
  have hw : page.WellFormed := Tree.ofDocuments_wellFormed _
  have hc : page.contentOf root = some .fragment := Tree.contentOf_ofDocuments _
  have hp : page.parentOf root = none := Tree.parentOf_ofDocuments _
  obtain ⟨r, hr, hlookup, hchildren⟩ : ∃ r,
      ofPage page .standard Fetch.Canned.empty Cache.Memory.empty = .ok r ∧
        let p := (r.step (.renderData "t" .null)).1.page
        p.places.lookup "t" = some ⟨root, [], some ⟨3⟩⟩ ∧ p.tree.childrenOf root = [⟨3⟩] :=
    exists_of_map_decide (by decide +kernel)
  have hreach : Reachable page .standard (r.step (.renderData "t" .null)).1 :=
    (Reachable.start _ _ hr).step _ trivial
  have hintact : (r.step (.renderData "t" .null)).1.page.Intact "t" := by
    rw [LivePage.Intact, hlookup]
    refine ⟨.self .., .inr ⟨rfl, fun x hx => ?_⟩⟩
    rw [hchildren, ← Option.some.inj hx]
    exact List.mem_cons_self ..
  exact ⟨_, hw, hc, hp, hreach, hlookup, hintact,
    last_output_replaces page .standard _ "t" hw hc hp hreach hintact⟩

end Runner
end Page
end PageBinding
