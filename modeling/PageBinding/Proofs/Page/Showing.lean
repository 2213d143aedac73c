/-
# Outputs that are shown

An output is put below a node: the element of its target, or the parent of the place of
its template.  Its nodes show what the template is rendered to if the root leads to that
node.  It always leads to the element of a target and to a template that has not been
filled yet, so only a place that was remembered may have gone astray with what a target
replaced (`LivePage.InPage`); then the output is reported, and shown nowhere
(`rendered_shown_iff`, `rendered_is_not_shown`).

Old nodes of a place stand below its parent or nowhere (`LivePage.Owned`), as no operation
puts an old node elsewhere; so what an output replaces is never above its place.
-/

import PageBinding.Proofs.Page.Arrangement
import PageBinding.Proofs.Page.Orders
import PageBinding.Proofs.Tree.Showing

namespace PageBinding

open Html (Node Document)
open Numbered (documents idsAll numberAllFrom)

namespace Page

open Fetch (Source)
open Template (Markers Collection)
open PageBinding.Tree (root Laid Compacted OnlyBelow Inserted Relinked)

variable {σ γ : Type}

/-- Refilling a place swaps its nodes. -/
theorem Refilled.swapped {t u : Tree} {place filled : Place} {ds : List Document}
    (h : Refilled t u place filled (numberAllFrom t.size ds)) :
    Tree.Swapped t u place.parent place.nodes (place.before t) ds :=
  ⟨h.wellFormed, h.size_le, h.content, h.parent, h.children, h.holds⟩

namespace LivePage

/-- The nodes of a place have no parent but that of the place. -/
def Owned (p : LivePage) : Prop := ∀ e ∈ p.places, p.tree.OnlyBelow e.2.parent e.2.nodes

/-- The root leads to where an output goes: it is meant for an element, or the place of its
template, if that is remembered, has its parent in the page. -/
def InPage (p : LivePage) (template : String) (target : Option String) : Prop :=
  target.isSome = true ∨
    ∀ place, p.places.lookup template = some place → p.tree.Within root place.parent

variable {p q : LivePage} {r : Numbered} {template : String} {content : Tree}
  {target : Option String} {nodes : List NodeId}

/-! ## Places -/

/-- The root leads to a template that has not been filled. -/
theorem firstPlace_below (h : p.Linked) {place : Place} (hp : p.firstPlace template = .ok place) :
    p.tree.OnlyBelow place.parent place.nodes ∧ p.tree.Within root place.parent := by
  obtain ⟨a, htop, ha⟩ := h.exists_root
  have ht := templateElement?_ok h.wellFormed ha htop template
  revert ht
  cases hx : ((idsAll a.inside).find? fun x => (p.tree.contentOf x).any (Node.hasId template)).filter
    fun x => (p.tree.contentOf x).any Node.isTemplate with
  | none =>
    intro ht
    rw [firstPlace, ht] at hp
    cases hp
  | some x =>
    intro ht
    have hmem : x ∈ a.ids := by
      rw [Numbered.ids_eq]
      exact List.mem_cons_of_mem _
        (List.mem_of_find?_eq_some (Option.filter_eq_some_iff.1 hx).1)
    cases hparent : p.tree.parentOf x with
    | none =>
      rw [firstPlace, ht, lift_ok, ok_bind] at hp
      dsimp only at hp
      rw [Tree.parent_ok (ha.has hmem), hparent] at hp
      cases hp
    | some parent =>
      rw [firstPlace_eq h.wellFormed ht hparent] at hp
      obtain rfl := Except.ok.inj hp
      refine ⟨fun y hy q hq => ?_, ?_⟩
      · rw [List.mem_singleton.1 hy, hparent] at hq
        exact (Option.some.inj hq).symm
      · rcases htop ▸ (ha.mem_ids h.wellFormed).1 hmem with rfl | habove
        · rw [h.root_parent] at hparent
          cases hparent
        · exact habove.within_parent hparent

/-- Where the output of a template goes. -/
theorem placeOf_below (h : p.Linked) (ho : p.Owned) {place : Place}
    (hp : p.placeOf template = .ok place) :
    p.tree.OnlyBelow place.parent place.nodes ∧
      (p.tree.Within root place.parent ↔ p.InPage template none) := by
  rw [placeOf] at hp
  cases hl : p.places.lookup template with
  | none =>
    rw [hl] at hp
    obtain ⟨hbelow, hwithin⟩ := firstPlace_below h hp
    refine ⟨hbelow, iff_of_true hwithin (.inr fun place hplace => ?_)⟩
    rw [hl] at hplace
    cases hplace
  | some found =>
    rw [hl] at hp
    obtain rfl := Except.ok.inj hp
    refine ⟨ho _ (mem_of_lookup hl), fun hw => .inr fun place hplace => ?_, fun hi => ?_⟩
    · rw [← Option.some.inj (hl.symm.trans hplace)]
      exact hw
    · rcases hi with hi | hi
      · cases hi
      · exact hi _ hl

/-! ## Filling -/

/-- Filling puts new nodes below a node. -/
structure Fills (p q : LivePage) (template : String) (target : Option String) (spot : NodeId)
    (old : List NodeId) (news : List Numbered) : Prop where
  laid : Laid p.tree q.tree spot old news
  has : p.tree.Has spot
  within : p.tree.Within root spot ↔ p.InPage template target
  places : ∀ e ∈ q.places, e ∈ p.places ∨ e.2.parent = spot ∧ e.2.nodes = news.map Numbered.top

/-- What is detached leaves its places owned. -/
theorem Fills.owned {spot : NodeId} {old : List NodeId} {news : List Numbered}
    (hf : Fills p q template target spot old news) (h : p.Linked) (ho : p.Owned) : q.Owned := by
  intro e he x hx y hy
  rcases hf.places e he with he | ⟨hparent, hnodes⟩
  · rw [hf.laid.parent x ((h.places e he).nodes x hx), Tree.parentsWithout] at hy
    split_ifs at hy
    exact ho e he x hx y hy
  · rw [hf.laid.parentOf_top (hnodes ▸ hx)] at hy
    exact (Option.some.inj hy).symm.trans hparent.symm

/-- Filling an element puts new nodes below it that show the output. -/
theorem fillElement_fills (h : p.Linked) {selector : String} (hc : content.WellFormed)
    (hr : content.Holds r) (htop : r.top = root)
    (hf : p.fillElement selector content = .ok (q, nodes)) :
    ∃ spot old news, nodes = news.map Numbered.top ∧ documents news = content.below ∧
      Fills p q template (some selector) spot old news := by
  obtain ⟨a, hatop, ha⟩ := h.exists_root
  have hfind := Tree.findById?_ok h.wellFormed ha hatop (selectedId selector)
  rw [fillElement, selected?, hfind, lift_ok, ok_bind] at hf
  cases hx : (idsAll a.inside).find?
    fun x => (p.tree.contentOf x).any (Node.hasId (selectedId selector)) with
  | none => rw [hx] at hf; cases hf
  | some x =>
    rw [hx] at hf
    have hmem : x ∈ a.ids := by
      rw [Numbered.ids_eq]
      exact List.mem_cons_of_mem _ (List.mem_of_find?_eq_some hx)
    obtain ⟨v, u, hd, hu, hi⟩ := h.wellFormed.replaceChildren_inserted hc hr htop (ha.has hmem)
    dsimp only at hf
    rw [hu, lift_ok, ok_bind] at hf
    obtain ⟨rfl, rfl⟩ := Prod.mk.inj (Except.ok.inj hf)
    refine ⟨x, p.tree.childrenOf x, _, rfl, ?_,
      ⟨(hi.swapped h.wellFormed hd).laid (fun y hy z hz => ?_) (fun y hy => h.wellFormed.has_child hy)
        (ha.has hmem), ha.has hmem, ?_, fun e he => .inl he⟩⟩
    · rw [Numbered.documents_numberAllFrom, Tree.below_eq hc hr htop, Numbered.documents_eq_map]
    · rw [(h.wellFormed.linked x y).1 hy] at hz
      exact (Option.some.inj hz).symm
    · exact iff_of_true (hatop ▸ (ha.mem_ids h.wellFormed).1 hmem) (.inl rfl)

/-- Filling a place puts new nodes below its parent that show the output. -/
theorem fillPlace_fills (h : p.Linked) (ho : p.Owned) (hc : content.WellFormed)
    (hr : content.Holds r) (htop : r.top = root)
    (hf : p.fillPlace template content = .ok (q, nodes)) :
    ∃ spot old news, nodes = news.map Numbered.top ∧ documents news = content.below ∧
      Fills p q template none spot old news := by
  rw [fillPlace] at hf
  cases hplace : p.placeOf template with
  | error e => rw [hplace] at hf; cases hf
  | ok place =>
    have hv : place.Valid p.tree := by
      have hsafe := placeOf_safe h template
      rw [hplace] at hsafe
      exact hsafe
    obtain ⟨hbelow, hwithin⟩ := placeOf_below h ho hplace
    obtain ⟨u, filled, hu, href⟩ := Place.refill_refilled h.wellFormed hv hc hr htop
    rw [hplace, ok_bind, hu, lift_ok, ok_bind] at hf
    obtain ⟨rfl, rfl⟩ := Prod.mk.inj (Except.ok.inj hf)
    refine ⟨place.parent, place.nodes, _, href.nodes_eq, ?_,
      ⟨href.swapped.laid hbelow hv.nodes hv.parent, hv.parent, hwithin, fun e he => ?_⟩⟩
    · rw [Numbered.documents_numberAllFrom, Tree.below_eq hc hr htop, Numbered.documents_eq_map]
    · rcases mem_set he with rfl | he
      · exact .inr ⟨href.parent_eq, href.nodes_eq⟩
      · exact .inl he

/-- Filling puts new nodes below a node that show the output. -/
theorem fill_fills (h : p.Linked) (ho : p.Owned) (hc : content.WellFormed) (hr : content.Holds r)
    (htop : r.top = root) (hf : p.fill template target content = .ok (q, nodes)) :
    ∃ spot old news, nodes = news.map Numbered.top ∧ documents news = content.below ∧
      Fills p q template target spot old news := by
  cases target with
  | none => exact fillPlace_fills h ho hc hr htop hf
  | some selector => exact fillElement_fills h hc hr htop hf

/-! ## Compaction -/

/-- Compaction keeps places owned. -/
theorem owned_compact {new : Renumbering} (h : p.Linked) (ho : p.Owned)
    (hc : p.compact = .ok (q, new)) : q.Owned := by
  obtain ⟨a, htop, ha⟩ := h.exists_root
  obtain ⟨u, new', hcomp, heq⟩ := compact_eq h.wellFormed ha htop
  rw [heq] at hc
  obtain ⟨rfl, rfl⟩ := Prod.mk.inj (Except.ok.inj hc)
  intro e he x hx y hy
  obtain ⟨⟨t, place⟩, hmem, hmap⟩ := List.mem_filterMap.1 he
  obtain ⟨renumbered, hren, rfl⟩ := Option.map_eq_some_iff.1 hmap
  obtain ⟨parent, hparent, rfl⟩ := Option.map_eq_some_iff.1 hren
  obtain ⟨z, hz, hzx⟩ := List.mem_filterMap.1 hx
  rw [hcomp.get?] at hzx
  split_ifs at hzx with hza
  obtain rfl := Option.some.inj hzx
  change u.parentOf _ = some y at hy
  rw [hcomp.parent z hza] at hy
  obtain ⟨w, hw, hwy⟩ := Option.bind_eq_some_iff.1 hy
  rw [ho _ hmem z hz w hw, hparent] at hwy
  exact (Option.some.inj hwy).symm

/-- **Nodes of an output show it** just if the root leads to where it goes, or if it is
empty, and so also once the page is tidied up. -/
theorem fillTidily_shows (h : p.Linked) (ho : p.Owned) (hc : content.WellFormed)
    (hr : content.Holds r) (htop : r.top = root)
    (hf : p.fillTidily template target content = .ok (q, nodes)) :
    q.Linked ∧ q.Owned ∧
      (q.tree.Shows nodes content.below ↔ content.below = [] ∨ p.InPage template target) := by
  rw [fillTidily] at hf
  cases hfill : p.fill template target content with
  | error e => rw [hfill] at hf; cases hf
  | ok filled =>
    obtain ⟨s, ids⟩ := filled
    have hs : s.Linked := by
      have hsafe := fill_safe h template target hc hr htop
      rw [hfill] at hsafe
      exact hsafe.1
    obtain ⟨spot, old, news, rfl, hbelow, hfills⟩ := fill_fills h ho hc hr htop hfill
    have hshows := hfills.laid.shows_iff h.wellFormed
      (Tree.has_iff_contentOf.2 ⟨_, h.root_content⟩) hfills.has
    rw [hbelow, hfills.within] at hshows
    have hos := hfills.owned h ho
    obtain ⟨live, -, hcrowded⟩ := isCrowded_eq hs
    rw [hfill, ok_bind] at hf
    dsimp only at hf
    rw [hcrowded, lift_ok, ok_bind] at hf
    split_ifs at hf
    · obtain ⟨v, new, hv, hsound, -⟩ := compact_sound hs
      rw [hv, lift_ok, ok_bind] at hf
      obtain ⟨rfl, rfl⟩ := Prod.mk.inj (Except.ok.inj hf)
      refine ⟨hsound.toLinked, owned_compact hs hos hv, ?_⟩
      obtain ⟨a, hatop, ha⟩ := hs.exists_root
      obtain ⟨u, new', hcomp, heq⟩ := compact_eq hs.wellFormed ha hatop
      rw [hv] at heq
      obtain ⟨rfl, rfl⟩ := Prod.mk.inj (Except.ok.inj heq)
      have hkept := hcomp.shows_iff hs.wellFormed ha hatop hs.root_parent hfills.laid.holds
        ⟨spot, hfills.laid.siblings⟩
      rw [hbelow] at hkept
      exact hkept.trans hshows
    · obtain ⟨rfl, rfl⟩ := Prod.mk.inj (Except.ok.inj hf)
      exact ⟨hs, hos, hshows⟩

end LivePage

namespace Runner

/-- The links of the page are in order, its places are owned, and the templates have a
root. -/
structure Tended (r : Runner σ γ) : Prop where
  page : r.page.Linked
  owned : r.page.Owned
  templates : ∀ e ∈ r.templates.templates, e.2.WellFormed ∧ e.2.Has root

variable {r : Runner σ γ} {d : Delivery}

/-- An output that is delivered has a root, and is well-formed. -/
theorem Delivers.rooted (hd : Delivers r.templates d) (h : r.Tended) :
    d.content.WellFormed ∧ ∃ a, d.content.Holds a ∧ a.top = root := by
  rcases hd.2 with ⟨template, context, notices, hget, hrender⟩ | ⟨message, hm⟩
  · obtain ⟨hw, hroot⟩ := h.templates _ (LivePage.mem_of_lookup hget)
    obtain ⟨out, _, a, hout, hwo, ha, htop⟩ :=
      Template.render_rooted hw hroot context r.templates.markers
    rw [hrender] at hout
    obtain ⟨rfl, -⟩ := Prod.mk.inj (Except.ok.inj hout)
    exact ⟨hwo, a, ha, htop⟩
  · obtain ⟨hw, hroot⟩ := errorContent_rooted message
    obtain ⟨a, htop, ha⟩ := hw.exists_holds hroot
    exact ⟨hm ▸ hw, a, hm ▸ ha, htop⟩

/-- Setting up a binding changes neither links nor places. -/
theorem setUp_tended (h : r.Tended) (selector : String) (s : Setup) :
    (r.setUp selector s).1.page.Linked ∧ (r.setUp selector s).1.page.Owned := by
  obtain ⟨found, hfound, hhas⟩ := selected?_ok h.page selector
  rw [setUp, hfound]
  cases found with
  | none => exact ⟨h.page, h.owned⟩
  | some x =>
    obtain ⟨n, hn⟩ := Tree.has_iff_contentOf.1 (hhas x rfl)
    dsimp only
    rw [pageWith]
    cases hdata : s.data with
    | some data =>
      refine ⟨⟨h.page.wellFormed, h.page.root_content, h.page.root_parent, h.page.places,
        fun e he => ?_⟩, h.owned⟩
      rcases LivePage.mem_set he with rfl | he
      · exact hhas x rfl
      · exact h.page.ownData e he
    | none =>
      cases hurl : s.url with
      | none => exact ⟨h.page, h.owned⟩
      | some url =>
        dsimp only
        rw [Setup.apply, hdata, hurl, Tree.element?_ok hn]
        cases he : n.element? with
        | none => exact ⟨h.page, h.owned⟩
        | some e =>
          obtain ⟨u, hu, -, -, hpar, -⟩ :=
            Tree.setContent_ok (hhas x rfl) (.element (s.writeOn r.markers url e))
          have hlinked := linked_of_setContent h.page hn he _ hu
          simp only [Option.isSome_none, Bool.false_eq_true, if_false, ok_bind, hu]
          refine ⟨hlinked, fun e he y hy z hz => h.owned e he y hy z ?_⟩
          exact (hpar y).symm.trans hz

variable [Source σ] [Cache γ]

omit [Source σ] [Cache γ] in
/-- The page that an operation delivers to is linked, and its places are owned. -/
theorem prepared_tended (h : r.Tended) (op : Operation σ γ) :
    (r.prepared op).Linked ∧ (r.prepared op).Owned := by
  cases op with
  | setUp selector s => exact setUp_tended h selector s
  | start selector s => exact setUp_tended h selector s
  | _ => exact ⟨h.page, h.owned⟩

/-- **Every operation keeps a runner tended.** -/
theorem step_tended (h : r.Tended) (op : Operation σ γ) : (r.step op).1.Tended := by
  obtain ⟨hpage, htemplates⟩ := step_page r op
  obtain ⟨hlinked, howned⟩ := prepared_tended h op
  have key : (r.step op).1.page.Linked ∧ (r.step op).1.page.Owned := by
    rw [hpage]
    cases hd : r.delivery op with
    | none => exact ⟨hlinked, howned⟩
    | some d =>
      obtain ⟨hc, a, ha, htop⟩ := (delivery_delivers hd).rooted h
      rw [LivePage.after]
      cases hf : (r.prepared op).fillTidily d.template d.target d.content with
      | error e => exact ⟨hlinked, howned⟩
      | ok filled =>
        obtain ⟨hl, ho, -⟩ := LivePage.fillTidily_shows hlinked howned hc ha htop hf
        exact ⟨hl, ho⟩
  exact ⟨key.1, key.2, htemplates ▸ h.templates⟩

omit [Source σ] [Cache γ] in
/-- The runner of a page is tended. -/
theorem ofPage_tended {page : Tree} {m : Markers} {source : σ} {cache : γ}
    (h : (LivePage.ofPage page).Linked) (hr : ofPage page m source cache = .ok r) : r.Tended := by
  obtain ⟨c, hc, htemplates⟩ := ofPage_templates h m
  rw [ofPage, hc] at hr
  obtain rfl := Except.ok.inj hr
  exact ⟨h, List.forall_mem_nil _, htemplates⟩

/-- Every runner that a page leads to is tended. -/
theorem reachable_tended {page : Tree} {m : Markers} (h : (LivePage.ofPage page).Linked)
    (hr : Reachable page m r) : r.Tended := by
  induction hr with
  | start source cache hr => exact ofPage_tended h hr
  | step op _ _ ih => exact step_tended ih op

/-- **A reported output is shown, unless its place has gone astray.**  Whatever has been
asked of a runner of a well-formed page, the nodes of an output that is reported show what
the template is rendered to with the data that was ordered — they stand side by side in the
page and read as that — just if the output is empty or the root leads to where it goes. -/
theorem rendered_shown_iff (page : Tree) (m : Markers) (r : Runner σ γ) (op : Operation σ γ)
    (template : String) (nodes : List NodeId) (hw : page.WellFormed)
    (hc : page.contentOf root = some .fragment) (hp : page.parentOf root = none)
    (hr : Reachable page m r) (h : (r.step op).2 = .ok (some (.rendered template nodes))) :
    ∃ o content notices, r.Orders op o ∧ o.template = template ∧
      r.templates.render? template o.data = .ok (some (content, notices)) ∧
      ((r.step op).1.page.tree.Shows nodes content.below ↔
        content.below = [] ∨ (r.prepared op).InPage template o.target) := by
  have htended := reachable_tended (LivePage.linked_ofPage hw hc hp) hr
  obtain ⟨o, ho, rfl, content, notices, hrender, hfill⟩ := ordered_of_rendered h
  obtain ⟨hlinked, howned⟩ := prepared_tended htended op
  have hdelivers : Delivers r.templates ⟨o.template, o.target, content⟩ := by
    rw [Collection.render?] at hrender
    cases hget : r.templates.get? o.template with
    | none => rw [hget] at hrender; cases hrender
    | some tree =>
      rw [hget] at hrender
      dsimp only at hrender
      cases hout : Template.render tree o.data r.templates.markers with
      | error f => rw [hout] at hrender; cases hrender
      | ok output =>
        rw [hout] at hrender
        obtain rfl := Option.some.inj (Except.ok.inj hrender)
        exact ⟨by rw [Collection.contains, hget]; rfl, .inl ⟨tree, o.data, notices, hget, hout⟩⟩
  obtain ⟨hwc, a, ha, htop⟩ := hdelivers.rooted htended
  exact ⟨o, content, notices, ho, rfl, hrender,
    (LivePage.fillTidily_shows hlinked howned hwc ha htop hfill).2.2⟩

/-- A template that is filled for the first time. -/
theorem rendered_shown_iff_of_template :
    let page := Tree.ofDocuments
      [.node (.element ⟨"template", [("id", "t")]⟩) [.node (.element ⟨"i", []⟩) []]]
    let op : Operation Fetch.Canned Cache.Memory := .renderData "t" .null
    ∃ r : Runner Fetch.Canned Cache.Memory,
      page.WellFormed ∧ page.contentOf root = some .fragment ∧ page.parentOf root = none ∧
      Reachable page .standard r ∧ (r.step op).2 = .ok (some (.rendered "t" [⟨3⟩])) ∧
      ∃ o content notices, r.Orders op o ∧ o.template = "t" ∧
        r.templates.render? "t" o.data = .ok (some (content, notices)) ∧
        ((r.step op).1.page.tree.Shows [⟨3⟩] content.below ↔
          content.below = [] ∨ (r.prepared op).InPage "t" o.target) := by
  intro page op
  have hw : page.WellFormed := Tree.ofDocuments_wellFormed _
  have hc : page.contentOf root = some .fragment := Tree.contentOf_ofDocuments _
  have hp : page.parentOf root = none := Tree.parentOf_ofDocuments _
  obtain ⟨r, hr, hstep⟩ : ∃ r, ofPage page .standard Fetch.Canned.empty Cache.Memory.empty = .ok r ∧
      (r.step op).2 = .ok (some (.rendered "t" [⟨3⟩])) := exists_of_map_decide (by decide +kernel)
  have hstart : Reachable page .standard r := .start _ _ hr
  exact ⟨r, hw, hc, hp, hstart, hstep,
    rendered_shown_iff page .standard r op "t" [⟨3⟩] hw hc hp hstart hstep⟩

/-- **An output whose place has gone astray is shown nowhere.**  A template is filled in an
element; the output of a binding replaces that element; and then the template is filled
again. -/
theorem rendered_is_not_shown :
    ¬ ∀ (page : Tree) (m : Markers) (r : Runner Fetch.Canned Cache.Memory)
      (op : Operation Fetch.Canned Cache.Memory) (template : String) (nodes : List NodeId),
      page.WellFormed → page.contentOf root = some .fragment → page.parentOf root = none →
      Reachable page m r → (r.step op).2 = .ok (some (.rendered template nodes)) →
      ∃ o content notices, r.Orders op o ∧ o.template = template ∧
        r.templates.render? template o.data = .ok (some (content, notices)) ∧
        (r.step op).1.page.tree.Shows nodes content.below := by
  intro hall
  let page := Tree.ofDocuments [.node (.element ⟨"main", [("id", "m")]⟩)
    [.node (.element ⟨"div", []⟩)
      [.node (.element ⟨"template", [("id", "a")]⟩) [.node (.element ⟨"i", []⟩) []]]]]
  let source : Fetch.Canned := Fetch.Canned.empty.set .get "/x" ⟨200, "null"⟩
  let fill : Operation Fetch.Canned Cache.Memory := .renderData "a" .null
  let replace : Operation Fetch.Canned Cache.Memory :=
    .run ⟨root, .get, "/x", some "a", some "#m", none, defaultTrigger⟩
  obtain ⟨r, hr, hrendered, hparent, hnone⟩ : ∃ r,
      ofPage page .standard source Cache.Memory.empty = .ok r ∧
        let last := ((r.step fill).1.step replace).1.step fill
        last.2 = .ok (some (.rendered "a" [⟨7⟩])) ∧
          last.1.page.tree.parentOf ⟨7⟩ = some ⟨2⟩ ∧ last.1.page.tree.parentOf ⟨2⟩ = none :=
    exists_of_map_decide (by decide +kernel)
  have hstart : Reachable page .standard r := .start _ _ hr
  have hreach := (hstart.step fill trivial).step replace trivial
  obtain ⟨o, content, notices, -, -, -, hshows⟩ := hall page .standard _ fill "a" [⟨7⟩]
    (Tree.ofDocuments_wellFormed _) (Tree.contentOf_ofDocuments _) (Tree.parentOf_ofDocuments _)
    hreach hrendered
  -- The new node is in the element that was replaced.
  rcases hshows.within _ (List.mem_singleton_self _) with he | habove
  · cases he
  · rcases habove.within_parent hparent with he | habove
    · cases he
    · obtain ⟨q, hq, -⟩ := habove.parent_within
      cases hnone.symm.trans hq

end Runner
end Page
end PageBinding
