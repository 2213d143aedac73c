/-
# The first output of a template

The first output of a template takes the place of the first element of its name, if that
is a template (`LivePage.fillTidily_first`), and has none otherwise.

The templates are collected in another way: of the outermost ones with an `id` the first is
the template of that name.  The two agree where the first element of the `id` is that
template.  Where it is not, an output goes into another template, or nowhere
(`registered_placed_iff`, `registered_is_misplaced`).

Where they agree, the text of the page with the output is the text of the page with the text
of the output in the place of that of the template (`page_shows_fragment`).
-/

import PageBinding.Proofs.Page.Arrangement
import PageBinding.Proofs.Page.Running
import PageBinding.Proofs.Template.Registered
import PageBinding.Proofs.Template.Rereading
import PageBinding.Proofs.Tree.Exchanged

namespace PageBinding

open Html (Node Document)
open Html.Document (printAll)
open Numbered (documents idsAll numberAllFrom outermostAll exchanged exchangedAll)

namespace Tree

/-- Nothing above a node is a void element, a text or a comment. -/
def Enclosed (t : Tree) (x : NodeId) : Prop :=
  ∀ y n, t.Above y x → t.contentOf y = some n → ¬ n.IsLeaf

/-- A node above another one has children. -/
theorem Above.childrenOf_ne_nil {t : Tree} {x y : NodeId} (h : t.Above y x) (hw : t.WellFormed) :
    t.childrenOf y ≠ [] := by
  induction h with
  | parent hp => exact List.ne_nil_of_mem ((hw.linked _ _).2 hp)
  | step _ _ ih => exact ih

/-- What is held in a document that can be written can be written. -/
theorem Holds.writable {t : Tree} {a : Numbered} (ha : t.Holds a) (hd : a.document.Writable)
    {y : NodeId} (hy : y ∈ a.ids) : ∃ b, t.Holds b ∧ b.top = y ∧ b.document.Writable := by
  induction a using Numbered.induction_up with
  | step id n bs ih =>
    rcases Numbered.mem_ids.1 hy with rfl | ⟨b, hb, hy⟩
    · exact ⟨_, ha, rfl, hd⟩
    · rw [Numbered.document_eq, Document.writable_node] at hd
      exact ih b hb (ha.of_mem hb) (hd.2.2 _ (List.mem_map_of_mem hb)) hy

/-- In a tree of documents that can be written nothing is inside a void element, a text or a
comment. -/
theorem enclosed_ofDocuments {ds : List Document} (hds : Document.WritableAll ds) (x : NodeId) :
    (ofDocuments ds).Enclosed x := by
  intro y n habove hn hleaf
  have hw := ofDocuments_wellFormed ds
  have hh := ofDocuments_holds ds
  have hy : y ∈ (Numbered.numberFrom 0 (.node .fragment ds)).ids := by
    have hhas : y.index < (ofDocuments ds).size := habove.has_left hw
    rw [(ofDocuments_grown ds).size] at hhas
    rw [Numbered.ids_numberFrom, List.mem_map]
    refine ⟨y.index, List.mem_range'_1.2 ⟨Nat.zero_le _, ?_⟩, rfl⟩
    simpa [Html.Document.countAll, Tree.size] using hhas
  rcases Numbered.mem_ids.1 hy with rfl | ⟨b, hb, hy⟩
  · obtain rfl := Option.some.inj (hn.symm.trans hh.content)
    exact hleaf
  · have hwritable : b.document.Writable := by
      refine Document.writableAll_iff.1 hds _ ?_
      have hmem := List.mem_map_of_mem (f := Numbered.document) hb
      rw [Numbered.numberFrom, Numbered.inside, ← Numbered.documents_eq_map,
        Numbered.documents_numberAllFrom] at hmem
      exact hmem
    obtain ⟨c, hc, rfl, hcd⟩ := (hh.of_mem hb).writable hwritable hy
    rw [Numbered.document_eq, Document.writable_node] at hcd
    obtain rfl := Option.some.inj (hn.symm.trans hc.content)
    refine habove.childrenOf_ne_nil hw ?_
    rw [hc.children, List.map_eq_nil_iff.1 (hcd.2.1 hleaf), List.map_nil]

/-- In a page that is read from a text, every node is enclosed: what ends at once has nothing
inside. -/
theorem enclosed_ofHtml (text : String) (x : NodeId) : (ofHtml text).1.Enclosed x :=
  enclosed_ofDocuments (writable_documentsOf (Html.writable_of_mem_tokens text)) x

/-- **What is written around an element** is the same whatever is written in its place. -/
theorem Holds.exists_around {t : Tree} {a b : Numbered} (ha : t.Holds a) (hw : t.WellFormed)
    (hb : t.Holds b) (hmem : b.top ∈ idsAll a.inside) (henclosed : t.Enclosed b.top)
    (hfragment : a.content = .fragment) : ∃ before behind,
      (∀ ds, printAll (exchangedAll b.top ds a.inside) = before ++ (printAll ds ++ behind)) ∧
      a.document.print = before ++ (b.document.print ++ behind) := by
  have hids : b.top ∈ a.ids := by
    rw [Numbered.ids_eq]
    exact List.mem_cons_of_mem _ hmem
  have hne : a.top ≠ b.top := fun he => ha.top_notMem_idsAll hw (he ▸ hmem)
  obtain ⟨before, behind, haround⟩ := ha.print_exchanged hw hids henclosed
  refine ⟨before, behind, fun ds => ?_, ?_⟩
  · rw [← haround ds, Numbered.exchanged_of_ne hne, hfragment, Document.printAll_singleton,
      Document.print]
  · have h := haround [b.document]
    rwa [ha.exchanged_self hb, Document.printAll_singleton, Document.printAll_singleton] at h

end Tree

namespace Page

open PageBinding.Tree (root Replaced exchange)
open Json (Value)
open Template (Markers Collection)

/-- Refilling the place of one node replaces that node. -/
theorem Refilled.replaced {t u : Tree} {place filled : Place} {news : List Numbered} {b : Numbered}
    (h : Refilled t u place filled news) (hw : t.WellFormed) (hv : place.Valid t)
    (hb : t.parentOf b.top = some place.parent) (hnodes : place.nodes = [b.top]) :
    Replaced t u b news := by
  have hne : ∀ {x}, x ∉ b.ids → x ≠ b.top := fun hx he => hx (he ▸ b.top_mem_ids)
  refine ⟨h.wellFormed, h.size_le, fun x hx _ => h.content x hx, fun x hx hm => ?_,
    fun x hx hm => ?_, fun hp => ?_, h.holds, fun x hx => .inr (h.fresh x hx)⟩
  · rw [h.parent x hx, Tree.parentsWithout, if_neg]
    rw [hnodes, List.mem_singleton]
    exact hne hm
  · by_cases hxp : x = place.parent
    · obtain ⟨pre, post, hsplit, hpre, hpost⟩ :=
        Tree.split_of_nodup (hw.nodup place.parent) ((hw.linked _ _).2 hb)
      have hc : t.childrenOf place.parent = pre ++ place.nodes ++ post := by
        rw [hsplit, hnodes, List.append_assoc, List.singleton_append]
      rw [hxp, h.children_of_nodes hw hv (by simp [hnodes]) hc, hsplit,
        Tree.exchange_split hpre hpost]
    · rw [h.children_of_ne hw (fun y hy => ?_) hx hxp, Tree.exchange_of_notMem fun hm => hxp ?_]
      · exact Option.some.inj (((hw.linked x _).1 hm).symm.trans hb)
      · rw [hnodes, List.mem_singleton] at hy
        exact hy ▸ hb
  · rw [hp] at hb
    cases hb

namespace LivePage

variable {p : LivePage} {a b r : Numbered} {content : Tree} {name : String}

/-- A node below the root has a parent. -/
theorem exists_parent {x : NodeId} (hw : p.tree.WellFormed) (ha : p.tree.Holds a)
    (hx : x ∈ idsAll a.inside) : ∃ q, p.tree.parentOf x = some q := by
  have hmem : x ∈ a.ids := by
    rw [Numbered.ids_eq]
    exact List.mem_cons_of_mem _ hx
  rcases (ha.mem_ids hw).1 hmem with he | habove
  · exact absurd (he ▸ hx) (ha.top_notMem_idsAll hw)
  · exact habove.parent_within.imp fun _ h => h.1

/-- The element of a template is the first one of its name, if that is a template. -/
theorem templateElement?_of_findById? {x : NodeId} (hw : p.tree.WellFormed) (ha : p.tree.Holds a)
    (htop : a.top = root) (hx : p.tree.findById? name = .ok (some x)) :
    p.templateElement? name =
      .ok (if (p.tree.contentOf x).any Node.isTemplate = true then some x else none) := by
  have hfind := Except.ok.inj ((Tree.findById?_ok hw ha htop name).symm.trans hx)
  rw [templateElement?_ok hw ha htop, hfind, Option.filter_some]

/-- **The first output of a template replaces it:** the page reads as before, with the
output in the place of the element. -/
theorem fillTidily_first (h : p.Linked) (ha : p.tree.Holds a) (htop : a.top = root)
    (hb : p.tree.Holds b) (hx : p.templateElement? name = .ok (some b.top))
    (hplaces : p.places.lookup name = none) (hc : content.WellFormed) (hr : content.Holds r)
    (hrtop : r.top = root) : ∃ s nodes, p.fillTidily name none content = .ok (s, nodes) ∧
      s.tree.read root = .ok (.node a.content (exchangedAll b.top content.below a.inside)) := by
  have hw := h.wellFormed
  have hmem : b.top ∈ idsAll a.inside := by
    have hfound := Except.ok.inj ((templateElement?_ok hw ha htop name).symm.trans hx)
    exact List.mem_of_find?_eq_some (Option.filter_eq_some_iff.1 hfound).1
  obtain ⟨q, hq⟩ := exists_parent hw ha hmem
  have hplace := firstPlace_eq hw hx hq
  have hplaceOf : p.placeOf name = .ok ⟨q, [b.top], p.tree.following b.top⟩ := by
    rw [placeOf, hplaces, hplace]
  obtain ⟨u, filled, hv, href, hfill⟩ := fillPlace_of_place h hplaceOf hc hr hrtop
  rw [← Numbered.documents_eq_map, ← Tree.below_eq hc hr hrtop] at href
  have hlinked := refilled_linked h hv href name
  -- The root is not within the template.
  have hout : a.top ∉ b.ids := fun hm => by
    rcases (hb.mem_ids hw).1 hm with he | habove
    · exact ha.top_notMem_idsAll hw (he ▸ hmem)
    · obtain ⟨q', hq', -⟩ := habove.parent_within
      rw [htop, h.root_parent] at hq'
      cases hq'
  have hread := (href.replaced hw hv hq rfl).read_exchanged hw hb ha hout
  rw [Numbered.documents_numberAllFrom, htop] at hread
  have hfill : p.fill name none content = _ := hfill
  rcases fillTidily_eq hlinked hfill with heq | ⟨s, new, hcompact, heq⟩
  · exact ⟨_, _, heq, hread⟩
  · exact ⟨_, _, heq, (read_compact hlinked hcompact).trans hread⟩

end LivePage

namespace Runner

variable {σ γ : Type} {r : Runner σ γ} {name : String} {data : Value} {out : Tree}
  {notices : Array Notice}

/-- What an output with a place does. -/
theorem fill_ok {s : LivePage} {target : Option String} {nodes : List NodeId}
    (hr : r.templates.render? name data = .ok (some (out, notices)))
    (hf : r.page.fillTidily name target out = .ok (s, nodes)) :
    r.fill name target data =
      ({ r.reportAll notices with page := s }, .ok (.rendered name nodes)) := by
  have hf' : (r.reportAll notices).page.fillTidily name target out = .ok (s, nodes) := hf
  rw [fill, hr]
  dsimp only
  rw [put, hf']

/-- What an output without a place does. -/
theorem fill_error {e : Failure} {target : Option String}
    (hr : r.templates.render? name data = .ok (some (out, notices)))
    (hf : r.page.fillTidily name target out = .error e) :
    r.fill name target data = (r.reportAll notices, .error e) := by
  have hf' : (r.reportAll notices).page.fillTidily name target out = .error e := hf
  rw [fill, hr]
  dsimp only
  rw [put, hf']

/-- The output of a collected template. -/
theorem render?_ofDocuments {c : Collection} {ds : List Document}
    (hget : c.get? name = some (.ofDocuments ds)) (data : Value) :
    ∃ out notices r, c.render? name data = .ok (some (out, notices)) ∧ out.WellFormed ∧
      out.Holds r ∧ r.top = root ∧ r.content = .fragment := by
  obtain ⟨out, notices, outs, hout, hw, hh, -⟩ := Template.bindAt_holds
    (Tree.ofDocuments_wellFormed ds) (Tree.ofDocuments_holds ds) (by rw [Numbered.numberFrom]; rfl)
    data c.markers
  rw [Numbered.top_numberFrom] at hout hh
  refine ⟨out, notices, _, ?_, hw, hh, rfl, rfl⟩
  rw [Collection.render?, hget]
  dsimp only
  rw [Template.render, show Tree.root = (⟨0⟩ : NodeId) from rfl, hout]
  rfl

/-- **Where the first output of a collected template goes.**  The template of a name is the
first outermost one with that `id`.  Its place is the first element of the `id`: if that is a
template, the output takes its place, and otherwise it has none.  So it takes the place of
the template whose content was collected just if that is the first element of the `id`. -/
theorem registered_placed_iff (page : Tree) (m : Markers) (source : σ) (cache : γ) (name : String)
    (template : Tree) (r : Runner σ γ) (hw : page.WellFormed)
    (hc : page.contentOf root = some .fragment) (hp : page.parentOf root = none)
    (hr : ofPage page m source cache = .ok r) (hget : r.templates.get? name = some template) :
    ∃ a b x, page.Holds a ∧ a.top = root ∧
      (outermostAll a.inside).find? (·.content.hasId name) = some b ∧
      template = .ofDocuments (b.inside.map Numbered.document) ∧
      page.findById? name = .ok (some x) ∧
      (r.page.templateElement? name = .ok (some b.top) ↔ x = b.top) ∧
      ∀ data, ∃ out notices, r.templates.render? name data = .ok (some (out, notices)) ∧
        if (page.contentOf x).any Node.isTemplate = true then ∃ nodes,
          (r.renderData name data).2 = .ok (.rendered name nodes) ∧
          (r.renderData name data).1.page.tree.read root =
            .ok (.node .fragment (exchangedAll x out.below a.inside))
        else (r.renderData name data).2 = .error (.noPlace name) ∧
          (r.renderData name data).1.page = r.page := by
  have hl := LivePage.linked_ofPage hw hc hp
  obtain ⟨a, htop, ha⟩ := hl.exists_root
  have ha : page.Holds a := ha
  have hfragment : a.content = .fragment :=
    Option.some.inj (ha.content.symm.trans (htop ▸ hc))
  obtain ⟨c, hcollect, hm, hgets⟩ := Collection.ofPage_get? hw ha htop m
  rw [ofPage, hcollect] at hr
  obtain rfl := Except.ok.inj hr
  have hget : c.get? name = some template := hget
  obtain ⟨b, hb, rfl⟩ := Option.map_eq_some_iff.1 ((hgets name).symm.trans hget)
  have hbm := List.mem_of_find?_eq_some hb
  have hbh := Collection.holds_of_mem_outermostAll ha hbm
  have hbt : b.content.isTemplate = true ∧ b.top ∈ idsAll a.inside := by
    obtain ⟨d, hd, hbd⟩ := Numbered.mem_outermostAll.1 hbm
    obtain ⟨-, ht, hmem⟩ := (ha.of_mem hd).of_mem_outermost hbd
    exact ⟨ht, Numbered.mem_idsAll.2 ⟨d, hd, hmem⟩⟩
  -- Some element has the name, as the template does.
  have hsome : ((idsAll a.inside).find? fun x => (page.contentOf x).any (Node.hasId name)).isSome := by
    rw [List.find?_isSome]
    refine ⟨b.top, hbt.2, ?_⟩
    have hid := List.find?_some hb
    rwa [hbh.content, Option.any_some]
  obtain ⟨x, hx⟩ := Option.isSome_iff_exists.1 hsome
  have hfind : page.findById? name = .ok (some x) := by rw [Tree.findById?_ok hw ha htop, hx]
  obtain ⟨hxm, n, hn, -⟩ := Tree.findById?_eq_some hw ha htop hfind
  have helement : (LivePage.ofPage page).templateElement? name =
      .ok (if (page.contentOf x).any Node.isTemplate = true then some x else none) :=
    LivePage.templateElement?_of_findById? hw ha htop hfind
  refine ⟨a, b, x, ha, htop, hb, rfl, hfind, ?_, fun data => ?_⟩
  · show (LivePage.ofPage page).templateElement? name = .ok (some b.top) ↔ x = b.top
    rw [helement]
    constructor
    · intro h
      split_ifs at h
      · exact Option.some.inj (Except.ok.inj h)
      · cases h
    · rintro rfl
      rw [hbh.content, Option.any_some, if_pos hbt.1]
  · obtain ⟨out, notices, o, hout, hwo, ho, hotop, -⟩ := render?_ofDocuments hget data
    refine ⟨out, notices, hout, ?_⟩
    split_ifs at helement ⊢ with htemplate
    · obtain ⟨d, rfl, hd⟩ := hw.exists_holds (Tree.has_iff_contentOf.2 ⟨n, hn⟩)
      obtain ⟨s, nodes, hs, hread⟩ :=
        LivePage.fillTidily_first hl ha htop hd helement rfl hwo ho hotop
      rw [renderData, fill_ok hout hs]
      exact ⟨nodes, rfl, hfragment ▸ hread⟩
    · have hfail : (LivePage.ofPage page).fillTidily name none out = .error (.noPlace name) := by
        rw [LivePage.fillTidily, LivePage.fill, LivePage.fillPlace, LivePage.placeOf,
          LivePage.firstPlace, helement]
        rfl
      rw [renderData, fill_error hout hfail]
      exact ⟨rfl, rfl⟩

/-- A template behind another element, which has the `id` of the template or has it not. -/
theorem registered_placed_iff_of_element :
    let page (id : String) := Tree.ofDocuments [.node (.element ⟨"p", [("id", id)]⟩) [],
      .node (.element ⟨"template", [("id", "a")]⟩) [.node (.element ⟨"b", []⟩) []]]
    let starts (id : String) (r : Runner Fetch.Canned Cache.Memory) := (page id).WellFormed ∧
      (page id).contentOf root = some .fragment ∧ (page id).parentOf root = none ∧
      ofPage (page id) .standard .empty .empty = .ok r ∧
      ∃ template, r.templates.get? "a" = some template
    (∃ r, starts "a" r ∧ r.page.templateElement? "a" ≠ .ok (some ⟨2⟩) ∧
      ∀ data, (r.renderData "a" data).2 = .error (.noPlace "a") ∧
        (r.renderData "a" data).1.page = r.page) ∧
    ∃ r, starts "e" r ∧ r.page.templateElement? "a" = .ok (some ⟨2⟩) ∧
      ∀ data, ∃ out notices nodes, r.templates.render? "a" data = .ok (some (out, notices)) ∧
        (r.renderData "a" data).2 = .ok (.rendered "a" nodes) ∧
        (r.renderData "a" data).1.page.tree.read root =
          .ok (.node .fragment (.node (.element ⟨"p", [("id", "e")]⟩) [] :: out.below)) := by
  intro page starts
  have hstarts (id : String) (hknown : (ofPage (page id) .standard Fetch.Canned.empty
      Cache.Memory.empty).map (fun r => (r.templates.get? "a").isSome) = .ok true) :
      ∃ r, starts id r := by
    obtain ⟨r, hr, hget⟩ := exists_of_map_ok hknown
    exact ⟨r, Tree.ofDocuments_wellFormed _, Tree.contentOf_ofDocuments _,
      Tree.parentOf_ofDocuments _, hr, Option.isSome_iff_exists.1 hget⟩
  obtain ⟨r, hr⟩ := hstarts "a" (by decide +kernel)
  obtain ⟨s, hs⟩ := hstarts "e" (by decide +kernel)
  refine ⟨⟨r, hr, ?misplaced⟩, s, hs, ?placed⟩
  case misplaced =>
    obtain ⟨hw, hc, hp, hr, template, hget⟩ := hr
    obtain ⟨a, b, x, ha, htop, hb, -, hx, hiff, hall⟩ :=
      registered_placed_iff (page "a") .standard _ _ "a" template r hw hc hp hr hget
    obtain rfl := ha.unique (Tree.ofDocuments_holds _) htop
    obtain rfl : x = ⟨1⟩ := by
      refine Option.some.inj (Except.ok.inj (hx.symm.trans ?_))
      decide +kernel
    have hb : b.top = ⟨2⟩ := by
      refine Option.some.inj ((congrArg (Option.map Numbered.top) hb).symm.trans ?_)
      decide +kernel
    have hplain : (page "a").contentOf ⟨1⟩ = some (.element ⟨"p", [("id", "a")]⟩) := by decide +kernel
    refine ⟨fun helement => ?_, fun data => ?_⟩
    · have htaken := hiff.1 (hb.symm ▸ helement)
      rw [hb] at htaken
      cases htaken
    · obtain ⟨out, notices, -, hrun⟩ := hall data
      rw [hplain] at hrun
      exact hrun
  case placed =>
    obtain ⟨hw, hc, hp, hs, template, hget⟩ := hs
    obtain ⟨a, b, x, ha, htop, hb, -, hx, hiff, hall⟩ :=
      registered_placed_iff (page "e") .standard _ _ "a" template s hw hc hp hs hget
    obtain rfl := ha.unique (Tree.ofDocuments_holds _) htop
    obtain rfl : x = ⟨2⟩ := by
      refine Option.some.inj (Except.ok.inj (hx.symm.trans ?_))
      decide +kernel
    have hb : b.top = ⟨2⟩ := by
      refine Option.some.inj ((congrArg (Option.map Numbered.top) hb).symm.trans ?_)
      decide +kernel
    have htemplate : (page "e").contentOf ⟨2⟩ = some (.element ⟨"template", [("id", "a")]⟩) := by
      decide +kernel
    refine ⟨hb ▸ hiff.2 hb.symm, fun data => ?_⟩
    obtain ⟨out, notices, hrender, hrun⟩ := hall data
    rw [htemplate] at hrun
    obtain ⟨nodes, hrun, hread⟩ := hrun
    have hexchanged : exchangedAll ⟨2⟩ out.below (Numbered.numberFrom 0 (.node .fragment
        [.node (.element ⟨"p", [("id", "e")]⟩) [], .node (.element ⟨"template", [("id", "a")]⟩)
          [.node (.element ⟨"b", []⟩) []]])).inside =
        [.node (.element ⟨"p", [("id", "e")]⟩) []] ++ (out.below ++ []) := rfl
    rw [List.append_nil] at hexchanged
    exact ⟨out, notices, nodes, hrender, hrun, hread.trans (congrArg _ (congrArg _ hexchanged))⟩

/-- **A collected template may have no place,** if another element has its `id` first. -/
theorem registered_is_misplaced :
    ¬ ∀ (page : Tree) (m : Markers) (r : Runner Fetch.Canned Cache.Memory) (name : String)
      (template : Tree) (data : Value), page.WellFormed → page.contentOf root = some .fragment →
      page.parentOf root = none → ofPage page m .empty .empty = .ok r →
      r.templates.get? name = some template →
      ∃ nodes, (r.renderData name data).2 = .ok (.rendered name nodes) := by
  intro hall
  let page := Tree.ofDocuments [.node (.element ⟨"p", [("id", "a")]⟩) [],
    .node (.element ⟨"template", [("id", "a")]⟩) [.node (.element ⟨"b", []⟩) []]]
  obtain ⟨r, hr, hknown, hfails⟩ : ∃ r,
      ofPage page .standard Fetch.Canned.empty Cache.Memory.empty = .ok r ∧
        (r.templates.get? "a").isSome = true ∧
        (r.renderData "a" .null).2 = .error (.noPlace "a") :=
    exists_of_map_decide (by decide +kernel)
  obtain ⟨template, hget⟩ := Option.isSome_iff_exists.1 hknown
  obtain ⟨nodes, hnodes⟩ := hall page .standard r "a" template .null
    (Tree.ofDocuments_wellFormed _) (Tree.contentOf_ofDocuments _) (Tree.parentOf_ofDocuments _)
    hr hget
  cases hfails.symm.trans hnodes

/-! ## The text of the page -/

/-- **The page shows the fragment.**  If the first element of an `id` is a template that is in
no other one, the text of the page with its first output is the text of the page with the
text of the rendered template in the place of that of the element; and the text in front of it
and the one behind are the same whatever is in that place.  Nothing above the element may be a
void element, a text or a comment, and in a page that is read nothing is. -/
theorem page_shows_fragment (page : Tree) (m : Markers) (source : σ) (cache : γ) (name : String)
    (data : Value) (x : NodeId) (hw : page.WellFormed) (hc : page.contentOf root = some .fragment)
    (hp : page.parentOf root = none) (hfirst : page.findById? name = .ok (some x))
    (htemplate : (page.contentOf x).any Node.isTemplate = true)
    (houter : ∀ y n, page.Above y x → page.contentOf y = some n → n.isTemplate = false) :
    (∀ text, page = (Tree.ofHtml text).1 → page.Enclosed x) ∧ (page.Enclosed x →
      ∃ (a : Numbered) (r : Runner σ γ) (out : Tree) (notices : Array Notice)
        (nodes : List NodeId) (before own fragment behind : String),
        page.Holds a ∧ a.top = root ∧ ofPage page m source cache = .ok r ∧
        Collection.ofPage page m = .ok r.templates ∧
        r.templates.render? name data = .ok (some (out, notices)) ∧ out.html = .ok fragment ∧
        page.htmlAt x = .ok own ∧ page.html = .ok (before ++ own ++ behind) ∧
        (r.renderData name data).2 = .ok (.rendered name nodes) ∧
        (r.renderData name data).1.page.tree.html = .ok (before ++ fragment ++ behind) ∧
        ∀ ds, printAll (exchangedAll x ds a.inside) =
          before.toList ++ (printAll ds ++ behind.toList)) := by
  refine ⟨fun text he => he ▸ Tree.enclosed_ofHtml text x, fun henclosed => ?_⟩
  have hl := LivePage.linked_ofPage hw hc hp
  obtain ⟨a, htop, ha⟩ := hl.exists_root
  have ha : page.Holds a := ha
  have hfragment : a.content = .fragment :=
    Option.some.inj (ha.content.symm.trans (htop ▸ hc))
  have hfind := Except.ok.inj ((Tree.findById?_ok hw ha htop name).symm.trans hfirst)
  have hinside := List.mem_of_find?_eq_some hfind
  have hx : x ∈ a.ids := by
    rw [Numbered.ids_eq]
    exact List.mem_cons_of_mem _ hinside
  -- The element is the collected template of its name.
  obtain ⟨b, hb, rfl⟩ := ha.exists_outermost hw hx htemplate fun y _ => houter y
  have hbh := (ha.of_mem_outermost hb).1
  rw [Numbered.outermost_of_not_template (by rw [hfragment]; rfl)] at hb
  obtain ⟨c, hcollect, -, hgets⟩ := Collection.ofPage_get? hw ha htop m
  have hget := hgets name
  have hp : ∀ c ∈ outermostAll a.inside,
      (page.contentOf c.top).any (Node.hasId name) = c.content.hasId name := fun c hc => by
    rw [(Template.Collection.holds_of_mem_outermostAll ha hc).content, Option.any_some]
  rw [Template.find?_outermostAll hw ha hp hb hfind, Option.map_some] at hget
  obtain ⟨out, notices, o, hout, hwo, ho, hotop, hocontent⟩ := render?_ofDocuments hget data
  have helement : (LivePage.ofPage page).templateElement? name = .ok (some b.top) :=
    (LivePage.templateElement?_of_findById? hw ha htop hfirst).trans
      (congrArg Except.ok (if_pos htemplate))
  obtain ⟨s, nodes, hs, hread⟩ := LivePage.fillTidily_first hl ha htop hbh helement rfl hwo ho hotop
  let r : Runner σ γ := ⟨.ofPage page, c, source, cache, #[]⟩
  have hrender : r.renderData name data = _ := fill_ok hout hs
  obtain ⟨before, behind, haround, hself⟩ := ha.exists_around hw hbh hinside henclosed hfragment
  refine ⟨a, r, out, notices, nodes, String.ofList before, b.document.render,
    (Document.node .fragment out.below).render, String.ofList behind, ha, htop, ?_, hcollect, hout,
    ?_, ?_, ?_, ?_, ?_, ?_⟩
  · rw [ofPage, hcollect]
    rfl
  · rw [Tree.html, Tree.htmlAt, ← hotop, ho.read hwo, Tree.below_eq hwo ho hotop,
      Numbered.document_eq, hocontent, Numbered.documents_eq_map]
    rfl
  · rw [Tree.htmlAt, hbh.read hw]
    rfl
  · rw [Tree.html, Tree.htmlAt, ← htop, ha.read hw, ok_bind]
    refine congrArg Except.ok (String.toList_injective ?_)
    simp [Document.toList_render, hself]
  · rw [hrender]
  · rw [hrender, Tree.html, Tree.htmlAt]
    show (do return (← s.tree.read root).render) = _
    rw [hread, hfragment, ok_bind]
    refine congrArg Except.ok (String.toList_injective ?_)
    simp [Document.toList_render, Document.print, haround]
  · intro ds
    rw [haround, String.toList_ofList, String.toList_ofList]

/-- A template in an element. -/
theorem page_shows_fragment_of_item :
    let page := (Tree.ofHtml "<ul><template id=t><li jx-each=.>{{.}}</li></template></ul>").1
    page.WellFormed ∧ page.contentOf root = some .fragment ∧ page.parentOf root = none ∧
      page.findById? "t" = .ok (some ⟨2⟩) ∧ (page.contentOf ⟨2⟩).any Node.isTemplate = true ∧
      (∀ y n, page.Above y ⟨2⟩ → page.contentOf y = some n → n.isTemplate = false) ∧
      page.Enclosed ⟨2⟩ ∧
      ∃ (a : Numbered) (r : Runner Fetch.Canned Cache.Memory) (out : Tree) (notices : Array Notice)
        (nodes : List NodeId) (before own fragment behind : String),
        page.Holds a ∧ a.top = root ∧ ofPage page .standard .empty .empty = .ok r ∧
        Collection.ofPage page .standard = .ok r.templates ∧
        r.templates.render? "t" (.array [.string "x"]) = .ok (some (out, notices)) ∧
        out.html = .ok fragment ∧ page.htmlAt ⟨2⟩ = .ok own ∧
        page.html = .ok (before ++ own ++ behind) ∧
        (r.renderData "t" (.array [.string "x"])).2 = .ok (.rendered "t" nodes) ∧
        (r.renderData "t" (.array [.string "x"])).1.page.tree.html =
          .ok (before ++ fragment ++ behind) ∧
        ∀ ds, printAll (exchangedAll ⟨2⟩ ds a.inside) =
          before.toList ++ (printAll ds ++ behind.toList) := by
  intro page
  have hw : page.WellFormed := Tree.ofDocuments_wellFormed _
  have hc : page.contentOf root = some .fragment := Tree.contentOf_ofDocuments _
  have hp : page.parentOf root = none := Tree.parentOf_ofDocuments _
  have hfirst : page.findById? "t" = .ok (some ⟨2⟩) := by decide +kernel
  have htemplate : (page.contentOf ⟨2⟩).any Node.isTemplate = true := by decide +kernel
  have houter : ∀ y n, page.Above y ⟨2⟩ → page.contentOf y = some n → n.isTemplate = false := by
    have hroot : page.parentOf ⟨1⟩ = some root := by decide +kernel
    have hlist : page.parentOf ⟨2⟩ = some ⟨1⟩ := by decide +kernel
    have hcontent : page.contentOf ⟨1⟩ = some (.element ⟨"ul", []⟩) := by decide +kernel
    intro y n habove hn
    rcases habove.within_parent hlist with rfl | habove
    · rw [← Option.some.inj (hcontent.symm.trans hn)]
      decide
    · rcases habove.within_parent hroot with rfl | habove
      · rw [← Option.some.inj (hc.symm.trans hn)]
        rfl
      · obtain ⟨q, hq, -⟩ := habove.parent_within
        cases hp.symm.trans hq
  obtain ⟨henclosed, hshows⟩ := page_shows_fragment page .standard Fetch.Canned.empty
    Cache.Memory.empty "t" (.array [.string "x"]) ⟨2⟩ hw hc hp hfirst htemplate houter
  exact ⟨hw, hc, hp, hfirst, htemplate, houter, henclosed _ rfl, hshows (henclosed _ rfl)⟩

end Runner
end Page
end PageBinding
