/-
# Where an event is delegated to

An event on a node asks for what the nearest node says, from that node on up, that has data of
its own or the marker of a request (`Nearest`).  Those further up have no part in it, also when
the nearest one names no template that there is.

| the nearest node | what the event does |
| --- | --- |
| there is none | nothing |
| has data | what `renderData` does with it, whether or not the node has markers |
| has markers only | what `run` does with the request that they declare |

Compaction gives the nodes new numbers, under which data is kept from then on.  The nearest node
of each node that is still in the page is the same one as before, with the same data and the same
markers (`Delegation.compact`).
-/

import PageBinding.Proofs.Page.Asking

namespace PageBinding
namespace Page

open Fetch (Source)
open Html (Node Element)
open Json (Value)
open Template (Markers)
open PageBinding.Tree (root placeIn)

variable {σ γ : Type}

/-- The pages that compacting a page again and again gives, with the numbers that its nodes have
in them. -/
inductive Compactions (p : LivePage) : (NodeId → Option NodeId) → LivePage → Prop
  | none : Compactions p some p
  | next {f : NodeId → Option NodeId} {q c : LivePage} {new : Renumbering} : Compactions p f q →
    q.compact = .ok (c, new) → Compactions p (fun x => (f x).bind new.get?) c

/-- The binding that an element declares by its markers; of two requests it is the POST. -/
inductive Declares (m : Markers) (x : NodeId) (e : Element) : Binding → Prop
  | post {url : String} : e.get? m.post = some url →
    Declares m x e ⟨x, .post, url, e.get? m.template, e.get? m.target, e.get? m.save,
      (e.get? m.trigger).getD defaultTrigger⟩
  | get {url : String} : e.get? m.post = none → e.get? m.get = some url →
    Declares m x e ⟨x, .get, url, e.get? m.template, e.get? m.target, e.get? m.save,
      (e.get? m.trigger).getD defaultTrigger⟩

namespace Runner

/-- The pages that a runner has, or passes when an output is put into its page, before that is
tidied up. -/
def Passes (r : Runner σ γ) (p : LivePage) : Prop :=
  p = r.page ∨ ∃ (template : String) (target : Option String) (content : Tree)
    (nodes : List NodeId), content.WellFormed ∧ content.Has root ∧
      r.page.fill template target content = .ok (p, nodes)

/-- A node has data of its own, or is an element with the marker of a request. -/
def Binds (r : Runner σ γ) (x : NodeId) : Prop :=
  (r.page.ownData.lookup x).isSome = true ∨ ∃ e, r.page.tree.contentOf x = some (.element e) ∧
    ((e.get? r.markers.post).isSome = true ∨ (e.get? r.markers.get).isSome = true)

/-- Of the nodes on the way up from a node the first that has data or a request. -/
structure Nearest (r : Runner σ γ) (id a : NodeId) : Prop where
  within : r.page.tree.Within a id
  binds : r.Binds a
  first : ∀ x, r.page.tree.Within x id → r.page.tree.Above a x → ¬ r.Binds x

section
variable [Source σ] [Cache γ]

/-- An event on a node does what another node says. -/
structure Answers (r : Runner σ γ) (id a : NodeId) : Prop where
  data : ∀ d, r.page.ownData.lookup a = some d →
    r.trigger id = r.renderData d.template d.data ∧
      (r.templates.get? d.template = none → r.trigger id = (r, .ok .noTemplate))
  markers : r.page.ownData.lookup a = none → ∃ e b,
    r.page.tree.contentOf a = some (.element e) ∧ Declares r.markers a e b ∧
      r.trigger id = r.run b ∧ (r.templateOf? b = none →
        r.trigger id = (r.report (.noTemplate b.request b.template), .ok .noTemplate))

/-- **An event on a node is delegated to the nearest binding,** if there is one. -/
def Delegated (r : Runner σ γ) (id : NodeId) : Prop :=
  ((∀ x, r.page.tree.Within x id → ¬ r.Binds x) ∧ r.trigger id = (r, .ok .noBinding)) ∨
    ∃ a, r.Nearest id a ∧ (∀ x, r.Nearest id x → x = a) ∧ r.Answers id a

end

/-- **The nearest binding of a node is that of another node** in another runner, under the
number that it has there. -/
structure Delegation (r s : Runner σ γ) (f : NodeId → Option NodeId) (id id' : NodeId) : Prop where
  nearest : ∀ a, r.Nearest id a → ∃ a', f a = some a' ∧ s.Nearest id' a' ∧
    s.page.ownData.lookup a' = r.page.ownData.lookup a ∧
    s.page.tree.contentOf a' = r.page.tree.contentOf a
  unbound : (∀ x, r.page.tree.Within x id → ¬ r.Binds x) →
    ∀ x, s.page.tree.Within x id' → ¬ s.Binds x

variable {r s u : Runner σ γ} {p q c : LivePage} {id id' a b x : NodeId} {new : Renumbering}
  {f g : NodeId → Option NodeId}

/-! ## Nodes that bind -/

/-- An element declares a binding if it has the marker of a request, and nothing else does. -/
theorem ownBinding?_declares {page : Tree} {m : Markers} (hx : page.Has x) :
    (∃ e b, page.contentOf x = some (.element e) ∧ Declares m x e b ∧
      ownBinding? page m x = .ok (some b)) ∨
    (∀ e, page.contentOf x = some (.element e) → e.get? m.post = none ∧ e.get? m.get = none) ∧
      ownBinding? page m x = .ok none := by
  obtain ⟨n, hn⟩ := Tree.has_iff_contentOf.1 hx
  rw [ownBinding?, Tree.element?_ok hn, ok_bind, hn]
  cases n with
  | element e =>
    cases hpost : e.get? m.post with
    | some url =>
      refine .inl ⟨e, _, rfl, .post hpost, ?_⟩
      simp only [Node.element?, requestOf?, hpost]
      rfl
    | none =>
      cases hget : e.get? m.get with
      | some url =>
        refine .inl ⟨e, _, rfl, .get hpost hget, ?_⟩
        simp only [Node.element?, requestOf?, hpost, hget]
        rfl
      | none =>
        refine .inr ⟨fun e' he => ?_, ?_⟩
        · obtain rfl := Node.element.inj (Option.some.inj he)
          exact ⟨hpost, hget⟩
        · simp only [Node.element?, requestOf?, hpost, hget]
          rfl
  | _ => exact .inr ⟨(fun e he => by cases he), rfl⟩

/-- An element that declares a binding has the marker of a POST or of a GET. -/
theorem isSome_of_declares {m : Markers} {e : Element} {d : Binding} (h : Declares m x e d) :
    (e.get? m.post).isSome = true ∨ (e.get? m.get).isSome = true := by
  cases h with
  | post hpost => exact .inl (Option.isSome_iff_exists.2 ⟨_, hpost⟩)
  | get _ hget => exact .inr (Option.isSome_iff_exists.2 ⟨_, hget⟩)

/-- A node that does not bind is silent. -/
theorem silent_of_not_binds (hx : r.page.tree.Has x) (h : ¬ r.Binds x) : r.Silent x := by
  obtain ⟨hdata, hmarkers⟩ := not_or.1 h
  refine ⟨Option.not_isSome_iff_eq_none.1 hdata, ?_⟩
  rcases ownBinding?_declares (m := r.markers) hx with ⟨e, d, he, hd, -⟩ | ⟨-, hnone⟩
  · exact absurd ⟨e, he, isSome_of_declares hd⟩ hmarkers
  · exact hnone

/-- **There is one nearest binding at most.** -/
theorem Nearest.unique (ha : r.Nearest id a) (hb : r.Nearest id b) : b = a := by
  rcases ha.within.total hb.within with (rfl | hab) | (rfl | hba)
  · rfl
  · exact absurd hb.binds (ha.first b hb.within hab)
  · rfl
  · exact absurd ha.binds (hb.first a ha.within hba)

/-- What binds first among the nodes on the way up is nearest. -/
theorem nearest_of_first (hw : r.page.tree.WellFormed) (hid : r.page.tree.Has id)
    {below above : List NodeId} (hids : r.page.tree.ancestorsOrSelf id = .ok (below ++ a :: above))
    (ha : r.Binds a) (hbelow : ∀ x ∈ below, ¬ r.Binds x) : r.Nearest id a := by
  obtain ⟨ids, hids', hmem⟩ := Tree.ancestorsOrSelf_ok hw hid
  obtain rfl := Except.ok.inj (hids.symm.trans hids')
  have hsorted := Tree.ancestorsOrSelf_sorted hw hid hids
  refine ⟨(hmem a).1 (by simp), ha, fun x hx hax => ?_⟩
  rcases List.mem_append.1 ((hmem x).2 hx) with hx | hx
  · exact hbelow x hx
  · rcases List.mem_cons.1 hx with rfl | hx
    · exact absurd hax (hw.acyclic _)
    · have hxa := (List.pairwise_cons.1 (List.pairwise_append.1 hsorted).2.1).1 x hx
      exact absurd (hax.trans hxa) (hw.acyclic _)

/-! ## Events -/

section
variable [Source σ] [Cache γ]

/-- Silent nodes at the beginning of the way up are passed over. -/
theorem triggerAlong_append {below ids : List NodeId} {d : Option Binding}
    (hbelow : ∀ y ∈ below, r.Silent y)
    (hd : firstBinding? r.page.tree r.markers (below ++ ids) = .ok d) :
    firstBinding? r.page.tree r.markers ids = .ok d ∧
      r.triggerAlong d (below ++ ids) = r.triggerAlong d ids := by
  induction below with
  | nil => exact ⟨hd, rfl⟩
  | cons y below ih =>
    obtain ⟨hy, hbelow⟩ := List.forall_mem_cons.1 hbelow
    obtain ⟨hfirst, hpass⟩ := triggerAlong_silent hy hd
    obtain ⟨hrest, halong⟩ := ih hbelow hfirst
    exact ⟨hrest, hpass.trans halong⟩

omit [Source σ] [Cache γ] in
/-- Data for a template that is not there changes nothing. -/
theorem renderData_unknown {template : String} (data : Value)
    (h : r.templates.get? template = none) : r.renderData template data = (r, .ok .noTemplate) := by
  rw [renderData, fill, Template.Collection.render?, h]
  rfl

/-- A binding to a template that is not there changes nothing but the log. -/
theorem run_unknown {d : Binding} (h : r.templateOf? d = none) :
    r.run d = (r.report (.noTemplate d.request d.template), .ok .noTemplate) := by
  rw [run, h]

/-- The first node on the way up that binds answers. -/
theorem answers_of_first (hw : r.page.tree.WellFormed) (hid : r.page.tree.Has id)
    {below above : List NodeId} (hids : r.page.tree.ancestorsOrSelf id = .ok (below ++ a :: above))
    (ha : r.Binds a) (hbelow : ∀ x ∈ below, ¬ r.Binds x) : r.Answers id a := by
  obtain ⟨ids, hids', hmem⟩ := Tree.ancestorsOrSelf_ok hw hid
  obtain rfl := Except.ok.inj (hids.symm.trans hids')
  have hhas : ∀ x ∈ below ++ a :: above, r.page.tree.Has x := fun x hx =>
    Tree.has_of_within hw hid ((hmem x).1 hx)
  obtain ⟨d, hd⟩ := firstBinding?_ok r.markers hhas
  obtain ⟨hfirst, halong⟩ := triggerAlong_append
    (fun y hy => silent_of_not_binds (hhas y (List.mem_append_left _ hy)) (hbelow y hy)) hd
  have htrigger := (trigger_eq hids hd).trans halong
  refine ⟨fun own hown => ?_, fun hnone => ?_⟩
  · rw [triggerAlong, hown] at htrigger
    exact ⟨htrigger, fun hunknown => htrigger.trans (renderData_unknown _ hunknown)⟩
  · rcases ownBinding?_declares (m := r.markers) (hhas a (by simp)) with
      ⟨e, own, he, hown, hbinding⟩ | ⟨hmarkers, -⟩
    · rw [triggerAlong_bound hnone hbinding hfirst] at htrigger
      exact ⟨e, own, he, hown, htrigger, fun hunknown => htrigger.trans (run_unknown hunknown)⟩
    · rcases ha with ha | ⟨e, he, ha⟩
      · rw [hnone] at ha
        cases ha
      · obtain ⟨hpost, hget⟩ := hmarkers e he
        rw [hpost, hget] at ha
        simp at ha

open Classical in
/-- **Every event is delegated to the nearest binding.** -/
theorem delegated (hw : r.page.tree.WellFormed) (hid : r.page.tree.Has id) : r.Delegated id := by
  obtain ⟨ids, hids, hmem⟩ := Tree.ancestorsOrSelf_ok hw hid
  cases hfind : ids.find? (fun x => decide (r.Binds x)) with
  | none =>
    have hnone : ∀ x ∈ ids, ¬ r.Binds x := by simpa using List.find?_eq_none.1 hfind
    have hhas : ∀ x ∈ ids, r.page.tree.Has x := fun x hx =>
      Tree.has_of_within hw hid ((hmem x).1 hx)
    obtain ⟨d, hd⟩ := firstBinding?_ok r.markers hhas
    rw [← List.append_nil ids] at hd hids
    obtain ⟨-, halong⟩ := triggerAlong_append
      (fun y hy => silent_of_not_binds (hhas y hy) (hnone y hy)) hd
    exact .inl ⟨fun x hx => hnone x ((hmem x).2 hx), (trigger_eq hids hd).trans halong⟩
  | some a =>
    obtain ⟨ha, below, above, rfl, hbelow⟩ := List.find?_eq_some_iff_append.1 hfind
    have ha : r.Binds a := of_decide_eq_true ha
    have hbelow : ∀ x ∈ below, ¬ r.Binds x := by simpa using hbelow
    have hnear := nearest_of_first hw hid hids ha hbelow
    exact .inr ⟨a, hnear, fun x hx => hnear.unique hx, answers_of_first hw hid hids ha hbelow⟩

end

/-! ## Compaction -/

/-- Nodes bind just as before. -/
theorem binds_of_same (hm : s.markers = r.markers)
    (hd : s.page.ownData.lookup b = r.page.ownData.lookup a)
    (hn : s.page.tree.contentOf b = r.page.tree.contentOf a) : s.Binds b ↔ r.Binds a := by
  rw [Binds, Binds, hd, hn, hm]

/-- In a runner that has not changed, a node has its own nearest binding. -/
theorem Delegation.refl (r : Runner σ γ) (id : NodeId) : Delegation r r some id id :=
  ⟨fun a ha => ⟨a, rfl, ha, rfl, rfl⟩, fun h => h⟩

/-- Two delegations in a row are one. -/
theorem Delegation.trans {mid : NodeId} (h : Delegation r s f id mid)
    (h' : Delegation s u g mid id') : Delegation r u (fun x => (f x).bind g) id id' := by
  refine ⟨fun a ha => ?_, fun hnone => h'.unbound (h.unbound hnone)⟩
  obtain ⟨b, hb, hnear, hd, hn⟩ := h.nearest a ha
  obtain ⟨c, hc, hnear', hd', hn'⟩ := h'.nearest b hnear
  exact ⟨c, by rw [hb, Option.bind_some, hc], hnear', hd'.trans hd, hn'.trans hn⟩

/-- **Compaction keeps the nearest binding** of each node that is in the page. -/
theorem Delegation.compact (hp : r.page.Linked) (hc : r.page.compact = .ok (c, new))
    (hid : new.get? id = some id') :
    c.Linked ∧ c.tree.Has id' ∧ Delegation r (r.on c) new.get? id id' := by
  obtain ⟨c', d, new', hc', hlinked, h⟩ := hp.tidiesTo
  obtain ⟨rfl, rfl⟩ := Prod.mk.inj (Except.ok.inj (hc.symm.trans hc'))
  have ht := h.tree
  obtain ⟨hlive, rfl⟩ := ht.live_of_get? hid
  have hrooted := ht.rooted
  have hrooted' := ht.compacted_rooted
  have hdata : ∀ x, r.page.tree.Within root x →
      c.ownData.lookup (placeIn d x) = r.page.ownData.lookup x := fun x hx => by
    rw [h.ownData, lookup_renumberData ht hx]
  have hbinds : ∀ x, r.page.tree.Within root x → ((r.on c).Binds (placeIn d x) ↔ r.Binds x) :=
    fun x hx => binds_of_same rfl (hdata x hx) (ht.renamed.content x hx)
  -- What is on the way up in the compacted page was on the way up before.
  have hup : ∀ y, c.tree.Within y (placeIn d id) →
      ∃ x, r.page.tree.Within root x ∧ r.page.tree.Within x id ∧ placeIn d x = y := fun y hy => by
    obtain ⟨x, hx, rfl⟩ := ht.renamed.exists_within hrooted hrooted'
      (hrooted'.within_of_within (ht.within hlive) hy)
    exact ⟨x, hx, (ht.renamed.within_iff hrooted hrooted' hx hlive).1 hy, rfl⟩
  refine ⟨hlinked, hrooted'.within_has (ht.within hlive), fun a ha => ?_, fun hnone y hy => ?_⟩
  · have hal := hrooted.within_of_within hlive ha.within
    refine ⟨placeIn d a, ht.get?_live hal,
      ⟨(ht.renamed.within_iff hrooted hrooted' hal hlive).2 ha.within, (hbinds a hal).2 ha.binds,
        fun y hy hay => ?_⟩, hdata a hal, ht.renamed.content a hal⟩
    obtain ⟨x, hx, hxid, rfl⟩ := hup y hy
    rw [hbinds x hx]
    rcases (ht.renamed.within_iff hrooted hrooted' hal hx).1 hay.within with rfl | hax
    · exact absurd hay (hrooted'.wellFormed.acyclic _)
    · exact ha.first x hxid hax
  · obtain ⟨x, hx, hxid, rfl⟩ := hup y hy
    rw [hbinds x hx]
    exact hnone x hxid

/-- **Any number of compactions** keeps the nearest binding. -/
theorem Delegation.compactions (hp : p.Linked) (hid : p.tree.Has id) (h : Compactions p f c) :
    c.Linked ∧ ∀ id', f id = some id' →
      c.tree.Has id' ∧ Delegation (r.on p) (r.on c) f id id' := by
  induction h with
  | none =>
    refine ⟨hp, fun id' hf => ?_⟩
    obtain rfl := Option.some.inj hf
    exact ⟨hid, .refl _ _⟩
  | @next f q c new _ hc ih =>
    obtain ⟨hq, ih⟩ := ih
    obtain ⟨c', new', hc', hsound, -⟩ := LivePage.compact_sound hq
    obtain ⟨rfl, rfl⟩ := Prod.mk.inj (Except.ok.inj (hc.symm.trans hc'))
    refine ⟨hsound.toLinked, fun id' hf => ?_⟩
    obtain ⟨mid, hmid, hnew⟩ := Option.bind_eq_some_iff.1 hf
    obtain ⟨-, hdelegation⟩ := ih mid hmid
    obtain ⟨-, hhas, hstep⟩ := Delegation.compact (r := r.on q) hq hc hnew
    exact ⟨hhas, hdelegation.trans hstep⟩

/-! ## Runners that a page leads to -/

/-- What a runner passes while it puts an output in is in order. -/
theorem linked_of_passes (h : r.page.Linked) (hp : r.Passes p) : p.Linked := by
  rcases hp with rfl | ⟨template, target, content, nodes, hw, hroot, hfill⟩
  · exact h
  · obtain ⟨b, htop, hb⟩ := hw.exists_holds hroot
    exact LivePage.fill_linked h hw hb htop template target hfill

/-- Putting an output in ends at a page that is passed, or at what compaction makes of it. -/
theorem exists_passes {template : String} {target : Option String} {content : Tree}
    {nodes : List NodeId} (h : r.page.Linked) (hw : content.WellFormed) (hroot : content.Has root)
    (hc : r.page.fillTidily template target content = .ok (c, nodes)) :
    ∃ p f, r.Passes p ∧ Compactions p f c := by
  cases hfill : r.page.fill template target content with
  | error e =>
    rw [LivePage.fillTidily, hfill] at hc
    cases hc
  | ok filled =>
    obtain ⟨q, placed⟩ := filled
    have hpass : r.Passes q := .inr ⟨template, target, content, placed, hw, hroot, hfill⟩
    rcases LivePage.fillTidily_eq (linked_of_passes h hpass) hfill with he | ⟨d, new, hd, he⟩
    · obtain ⟨rfl, -⟩ := Prod.mk.inj (Except.ok.inj (hc.symm.trans he))
      exact ⟨c, some, hpass, .none⟩
    · obtain ⟨rfl, -⟩ := Prod.mk.inj (Except.ok.inj (hc.symm.trans he))
      exact ⟨q, _, hpass, .next .none hd⟩

variable [Source σ] [Cache γ]

/-- **An event is delegated to the nearest binding.**  Whatever has been asked of a runner of a
well-formed page, an event on a node does nothing if no node from there on up has data or a
request; otherwise it does what the first of these says, and nothing else, also if that names no
template that there is.  Data comes before a request on the same node.

This stays so however often the page is compacted, be it as it is or with an output just put in,
which is when it is compacted if that crowds it.  An event on a node that is still there does what
its nearest binding says, which is the one from before under its new number. -/
theorem trigger_delegates (page : Tree) (m : Markers) (r : Runner σ γ) (hw : page.WellFormed)
    (hc : page.contentOf root = some .fragment) (hp : page.parentOf root = none)
    (hr : Reachable page m r) :
    (∀ id, r.page.tree.Has id → r.Delegated id) ∧
      (∀ template target (content : Tree) c nodes, content.WellFormed → content.Has root →
        r.page.fillTidily template target content = .ok (c, nodes) →
          ∃ p f, r.Passes p ∧ Compactions p f c) ∧
      ∀ (p c : LivePage) (f : NodeId → Option NodeId) (id id' : NodeId), r.Passes p →
        Compactions p f c → p.tree.Has id → f id = some id' →
          (r.on c).Delegated id' ∧ Delegation (r.on p) (r.on c) f id id' := by
  have hl := (reachable_tended (LivePage.linked_ofPage hw hc hp) hr).page
  refine ⟨fun id hid => delegated hl.wellFormed hid, fun _ _ _ _ _ hw hroot => exists_passes hl hw hroot,
    fun p c f id id' hpass hcompact hid hf => ?_⟩
  obtain ⟨hlc, hall⟩ :=
    Delegation.compactions (r := r) (linked_of_passes hl hpass) hid hcompact
  obtain ⟨hid', hdelegation⟩ := hall id' hf
  exact ⟨delegated hlc.wellFormed hid', hdelegation⟩

/-- In an element with data there is a button whose request names no known template.  After the
page is compacted, an event inside the button still comes to nothing but a notice. -/
theorem trigger_delegates_of_button :
    let e : Element := ⟨"button", [("jx-get", "/x"), ("jx-template", "nope")]⟩
    let page := Tree.ofDocuments [.node (.element ⟨"template", [("id", "t")]⟩)
        [.node (.element ⟨"b", []⟩) []],
      .node (.element ⟨"main", [("id", "m")]⟩) [.node (.element e) [.node (.text "Load") []]]]
    ∃ (r : Runner Fetch.Canned Cache.Memory) (c : LivePage) (new : Renumbering), page.WellFormed ∧
      page.contentOf root = some .fragment ∧ page.parentOf root = none ∧
      Reachable page .standard r ∧ (r.page.ownData.lookup ⟨3⟩).isSome = true ∧
      r.Nearest ⟨5⟩ ⟨4⟩ ∧ r.page.compact = .ok (c, new) ∧ new.get? ⟨5⟩ = some ⟨4⟩ ∧
      (c.ownData.lookup ⟨2⟩).isSome = true ∧ (r.on c).Nearest ⟨4⟩ ⟨3⟩ ∧
      (r.on c).trigger ⟨4⟩ =
        ((r.on c).report (.noTemplate "GET /x" (some "nope")), .ok .noTemplate) := by
  intro e page
  have hw : page.WellFormed := Tree.ofDocuments_wellFormed _
  have hc : page.contentOf root = some .fragment := Tree.contentOf_ofDocuments _
  have hp : page.parentOf root = none := Tree.parentOf_ofDocuments _
  let data : Operation Fetch.Canned Cache.Memory := .setUp "m" ⟨none, .get, "t", none, some .null⟩
  let fill : Operation Fetch.Canned Cache.Memory := .renderData "t" .null
  obtain ⟨r₀, hr, hm, hmain, hbutton, htext, htemplate, hparent, he, hn, hcompacted⟩ : ∃ r₀,
      ofPage page .standard Fetch.Canned.empty Cache.Memory.empty = .ok r₀ ∧
        let r := ((r₀.step data).1.step fill).1
        r.markers = .standard ∧ (r.page.ownData.lookup ⟨3⟩).isSome = true ∧
        (r.page.ownData.lookup ⟨4⟩).isSome = false ∧ (r.page.ownData.lookup ⟨5⟩).isSome = false ∧
        r.templates.contains "nope" = false ∧ r.page.tree.parentOf ⟨5⟩ = some ⟨4⟩ ∧
        r.page.tree.contentOf ⟨4⟩ = some (.element e) ∧
        r.page.tree.contentOf ⟨5⟩ = some (.text "Load") ∧
        r.page.compact.map (fun t => decide ((t.1.ownData.lookup ⟨2⟩).isSome = true ∧
          t.2.get? ⟨4⟩ = some ⟨3⟩ ∧ t.2.get? ⟨5⟩ = some ⟨4⟩)) = .ok true :=
    exists_of_map_decide (by decide +kernel)
  have hreach : Reachable page .standard ((r₀.step data).1.step fill).1 :=
    .step fill (.step data (.start _ _ hr) trivial) trivial
  generalize ((r₀.step data).1.step fill).1 = r at *
  obtain ⟨⟨c, new⟩, hcompact, hmain', h4, h5⟩ := exists_of_map_decide hcompacted
  obtain ⟨-, -, hall⟩ := trigger_delegates page .standard r hw hc hp hreach
  have htended := reachable_tended (LivePage.linked_ofPage hw hc hp) hreach
  have hacyclic := htended.page.wellFormed.acyclic
  have hnear : r.Nearest ⟨5⟩ ⟨4⟩ := by
    refine ⟨.inr (.parent hparent), .inr ⟨e, he, .inr (by rw [hm]; decide)⟩, fun x hx hax => ?_⟩
    rcases hx with rfl | hx
    · rintro (hdata | ⟨e', he', -⟩)
      · rw [htext] at hdata
        cases hdata
      · rw [hn] at he'
        cases he'
    · rcases hx.within_parent hparent with rfl | hx
      · exact absurd hax (hacyclic _)
      · exact absurd (hax.trans hx) (hacyclic _)
  obtain ⟨hdelegated, hkept⟩ := hall r.page c _ ⟨5⟩ ⟨4⟩ (.inl rfl) (.next .none hcompact)
    (Tree.has_of_parentOf hparent) h5
  obtain ⟨a, ha, hnear', hdata, hcontent⟩ := hkept.nearest ⟨4⟩ hnear
  obtain rfl := Option.some.inj (h4.symm.trans ha)
  refine ⟨r, c, new, hw, hc, hp, hreach, hmain, hnear, hcompact, h5, hmain', hnear', ?_⟩
  rcases hdelegated with ⟨hnone, -⟩ | ⟨a, -, hunique, hanswers⟩
  · exact absurd hnear'.binds (hnone _ hnear'.within)
  · obtain rfl := hunique _ hnear'
    obtain ⟨e', b, he', hb, -, hunknown⟩ := hanswers.markers (by
      rw [hdata]
      exact Option.not_isSome_iff_eq_none.1 (by simp [hbutton]))
    obtain rfl : e = e' := Node.element.inj (Option.some.inj ((hcontent.trans he).symm.trans he'))
    have hpost : e.get? Markers.standard.post = none := by decide
    have hget : e.get? Markers.standard.get = some "/x" := by decide
    rw [on_markers, hm] at hb
    have hb : b = ⟨⟨3⟩, .get, "/x", some "nope", none, none, "click"⟩ := by
      cases hb with
      | post h =>
        rw [hpost] at h
        cases h
      | get _ h =>
        obtain rfl := Option.some.inj (hget.symm.trans h)
        decide
    subst hb
    refine hunknown ?_
    rw [templateOf?, Option.filter_some, on_templates, htemplate]
    rfl

end Runner
end Page
end PageBinding
