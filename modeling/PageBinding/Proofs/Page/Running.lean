/-
# Runners stay sound

A runner is sound if its page is and if its templates are well-formed trees.  Each
operation keeps a runner sound, never fails with a fault, and gives nodes that the
page has afterwards (`step_fine`), whatever the requests bring and whatever the
cache does.  So does every run (`reachable_sound`).
-/

import PageBinding.Cache.Memory
import PageBinding.Fetch.Canned
import PageBinding.Proofs.Page.Operations
import PageBinding.Proofs.Page.Upkeep
import PageBinding.Proofs.Template.Binding

namespace PageBinding

open Html (Node Document)
open Json (Value)

namespace Page

open Fetch (Source)
open Template (Markers Collection)
open PageBinding.Tree (root)

variable {σ γ : Type}

namespace Runner

/-- A runner is sound. -/
structure Sound (r : Runner σ γ) : Prop where
  page : r.page.Sound
  templates : ∀ e ∈ r.templates.templates, e.2.WellFormed ∧ e.2.Has root

/-- **What an operation gives:** a sound runner, and a result that speaks of nodes
of its page or is a failure but no fault. -/
structure Fine {α : Type} (nodes : α → List NodeId) (s : Runner σ γ × Except Failure α) : Prop where
  sound : s.1.Sound
  result : Safe (fun a => ∀ x ∈ nodes a, s.1.page.tree.Has x) s.2

variable {r s : Runner σ γ} {α : Type} {nodes : α → List NodeId}

/-- A runner with the page and the templates of a sound one. -/
theorem Sound.congr (h : r.Sound) (hp : s.page = r.page) (ht : s.templates = r.templates) :
    s.Sound :=
  ⟨hp ▸ h.page, ht ▸ h.templates⟩

/-- A sound runner that fails with no fault is fine. -/
theorem Sound.fine_error (h : r.Sound) {e : Failure} (he : ∀ f, e ≠ .fault f) :
    Fine nodes (r, .error e) :=
  ⟨h, he⟩

/-- A result that speaks of no nodes. -/
theorem Sound.fine_ok (h : r.Sound) {a : α} (ha : nodes a = []) : Fine nodes (r, .ok a) :=
  ⟨h, fun x hx => by rw [ha] at hx; cases hx⟩

/-- Putting an output in is fine. -/
theorem put_fine (h : r.Sound) (template : String) (target : Option String) {content : Tree}
    (hc : content.WellFormed) (hr : content.Has root) :
    Fine id (r.put template target content) := by
  obtain ⟨a, htop, ha⟩ := hc.exists_holds hr
  have hs := LivePage.fillTidily_safe h.page.toLinked template target hc ha htop
  rw [put]
  cases hfill : r.page.fillTidily template target content with
  | error e =>
    rw [hfill] at hs
    exact h.fine_error hs
  | ok filled =>
    rw [hfill] at hs
    exact ⟨⟨hs.1, h.templates⟩, hs.2⟩

/-- Filling a template is fine. -/
theorem fill_fine (h : r.Sound) (template : String) (target : Option String) (data : Value) :
    Fine Outcome.nodes (r.fill template target data) := by
  rw [fill, Collection.render?, Collection.get?]
  cases ht : r.templates.templates.lookup template with
  | none => exact h.fine_ok rfl
  | some tree =>
    obtain ⟨hw, hroot⟩ := h.templates _ (LivePage.mem_of_lookup ht)
    obtain ⟨out, notices, a, hout, hwo, ha, htop⟩ :=
      Template.render_rooted hw hroot data r.templates.markers
    dsimp only
    rw [hout]
    have hp := put_fine (r := r.reportAll notices) (h.congr rfl rfl) template target hwo
      (htop ▸ ha.has_top)
    revert hp
    simp only [ok_bind, pure_eq_ok]
    cases (r.reportAll notices).put template target out with
    | mk s result =>
      cases result with
      | error e => exact fun hp => ⟨hp.sound, hp.result⟩
      | ok ids => exact fun hp => ⟨hp.sound, hp.result⟩

/-- Rendering a template with data is fine. -/
theorem renderData_fine (h : r.Sound) (template : String) (data : Value) :
    Fine Outcome.nodes (r.renderData template data) :=
  fill_fine h template none data

/-- The tree of an error message is well-formed and has a root. -/
theorem errorContent_rooted (message : String) :
    (errorContent message).WellFormed ∧ (errorContent message).Has root :=
  ⟨Tree.ofDocuments_wellFormed _, Tree.has_iff_contentOf.2 ⟨_, Tree.contentOf_ofDocuments _⟩⟩

variable [Source σ] [Cache γ]

/-- Requesting and keeping data changes neither the page nor the templates. -/
theorem obtainData_keeps (r : Runner σ γ) (b : Binding) :
    (r.obtainData b).1.page = r.page ∧ (r.obtainData b).1.templates = r.templates := by
  rw [obtainData]
  cases r.request b with
  | error why => exact ⟨rfl, rfl⟩
  | ok data =>
    cases b.save with
    | none => exact ⟨rfl, rfl⟩
    | some key =>
      dsimp only
      cases Cache.set r.cache key data.render with
      | mk cache result => cases result <;> exact ⟨rfl, rfl⟩

/-- Running a binding is fine. -/
theorem run_fine (h : r.Sound) (b : Binding) : Fine Outcome.nodes (r.run b) := by
  rw [run]
  cases r.templateOf? b with
  | none => exact ⟨h.congr rfl rfl, nofun⟩
  | some template =>
    dsimp only
    obtain ⟨hp, ht⟩ := obtainData_keeps (r.report (.loading b.request)) b
    cases hd : (r.report (.loading b.request)).obtainData b with
    | mk s result =>
      rw [hd] at hp ht
      have hs : s.Sound := h.congr hp ht
      cases result with
      | error why =>
        dsimp only
        have hput := put_fine (r := s.report (.loadFailed b.request why.message)) (hs.congr rfl rfl)
          template b.target (errorContent_rooted why.message).1 (errorContent_rooted why.message).2
        revert hput
        cases (s.report (.loadFailed b.request why.message)).put template b.target
          (errorContent why.message) with
        | mk u result =>
          cases result with
          | error e => exact fun hput => ⟨hput.sound, hput.result⟩
          | ok _ => exact fun hput => hput.sound.fine_ok rfl
      | ok data =>
        dsimp only
        have hfill := fill_fine hs template b.target data
        revert hfill
        cases s.fill template b.target data with
        | mk u result =>
          cases result with
          | error e => exact fun hfill => ⟨hfill.sound, hfill.result⟩
          | ok outcome => exact fun hfill => ⟨hfill.sound.congr rfl rfl, hfill.result⟩

/-- An event that goes up through nodes is fine. -/
theorem triggerAlong_fine (h : r.Sound) (b : Option Binding) (ids : List NodeId) :
    Fine Outcome.nodes (r.triggerAlong b ids) := by
  induction ids with
  | nil => exact h.fine_ok rfl
  | cons id ids ih =>
    rw [triggerAlong]
    cases r.page.ownData.lookup id with
    | some d => exact renderData_fine h d.template d.data
    | none =>
      dsimp only
      cases b.filter (·.element = id) with
      | some own => exact run_fine h own
      | none => exact ih

omit [Source σ] [Cache γ] in
/-- Looking for a binding among nodes of the page. -/
theorem firstBinding?_ok {page : Tree} (m : Markers) {ids : List NodeId}
    (h : ∀ x ∈ ids, page.Has x) : ∃ b, firstBinding? page m ids = .ok b := by
  induction ids with
  | nil => exact ⟨none, rfl⟩
  | cons x ids ih =>
    obtain ⟨n, hn⟩ := Tree.has_iff_contentOf.1 (h x (List.mem_cons_self ..))
    obtain ⟨own, hown⟩ : ∃ own, ownBinding? page m x = .ok own := by
      rw [ownBinding?, Tree.element?_ok hn, ok_bind]
      cases n.element? with
      | none => exact ⟨none, rfl⟩
      | some e =>
        dsimp only
        cases requestOf? m e with
        | none => exact ⟨none, rfl⟩
        | some request => exact ⟨_, rfl⟩
    rw [firstBinding?, hown, ok_bind]
    cases own with
    | some b => exact ⟨some b, rfl⟩
    | none => exact ih fun y hy => h y (List.mem_cons_of_mem _ hy)

omit [Source σ] [Cache γ] in
/-- The binding that an event on a node runs is the first one on the way up. -/
theorem nearestBinding?_eq {page : Tree} {id : NodeId} {ids : List NodeId}
    (hids : page.ancestorsOrSelf id = .ok ids) (m : Markers) :
    nearestBinding? page m id = firstBinding? page m ids := by
  rw [nearestBinding?, hids, ok_bind]

/-- An event goes the way up from its node. -/
theorem trigger_eq {id : NodeId} {ids : List NodeId} {b : Option Binding}
    (hids : r.page.tree.ancestorsOrSelf id = .ok ids)
    (hb : firstBinding? r.page.tree r.markers ids = .ok b) : r.trigger id = r.triggerAlong b ids := by
  rw [trigger, nearestBinding?_eq hids, hids, hb]

/-- An event on a node of the page is fine. -/
theorem trigger_fine (h : r.Sound) {id : NodeId} (hid : r.page.tree.Has id) :
    Fine Outcome.nodes (r.trigger id) := by
  have hw := h.page.wellFormed
  obtain ⟨ids, hids, hmem⟩ := Tree.ancestorsOrSelf_ok hw hid
  have hhas : ∀ x ∈ ids, r.page.tree.Has x := fun x hx =>
    Tree.has_of_within hw hid ((hmem x).1 hx)
  obtain ⟨b, hb⟩ := firstBinding?_ok r.markers hhas
  exact trigger_eq hids hb ▸ triggerAlong_fine h b ids

omit [Source σ] in
/-- Rendering what is kept under a key is fine. -/
theorem renderKept_fine (h : r.Sound) (key template : String) :
    Fine (fun _ => []) (r.renderKept key template) := by
  rw [renderKept]
  cases Cache.get r.cache key with
  | error why => exact h.fine_error nofun
  | ok kept =>
    cases kept with
    | none => exact h.fine_ok rfl
    | some text =>
      dsimp only
      cases Json.parse text with
      | error why => exact h.fine_error nofun
      | ok data =>
        dsimp only
        have hfill := renderData_fine h template data
        revert hfill
        cases r.renderData template data with
        | mk s result =>
          cases result with
          | error e => exact fun hfill => ⟨hfill.sound, hfill.result⟩
          | ok _ => exact fun hfill => hfill.sound.fine_ok rfl

omit [Source σ] [Cache γ] in
/-- The element of a selector is a node of a sound page. -/
theorem selected?_ok {p : LivePage} (h : p.Linked) (selector : String) :
    ∃ found, selected? p.tree selector = .ok found ∧ ∀ x, found = some x → p.tree.Has x := by
  obtain ⟨a, htop, ha⟩ := h.exists_root
  have hfind := Tree.findById?_ok h.wellFormed ha htop (selectedId selector)
  refine ⟨_, hfind, fun x hx => ?_⟩
  rw [hx] at hfind
  obtain ⟨-, n, hn, -⟩ := Tree.findById?_eq_some h.wellFormed ha htop hfind
  exact Tree.has_iff_contentOf.2 ⟨n, hn⟩

omit [Source σ] [Cache γ] in
/-- Contents of elements may change in a page. -/
theorem linked_of_setContent {p : LivePage} {t : Tree} {id : NodeId} {e : Html.Element} {n : Node}
    (h : p.Linked) (he : p.tree.contentOf id = some n) (hn : n.element? = some e) (e' : Html.Element)
    (ht : p.tree.setContent id (.element e') = .ok t) : ({ p with tree := t } : LivePage).Linked := by
  obtain ⟨u, hu, hs, hcon, hpar, hch⟩ :=
    Tree.setContent_ok (Tree.has_iff_contentOf.2 ⟨n, he⟩) (.element e')
  obtain rfl := Except.ok.inj (ht.symm.trans hu)
  have hne : id ≠ root := by
    rintro rfl
    rw [h.root_content] at he
    rw [← Option.some.inj he] at hn
    cases hn
  have hroot : t.contentOf root = some .fragment := by
    rw [hcon, if_neg (Ne.symm hne), h.root_content]
  exact h.with_tree (h.wellFormed.of_links hs hpar hch) hs.ge hroot ((hpar _).trans h.root_parent)

omit [Source σ] [Cache γ] in
/-- Contents of elements may change in a sound page. -/
theorem sound_of_setContent {p : LivePage} {t : Tree} {id : NodeId} {e : Html.Element} {n : Node}
    (h : p.Sound) (he : p.tree.contentOf id = some n) (hn : n.element? = some e) (e' : Html.Element)
    (ht : p.tree.setContent id (.element e') = .ok t) : ({ p with tree := t } : LivePage).Sound := by
  obtain ⟨u, hu, hs, -, hpar, -⟩ :=
    Tree.setContent_ok (Tree.has_iff_contentOf.2 ⟨n, he⟩) (.element e')
  obtain rfl := Except.ok.inj (ht.symm.trans hu)
  have hlinked := linked_of_setContent h.toLinked he hn e' ht
  have hw : t.WellFormed := hlinked.wellFormed
  -- The same nodes are live as before.
  obtain ⟨a, htop, ha⟩ := h.toLinked.exists_root
  obtain ⟨b, hbtop, hb⟩ := hlinked.exists_root
  have hlen : b.ids.length ≤ a.ids.length ∧ a.ids.length ≤ b.ids.length := by
    have habove : ∀ {x y}, t.Above x y ↔ p.tree.Above x y :=
      ⟨fun h => h.mono fun c q hc => (hpar c) ▸ hc, fun h => h.mono fun c q hc => (hpar c).symm ▸ hc⟩
    have hsub : ∀ x, x ∈ b.ids ↔ x ∈ a.ids := fun x => by
      rw [hb.mem_ids hw, ha.mem_ids h.wellFormed, hbtop, htop, Tree.Within, Tree.Within, habove]
    exact ⟨((hb.ids_nodup hw).subperm fun x hx => (hsub x).1 hx).length_le,
      ((ha.ids_nodup h.wellFormed).subperm fun x hx => (hsub x).2 hx).length_le⟩
  obtain ⟨live, hlive, hroomy⟩ := h.roomy
  have hl := Tree.liveSize_ok h.wellFormed ha htop
  rw [hlive] at hl
  refine ⟨hlinked, _, Tree.liveSize_ok hw hb hbtop, ?_⟩
  rw [Except.ok.inj hl] at hroomy
  rw [hs]
  omega

omit [Source σ] [Cache γ] in
/-- **Setting up a binding keeps a runner sound.** -/
theorem setUp_fine (h : r.Sound) (selector : String) (s : Setup) :
    Fine (fun _ => []) (r.setUp selector s) := by
  obtain ⟨found, hfound, hhas⟩ := selected?_ok h.page.toLinked selector
  rw [setUp, hfound]
  cases found with
  | none => exact h.fine_ok rfl
  | some x =>
    obtain ⟨n, hn⟩ := Tree.has_iff_contentOf.1 (hhas x rfl)
    dsimp only
    rw [pageWith]
    cases hdata : s.data with
    | some data =>
      refine ⟨⟨⟨⟨h.page.wellFormed, h.page.root_content, h.page.root_parent, h.page.places,
        fun e he => ?_⟩, h.page.roomy⟩, h.templates⟩, nofun⟩
      rcases LivePage.mem_set he with rfl | he
      · exact hhas x rfl
      · exact h.page.ownData e he
    | none =>
      cases hurl : s.url with
      | none => exact h.fine_error nofun
      | some url =>
        dsimp only
        rw [Setup.apply, hdata, hurl, Tree.element?_ok hn]
        cases he : n.element? with
        | none => exact ⟨h.congr rfl rfl, nofun⟩
        | some e =>
          obtain ⟨u, hu, -⟩ := Tree.setContent_ok (hhas x rfl) (.element (s.writeOn r.markers url e))
          have hsound := sound_of_setContent h.page hn he _ hu
          simp only [Option.isSome_none, Bool.false_eq_true, if_false, ok_bind, hu]
          exact ⟨⟨hsound, h.templates⟩, nofun⟩

/-- Starting a binding is fine. -/
theorem start_fine (h : r.Sound) (selector : String) (s : Setup) :
    Fine Outcome.nodes (r.start selector s) := by
  have hset := setUp_fine h selector s
  revert hset
  rw [start]
  cases r.setUp selector s with
  | mk u result =>
    intro hset
    cases result with
    | error e => exact ⟨hset.sound, hset.result⟩
    | ok found =>
      cases found with
      | false => exact hset.sound.fine_error nofun
      | true =>
        obtain ⟨x?, hx, hhas⟩ := selected?_ok hset.sound.page.toLinked selector
        dsimp only
        rw [hx]
        cases x? with
        | none => exact hset.sound.fine_error nofun
        | some x => exact trigger_fine hset.sound (hhas x rfl)

omit [Source σ] [Cache γ] in
/-- An operation stays fine when its outcome is reported. -/
theorem Fine.withOutcome {s : Runner σ γ × Except Failure Outcome} (h : Fine Outcome.nodes s) :
    Fine (fun o => (o.map Outcome.nodes).getD []) (withOutcome s) := by
  obtain ⟨u, result⟩ := s
  cases result with
  | error e => exact ⟨h.sound, h.result⟩
  | ok o => exact ⟨h.sound, h.result⟩

omit [Source σ] [Cache γ] in
/-- An operation stays fine when its value is dropped. -/
theorem Fine.withoutValue {s : Runner σ γ × Except Failure α} (h : Fine nodes s) :
    Fine (fun o : Option Outcome => (o.map Outcome.nodes).getD []) (withoutValue s) := by
  obtain ⟨u, result⟩ := s
  cases result with
  | error e => exact ⟨h.sound, h.result⟩
  | ok _ => exact h.sound.fine_ok rfl

/-- **Every operation keeps a runner sound.** -/
theorem step_fine (h : r.Sound) {op : Operation σ γ} (hop : r.Admits op) :
    Fine (fun o => (o.map Outcome.nodes).getD []) (r.step op) := by
  cases op with
  | renderData template data => exact (renderData_fine h template data).withOutcome
  | renderKept key template => exact (renderKept_fine h key template).withoutValue
  | run b => exact (run_fine h b).withOutcome
  | trigger id => exact (trigger_fine h hop).withOutcome
  | setUp selector s => exact (setUp_fine h selector s).withoutValue
  | start selector s => exact (start_fine h selector s).withOutcome
  | surround source cache => exact ⟨h.congr rfl rfl, nofun⟩

omit [Source σ] [Cache γ] in
/-- The templates of a page are collected, and are well-formed trees. -/
theorem ofPage_templates {page : Tree} (h : (LivePage.ofPage page).Linked) (m : Markers) :
    ∃ c, Collection.ofPage page m = .ok c ∧ ∀ e ∈ c.templates, e.2.WellFormed ∧ e.2.Has root := by
  obtain ⟨a, htop, ha⟩ := h.exists_root
  have hw : page.WellFormed := h.wellFormed
  obtain ⟨c, hc, -, hfrom⟩ := Collection.ofPage_collected hw ha htop m
  refine ⟨c, hc, fun e he => ?_⟩
  obtain ⟨b, -, -, he⟩ := hfrom e he
  rw [he]
  exact ⟨Tree.ofDocuments_wellFormed _,
    Tree.has_iff_contentOf.2 ⟨_, Tree.contentOf_ofDocuments _⟩⟩

omit [Source σ] [Cache γ] in
/-- A runner can be made of a sound page, and is sound. -/
theorem ofPage_sound {page : Tree} (h : (LivePage.ofPage page).Sound) (m : Markers) (source : σ)
    (cache : γ) : ∃ r, ofPage page m source cache = .ok r ∧ r.Sound := by
  obtain ⟨c, hc, htemplates⟩ := ofPage_templates h.toLinked m
  exact ⟨⟨.ofPage page, c, source, cache, #[]⟩, by rw [ofPage, hc]; rfl, h, htemplates⟩

/-- **Every runner that a sound page leads to is sound.** -/
theorem reachable_sound {page : Tree} {m : Markers} (h : (LivePage.ofPage page).Sound)
    (hr : Reachable page m r) : r.Sound := by
  induction hr with
  | start source cache hr =>
    obtain ⟨s, hs, hsound⟩ := ofPage_sound h m source cache
    exact Except.ok.inj (hr.symm.trans hs) ▸ hsound
  | step op _ hop ih => exact (step_fine ih hop).sound

/-- **Whatever is asked of a runner, its page stays sound.**  Of a well-formed page
with a parentless fragment at its root and not too many detached nodes a runner can
be made.  After any operations, whatever each of them gives, its page is of that
kind again and has the nodes of all places and the elements of all data that it
remembers; and no operation fails with a fault or speaks of nodes that the page
does not have afterwards. -/
theorem page_stays_sound (page : Tree) (m : Markers) (source : σ) (cache : γ)
    (hw : page.WellFormed) (hc : page.contentOf root = some .fragment)
    (hp : page.parentOf root = none)
    (hroom : ∃ live, page.liveSize = .ok live ∧ page.size ≤ 2 * live + tolerance) :
    (∃ r, ofPage page m source cache = .ok r) ∧
      ∀ r : Runner σ γ, Reachable page m r → r.page.Sound ∧
        ∀ op, r.Admits op → (∀ f, (r.step op).2 ≠ .error (.fault f)) ∧
          ∀ template nodes, (r.step op).2 = .ok (some (.rendered template nodes)) →
            ∀ x ∈ nodes, (r.step op).1.page.tree.Has x := by
  have hpage : (LivePage.ofPage page).Sound := ⟨LivePage.linked_ofPage hw hc hp, hroom⟩
  refine ⟨?_, fun r hr => ?_⟩
  · obtain ⟨r, hr, -⟩ := ofPage_sound hpage m source cache
    exact ⟨r, hr⟩
  · have hsound := reachable_sound hpage hr
    refine ⟨hsound.page, fun op hop => ?_⟩
    have hfine := (step_fine hsound hop).result
    refine ⟨fun f hf => ?_, fun template nodes ho x hx => ?_⟩
    · rw [hf] at hfine
      exact hfine f rfl
    · rw [ho] at hfine
      exact hfine x hx

/-- A page with a template and an element whose event fills it. -/
theorem page_stays_sound_of_template :
    let page := Tree.ofDocuments
      [.node (.element ⟨"template", [("id", "t")]⟩) [.node (.element ⟨"p", [("jx-each", ".")]⟩) []],
        .node (.element ⟨"a", [("jx-get", "data"), ("jx-template", "t")]⟩) []]
    page.WellFormed ∧ page.contentOf root = some .fragment ∧ page.parentOf root = none ∧
      (∃ live, page.liveSize = .ok live ∧ page.size ≤ 2 * live + tolerance) ∧
      (∃ r : Runner Fetch.Canned Cache.Memory, ofPage page .standard .empty .empty = .ok r) ∧
        ∀ r : Runner Fetch.Canned Cache.Memory, Reachable page .standard r → r.page.Sound ∧
          ∀ op, r.Admits op → (∀ f, (r.step op).2 ≠ .error (.fault f)) ∧
            ∀ template nodes, (r.step op).2 = .ok (some (.rendered template nodes)) →
              ∀ x ∈ nodes, (r.step op).1.page.tree.Has x :=
  ⟨Tree.ofDocuments_wellFormed _, Tree.contentOf_ofDocuments _, Tree.parentOf_ofDocuments _,
    LivePage.roomy_ofDocuments _,
    page_stays_sound _ _ _ _ (Tree.ofDocuments_wellFormed _) (Tree.contentOf_ofDocuments _)
      (Tree.parentOf_ofDocuments _) (LivePage.roomy_ofDocuments _)⟩

end Runner
end Page
end PageBinding
