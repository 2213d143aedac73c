/-
# What can be seen of compaction

What is asked of a runner may name elements by selectors and never by number (`Request`).
What can be seen of that is a report, in which the nodes of an output are only counted, the
text of the page, and the cache (`Runner.record`).

| seen | before and after compaction |
| --- | --- |
| an output for an element, or for a steady place | the same |
| an output for a place whose parent is gone | reported, but not in the page; or refused |
| an output for a place of which a part is gone | in different spots |
| everything else | the same |

So a runner whose page has been compacted gives the same record as before, as long as each
output goes to an element or to a steady place in the one run and in the other
(`compaction_unobserved`).  Otherwise it may give a different one (`compaction_observed`).
-/

import PageBinding.Proofs.Page.Tidying

namespace PageBinding
namespace Page

open Fetch (Source)
open Json (Value)
open Template (Markers Collection)
open PageBinding.Tree (root placeIn)

variable {σ γ : Type}

/-- One thing that is asked of a runner, without numbers of nodes.  What a binding says about
its element plays no part when it is run. -/
inductive Request (σ γ : Type)
  | renderData (template : String) (data : Value)
  | renderKept (key template : String)
  | run (b : Binding)
  /-- An event on the element of a selector. -/
  | trigger (selector : String)
  | setUp (selector : String) (s : Setup)
  | start (selector : String) (s : Setup)
  /-- Another source and another cache. -/
  | surround (source : σ) (cache : γ)

/-- What is reported of a request that does not fail. -/
inductive Report
  /-- The template was filled, with so many nodes. -/
  | rendered (template : String) (count : Nat)
  | failed (template message : String)
  | noBinding
  | noTemplate
  /-- Whether there was anything to do. -/
  | said (answer : Bool)
  | done
  deriving DecidableEq, Repr

def Outcome.report : Outcome → Report
  | .rendered template nodes => .rendered template nodes.length
  | .failed template message => .failed template message
  | .noBinding => .noBinding
  | .noTemplate => .noTemplate

/-- The result of an operation with a report in place of its value. -/
def reported {α : Type} (f : α → Report) :
    Runner σ γ × Except Failure α → Runner σ γ × Except Failure Report
  | (r, result) => (r, result.map f)

/-- What can be seen once a request has been answered. -/
structure Seen (γ : Type) where
  report : Except Failure Report
  page : Except Fault String
  cache : γ

/-- The binding with the number of its element changed. -/
def Binding.renumber (f : NodeId → NodeId) (b : Binding) : Binding := { b with element := f b.element }

namespace Runner

section
variable [Source σ] [Cache γ]

/-- What a request makes of a runner, and the report. -/
def ask (r : Runner σ γ) : Request σ γ → Runner σ γ × Except Failure Report
  | .renderData template data => reported Outcome.report (r.renderData template data)
  | .renderKept key template => reported .said (r.renderKept key template)
  | .run b => reported Outcome.report (r.run b)
  | .trigger selector =>
    match selected? r.page.tree selector with
    | .error f => (r, .error (.fault f))
    | .ok none => (r, .error (.noElement selector))
    | .ok (some id) => reported Outcome.report (r.trigger id)
  | .setUp selector s => reported .said (r.setUp selector s)
  | .start selector s => reported Outcome.report (r.start selector s)
  | .surround source cache => ({ r with source := source, cache := cache }, .ok .done)

/-- What can be seen of some requests, one after the other. -/
def record (r : Runner σ γ) : List (Request σ γ) → List (Seen γ)
  | [] => []
  | q :: qs =>
    ⟨(r.ask q).2, (r.ask q).1.page.tree.html, (r.ask q).1.cache⟩ :: (r.ask q).1.record qs

/-- The operation that a request comes to; `none` where its element is not in the page. -/
def operation? (r : Runner σ γ) : Request σ γ → Option (Operation σ γ)
  | .renderData template data => some (.renderData template data)
  | .renderKept key template => some (.renderKept key template)
  | .run b => some (.run b)
  | .trigger selector =>
    match selected? r.page.tree selector with
    | .ok (some id) => some (.trigger id)
    | _ => none
  | .setUp selector s => some (.setUp selector s)
  | .start selector s => some (.start selector s)
  | .surround source cache => some (.surround source cache)

/-- The output that a request delivers, if it delivers one, goes to an element or to a steady
place. -/
def SteadyFor (r : Runner σ γ) (q : Request σ γ) : Prop :=
  ∀ op d, r.operation? q = some op → r.delivery op = some d →
    (r.prepared op).Steady d.template d.target

/-- All outputs on the way go to elements or to steady places. -/
def SteadyAlong (r : Runner σ γ) : List (Request σ γ) → Prop
  | [] => True
  | q :: qs => r.SteadyFor q ∧ (r.ask q).1.SteadyAlong qs

end

/-! ## Runners that are alike -/

/-- The runner with another page. -/
def on (r : Runner σ γ) (c : LivePage) : Runner σ γ := { r with page := c }

/-- The runner with another page has that page. -/
@[simp] theorem on_page (r : Runner σ γ) (c : LivePage) : (r.on c).page = c := rfl

/-- The runner with another page keeps its cache. -/
@[simp] theorem on_cache (r : Runner σ γ) (c : LivePage) : (r.on c).cache = r.cache := rfl

/-- The runner with another page keeps its templates. -/
@[simp] theorem on_templates (r : Runner σ γ) (c : LivePage) : (r.on c).templates = r.templates := rfl

/-- The runner with another page keeps its markers. -/
@[simp] theorem on_markers (r : Runner σ γ) (c : LivePage) : (r.on c).markers = r.markers := rfl

/-- **Two runners are alike** if their pages are and the rest is the same. -/
structure Alike (r s : Runner σ γ) : Prop where
  page : r.page.Alike s.page
  rest : s = r.on s.page

/-- Two operations leave runners that are alike, and results of which the same is seen. -/
structure Agree {α β : Type} (f : α → β) (x y : Runner σ γ × Except Failure α) : Prop where
  alike : x.1.Alike y.1
  result : y.2.map f = x.2.map f

/-- The page of a runner compacts to another one. -/
structure Tidied (r : Runner σ γ) (c : LivePage) (a : Numbered) (new : Renumbering) : Prop where
  tended : r.Tended
  linked : c.Linked
  owned : c.Owned
  tidies : r.page.TidiesTo c a new

variable {r s : Runner σ γ} {c : LivePage} {a : Numbered} {new : Renumbering} {x : NodeId}

/-- What a runner's page compacts to depends on its page and its templates only. -/
theorem Tidied.congr (h : r.Tidied c a new) (hp : s.page = r.page)
    (ht : s.templates = r.templates) : s.Tidied c a new :=
  ⟨⟨hp ▸ h.tended.page, hp ▸ h.tended.owned, ht ▸ h.tended.templates⟩, h.linked, h.owned,
    hp ▸ h.tidies⟩

/-- A runner and the one with its page compacted are alike. -/
theorem Tidied.alike (h : r.Tidied c a new) : r.Alike (r.on c) :=
  ⟨h.tidies.alike h.tended.page h.linked, rfl⟩

/-- The runner on the compacted page is in order too. -/
theorem Tidied.tended_on (h : r.Tidied c a new) : (r.on c).Tended :=
  ⟨h.linked, h.owned, h.tended.templates⟩

/-- The page of a runner that is tended compacts to another one. -/
theorem Tended.tidied (h : r.Tended) : ∃ c a new, r.page.compact = .ok (c, new) ∧ r.Tidied c a new := by
  obtain ⟨c, a, new, hc, hl, ht⟩ := h.page.tidiesTo
  exact ⟨c, a, new, hc, h, hl, LivePage.owned_compact h.page h.owned hc, ht⟩

/-- Being alike is symmetric. -/
theorem Alike.symm (h : r.Alike s) : s.Alike r :=
  ⟨h.page.symm, by rw [h.rest]; rfl⟩

/-- Being alike is transitive. -/
theorem Alike.trans {u : Runner σ γ} (h : r.Alike s) (h' : s.Alike u) : r.Alike u :=
  ⟨h.page.trans h'.page, by rw [h'.rest, h.rest]; rfl⟩

/-- Reporting goes on alike. -/
theorem Alike.report (h : r.Alike s) (n : Notice) : (r.report n).Alike (s.report n) :=
  ⟨h.page, by rw [h.rest]; rfl⟩

/-! ## Filling and running -/

/-- An output is put into a page and into what compaction makes of it. -/
theorem put_on (h : r.Tidied c a new) {template : String} {target : Option String} {content : Tree}
    (hs : r.page.Steady template target) (hc : content.WellFormed)
    (hr : ∃ b, content.Holds b ∧ b.top = root) :
    Agree List.length (r.put template target content) ((r.on c).put template target content) := by
  obtain ⟨b, hb, htop⟩ := hr
  have hfilled := LivePage.fillTidily_alike h.tidies h.tended.page h.linked h.tended.owned h.owned hs
    hc hb htop
  rw [put, put, on_page]
  generalize r.page.fillTidily template target content = filled at hfilled ⊢
  generalize c.fillTidily template target content = filled' at hfilled ⊢
  cases hfilled with
  | error e => exact ⟨h.alike, rfl⟩
  | ok halike hlength => exact ⟨⟨halike, rfl⟩, congrArg Except.ok hlength⟩

/-- Operations that agree fail alike or succeed alike. -/
theorem Agree.cases {α β : Type} {f : α → β} {x y : Runner σ γ × Except Failure α} (h : Agree f x y) :
    (∃ r s e, x = (r, .error e) ∧ y = (s, .error e) ∧ r.Alike s) ∨
      ∃ r s v w, x = (r, .ok v) ∧ y = (s, .ok w) ∧ r.Alike s ∧ f w = f v := by
  obtain ⟨r, u⟩ := x
  obtain ⟨s, v⟩ := y
  obtain ⟨halike, hresult⟩ := h
  cases u with
  | error e =>
    cases v with
    | error e' =>
      obtain rfl : e' = e := Except.error.inj hresult
      exact .inl ⟨r, s, e', rfl, rfl, halike⟩
    | ok w => cases hresult
  | ok u =>
    cases v with
    | error e' => cases hresult
    | ok w => exact .inr ⟨r, s, u, w, rfl, rfl, halike, Except.ok.inj hresult⟩

/-- Filling a template gives the same on the compacted page, if the output goes to an element or to
a steady place. -/
theorem fill_on (h : r.Tidied c a new) {template : String} {target : Option String} {data : Value}
    (hs : ∀ d, r.fillDelivery template target data = some d → r.page.Steady d.template d.target) :
    Agree Outcome.report (r.fill template target data) ((r.on c).fill template target data) := by
  rw [fill, fill, on_templates]
  cases hrender : r.templates.render? template data with
  | error f => exact ⟨h.alike, rfl⟩
  | ok rendered =>
    cases rendered with
    | none => exact ⟨h.alike, rfl⟩
    | some output =>
      obtain ⟨content, notices⟩ := output
      have hd : r.fillDelivery template target data = some ⟨template, target, content⟩ := by
        rw [fillDelivery, hrender]
      obtain ⟨hc, hr⟩ := (fillDelivery_delivers hd).rooted h.tended
      have hnoticed : (r.reportAll notices).Tidied c a new := h.congr rfl rfl
      have hput : Agree List.length ((r.reportAll notices).put template target content)
          (((r.on c).reportAll notices).put template target content) :=
        put_on hnoticed (hs _ hd) hc hr
      dsimp only
      rcases hput.cases with ⟨u, v, e, hu, hv, halike⟩ | ⟨u, v, nodes, ids, hu, hv, halike, hlength⟩
      · rw [hu, hv]
        exact ⟨halike, rfl⟩
      · rw [hu, hv]
        exact ⟨halike, congrArg (fun n => Except.ok (Report.rendered template n)) hlength⟩

section
variable [Source σ] [Cache γ]

/-- What is requested has nothing to do with the page. -/
theorem obtainData_on (r : Runner σ γ) (c : LivePage) (b : Binding) :
    (r.on c).obtainData b = ((r.obtainData b).1.on c, (r.obtainData b).2) := by
  have hrequest : (r.on c).request b = r.request b := rfl
  rw [obtainData, obtainData, hrequest]
  cases r.request b with
  | error why => rfl
  | ok data =>
    cases b.save with
    | none => rfl
    | some key =>
      dsimp only
      rw [on_cache]
      cases Cache.set r.cache key data.render with
      | mk cache result => cases result <;> rfl

/-- Running a binding gives the same on the compacted page, if its output goes to an element or to a
steady place. -/
theorem run_on (h : r.Tidied c a new) {b : Binding}
    (hs : ∀ d, r.runDelivery b = some d → r.page.Steady d.template d.target) :
    Agree Outcome.report (r.run b) ((r.on c).run b) := by
  have htemplate : (r.on c).templateOf? b = r.templateOf? b := rfl
  rw [run, run, htemplate]
  rw [runDelivery] at hs
  cases ht : r.templateOf? b with
  | none => exact ⟨h.alike.report _, rfl⟩
  | some template =>
    rw [ht] at hs
    dsimp only at hs ⊢
    have hobtain : ((r.on c).report (.loading b.request)).obtainData b = _ :=
      obtainData_on (r.report (.loading b.request)) c b
    obtain ⟨hp, hts⟩ := obtainData_keeps (r.report (.loading b.request)) b
    rw [hobtain]
    cases hd : (r.report (.loading b.request)).obtainData b with
    | mk s result =>
      rw [hd] at hp hts hs
      have hs' : s.Tidied c a new := h.congr hp hts
      have hpage : r.page = s.page := hp.symm
      rw [hpage] at hs
      cases result with
      | error why =>
        obtain ⟨hw, hroot⟩ := errorContent_rooted why.message
        obtain ⟨e, htop, he⟩ := hw.exists_holds hroot
        have hfailed : (s.report (.loadFailed b.request why.message)).Tidied c a new :=
          hs'.congr rfl rfl
        have hput : Agree List.length
            ((s.report (.loadFailed b.request why.message)).put template b.target
              (errorContent why.message))
            (((s.on c).report (.loadFailed b.request why.message)).put template b.target
              (errorContent why.message)) :=
          put_on hfailed (hs _ rfl) hw ⟨e, he, htop⟩
        dsimp only
        rcases hput.cases with ⟨u, v, e, hu, hv, halike⟩ | ⟨u, v, nodes, ids, hu, hv, halike, -⟩
        · rw [hu, hv]
          exact ⟨halike, rfl⟩
        · rw [hu, hv]
          exact ⟨halike, rfl⟩
      | ok data =>
        have hfill : Agree Outcome.report (s.fill template b.target data)
            ((s.on c).fill template b.target data) := fill_on hs' hs
        dsimp only
        rcases hfill.cases with ⟨u, v, e, hu, hv, halike⟩ | ⟨u, v, o, o', hu, hv, halike, hreport⟩
        · rw [hu, hv]
          exact ⟨halike, rfl⟩
        · rw [hu, hv]
          exact ⟨halike.report _, congrArg Except.ok hreport⟩

/-! ## Events -/

omit [Source σ] [Cache γ] in
/-- An element of the page declares the same binding once the page is compacted, but for its
number. -/
theorem ownBinding?_on {t u : Tree} (h : t.CompactsTo u a new) (m : Markers)
    (hx : t.Within root x) : ∃ own, ownBinding? t m x = .ok own ∧
      ownBinding? u m (placeIn a x) = .ok (own.map (Binding.renumber (placeIn a))) := by
  obtain ⟨n, hn⟩ := Tree.has_iff_contentOf.1 (h.rooted.within_has hx)
  rw [ownBinding?, ownBinding?, Tree.element?_ok hn,
    Tree.element?_ok ((h.renamed.content x hx).trans hn), ok_bind, ok_bind]
  cases n.element? with
  | none => exact ⟨none, rfl, rfl⟩
  | some e =>
    dsimp only
    cases requestOf? m e with
    | none => exact ⟨none, rfl, rfl⟩
    | some request => exact ⟨_, rfl, rfl⟩

omit [Source σ] [Cache γ] in
/-- The first binding of nodes of the page is the same once the page is compacted, but for its
number. -/
theorem firstBinding?_on {t u : Tree} (h : t.CompactsTo u a new) (m : Markers) {ids : List NodeId}
    (hids : ∀ y ∈ ids, t.Within root y) : ∃ b, firstBinding? t m ids = .ok b ∧
      firstBinding? u m (ids.map (placeIn a)) = .ok (b.map (Binding.renumber (placeIn a))) := by
  induction ids with
  | nil => exact ⟨none, rfl, rfl⟩
  | cons y ids ih =>
    obtain ⟨hy, hids⟩ := List.forall_mem_cons.1 hids
    obtain ⟨own, hown, hown'⟩ := ownBinding?_on h m hy
    rw [List.map_cons, firstBinding?, firstBinding?, hown, hown', ok_bind, ok_bind]
    cases own with
    | some own => exact ⟨some own, rfl, rfl⟩
    | none => exact ih hids

/-- The first of some nodes that has data or a binding is the same one under its new number. -/
theorem triggerAlong_on (h : r.Tidied c a new) {b : Option Binding} {ids : List NodeId}
    (hb : ∀ own, b = some own → r.page.tree.Within root own.element)
    (hids : ∀ y ∈ ids, r.page.tree.Within root y)
    (hs : ∀ d, r.deliveryAlong b ids = some d → r.page.Steady d.template d.target) :
    Agree Outcome.report (r.triggerAlong b ids)
      ((r.on c).triggerAlong (b.map (Binding.renumber (placeIn a))) (ids.map (placeIn a))) := by
  induction ids with
  | nil => exact ⟨h.alike, rfl⟩
  | cons id ids ih =>
    obtain ⟨hid, hids⟩ := List.forall_mem_cons.1 hids
    have hdata : (r.on c).page.ownData.lookup (placeIn a id) = r.page.ownData.lookup id := by
      rw [on, h.tidies.ownData, lookup_renumberData h.tidies.tree hid]
    have hown : (b.map (Binding.renumber (placeIn a))).filter (·.element = placeIn a id) =
        (b.filter (·.element = id)).map (Binding.renumber (placeIn a)) := by
      cases b with
      | none => rfl
      | some own =>
        have hiff : placeIn a own.element = placeIn a id ↔ own.element = id :=
          ⟨fun he => h.tidies.tree.renamed.inj _ _ (hb own rfl) hid he, congrArg _⟩
        by_cases he : own.element = id
        · simp [Option.filter_some, Binding.renumber, he]
        · simp [Option.filter_some, Binding.renumber, he, hiff]
    rw [List.map_cons, triggerAlong, triggerAlong, hdata, hown]
    rw [deliveryAlong] at hs
    cases hl : r.page.ownData.lookup id with
    | some d =>
      rw [hl] at hs
      exact fill_on h hs
    | none =>
      rw [hl] at hs
      dsimp only at hs ⊢
      cases hf : b.filter (·.element = id) with
      | some own =>
        rw [hf] at hs
        exact run_on h hs
      | none =>
        rw [hf] at hs
        exact ih hids hs

/-- An event on a node gives the same on the compacted page, where the node has its new number. -/
theorem trigger_on (h : r.Tidied c a new) (hx : r.page.tree.Within root x)
    (hs : ∀ d, r.triggerDelivery x = some d → r.page.Steady d.template d.target) :
    Agree Outcome.report (r.trigger x) ((r.on c).trigger (placeIn a x)) := by
  have ht := h.tidies.tree
  obtain ⟨ids, hids, hids', hlive⟩ := ht.renamed.ancestorsOrSelf ht.rooted ht.compacted_rooted hx
  obtain ⟨b, hb, hb'⟩ := firstBinding?_on ht r.markers hlive
  rw [triggerDelivery, nearestBinding?_eq hids, hb, hids] at hs
  rw [trigger_eq hids hb, trigger_eq (r := r.on c) hids' hb']
  refine triggerAlong_on h (fun own ho => ?_) hlive hs
  obtain ⟨y, hy, hown⟩ := mem_of_firstBinding? (ho ▸ hb)
  exact element_of_ownBinding? hown ▸ hlive y hy

/-! ## Other operations -/

omit [Source σ] in
/-- Rendering what is kept under a key gives the same on the compacted page. -/
theorem renderKept_on (h : r.Tidied c a new) {key template : String}
    (hs : ∀ d, (match Cache.get r.cache key with
        | .ok (some text) =>
          match Json.parse text with
          | .ok data => r.fillDelivery template none data
          | .error _ => none
        | _ => none) = some d → r.page.Steady d.template d.target) :
    Agree Report.said (r.renderKept key template) ((r.on c).renderKept key template) := by
  rw [renderKept, renderKept, on_cache]
  cases hkept : Cache.get r.cache key with
  | error why => exact ⟨h.alike, rfl⟩
  | ok kept =>
    rw [hkept] at hs
    cases kept with
    | none => exact ⟨h.alike, rfl⟩
    | some text =>
      dsimp only at hs ⊢
      cases hparse : Json.parse text with
      | error why => exact ⟨h.alike, rfl⟩
      | ok data =>
        rw [hparse] at hs
        have hfill : Agree Outcome.report (r.renderData template data)
            ((r.on c).renderData template data) := fill_on h hs
        dsimp only
        rcases hfill.cases with ⟨u, v, e, hu, hv, halike⟩ | ⟨u, v, o, o', hu, hv, halike, -⟩
        · rw [hu, hv]
          exact ⟨halike, rfl⟩
        · rw [hu, hv]
          exact ⟨halike, rfl⟩

omit [Source σ] [Cache γ] in
/-- **Setting up a binding** comes to the same before and after compaction. -/
theorem setUp_on (h : r.Tidied c a new) (selector : String) (s : Setup) :
    ∃ p c' a' result, r.setUp selector s = (r.on p, result) ∧
      (r.on c).setUp selector s = (r.on c', result) ∧ (r.on p).Tidied c' a' new := by
  have htended := setUp_tended h.tended selector s
  have htended' := setUp_tended h.tended_on selector s
  obtain ⟨found, hfound, hfound', hlive⟩ := h.tidies.selected? selector
  rw [setUp, hfound] at htended ⊢
  rw [setUp, on_page, on_markers, hfound'] at htended' ⊢
  cases found with
  | none => exact ⟨r.page, c, a, .ok false, rfl, rfl, h⟩
  | some x =>
    rw [Option.map_some] at htended' ⊢
    dsimp only at htended htended' ⊢
    rcases h.tidies.pageWith r.markers selector s (hlive x rfl) with
      ⟨e, he, he'⟩ | ⟨p, c', a', hp, hc', ht⟩
    · rw [he, he']
      exact ⟨r.page, c, a, .error e, rfl, rfl, h⟩
    · rw [hp] at htended ⊢
      rw [hc'] at htended' ⊢
      exact ⟨p, c', a', .ok true, rfl, rfl, ⟨htended.1, htended.2, h.tended.templates⟩, htended'.1,
        htended'.2, ht⟩

/-- Starting a binding gives the same on the compacted page, where the selector finds the element
under its new number. -/
theorem start_on (h : r.Tidied c a new) {selector : String} {s : Setup}
    (hs : ∀ d, r.delivery (.start selector s) = some d →
      (r.prepared (.start selector s)).Steady d.template d.target) :
    Agree Outcome.report (r.start selector s) ((r.on c).start selector s) := by
  obtain ⟨p, c', a', result, hset, hset', h'⟩ := setUp_on h selector s
  rw [delivery, prepared, hset] at hs
  rw [start, start, hset, hset']
  cases result with
  | error e => exact ⟨h'.alike, rfl⟩
  | ok found =>
    cases found with
    | false => exact ⟨h'.alike, rfl⟩
    | true =>
      obtain ⟨x?, hx, hx', hlive⟩ := h'.tidies.selected? selector
      dsimp only at hs ⊢
      rw [hx] at hs ⊢
      rw [on_page, hx']
      cases x? with
      | none => exact ⟨h'.alike, rfl⟩
      | some x => exact trigger_on h' (hlive x rfl) hs

/-! ## Requests -/

omit [Source σ] [Cache γ] in
/-- Operations that agree leave runners that are alike, and what is reported is the same. -/
theorem Agree.reported {α : Type} {f : α → Report} {x y : Runner σ γ × Except Failure α}
    (h : Agree f x y) : (reported f x).1.Alike (reported f y).1 ∧
      (reported f y).2 = (reported f x).2 := by
  rcases h.cases with ⟨u, v, e, rfl, rfl, halike⟩ | ⟨u, v, o, o', rfl, rfl, halike, hreport⟩
  · exact ⟨halike, rfl⟩
  · exact ⟨halike, congrArg Except.ok hreport⟩

/-- **A request comes to the same before and after compaction,** if its output goes to an
element or to a steady place. -/
theorem ask_on (h : r.Tidied c a new) {q : Request σ γ} (hs : r.SteadyFor q) :
    (r.ask q).1.Alike ((r.on c).ask q).1 ∧ ((r.on c).ask q).2 = (r.ask q).2 := by
  cases q with
  | renderData template data => exact Agree.reported (fill_on h fun d hd => hs _ d rfl hd)
  | renderKept key template => exact Agree.reported (renderKept_on h fun d hd => hs _ d rfl hd)
  | run b => exact Agree.reported (run_on h fun d hd => hs _ d rfl hd)
  | setUp selector s =>
    obtain ⟨p, c', a', result, hset, hset', h'⟩ := setUp_on h selector s
    rw [ask, ask, hset, hset']
    exact ⟨h'.alike, rfl⟩
  | start selector s => exact Agree.reported (start_on h fun d hd => hs _ d rfl hd)
  | surround source cache => exact ⟨⟨h.alike.page, rfl⟩, rfl⟩
  | trigger selector =>
    obtain ⟨found, hfound, hfound', hlive⟩ := h.tidies.selected? selector
    rw [SteadyFor, operation?, hfound] at hs
    rw [ask, ask, hfound, on_page, hfound']
    cases found with
    | none => exact ⟨h.alike, rfl⟩
    | some x => exact Agree.reported (trigger_on h (hlive x rfl) fun d hd => hs _ d rfl hd)

/-- What a request makes of a runner is what an operation makes of it, or nothing. -/
theorem ask_eq (r : Runner σ γ) (q : Request σ γ) :
    (r.ask q).1 = r ∨ ∃ op, (r.ask q).1 = (r.step op).1 := by
  cases q with
  | renderData template data => exact .inr ⟨.renderData template data, rfl⟩
  | renderKept key template => exact .inr ⟨.renderKept key template, rfl⟩
  | run b => exact .inr ⟨.run b, rfl⟩
  | setUp selector s => exact .inr ⟨.setUp selector s, rfl⟩
  | start selector s => exact .inr ⟨.start selector s, rfl⟩
  | surround source cache => exact .inr ⟨.surround source cache, rfl⟩
  | trigger selector =>
    rw [ask]
    cases selected? r.page.tree selector with
    | error f => exact .inl rfl
    | ok found =>
      cases found with
      | none => exact .inl rfl
      | some id => exact .inr ⟨.trigger id, rfl⟩

/-- A request leaves a runner tended. -/
theorem ask_tended (h : r.Tended) (q : Request σ γ) : (r.ask q).1.Tended := by
  rcases ask_eq r q with he | ⟨op, he⟩
  · rw [he]
    exact h
  · rw [he]
    exact step_tended h op

/-- **Runners that are alike** give the same report and are alike afterwards. -/
theorem ask_alike (hr : r.Tended) (hs : s.Tended) (h : r.Alike s) {q : Request σ γ}
    (hq : r.SteadyFor q) (hq' : s.SteadyFor q) :
    (r.ask q).1.Alike (s.ask q).1 ∧ (s.ask q).2 = (r.ask q).2 := by
  obtain ⟨c, a, new, hc, ht⟩ := hr.tidied
  obtain ⟨c', a', new', hc', ht'⟩ := hs.tidied
  obtain ⟨d, _, _, hd, hd'⟩ := h.page
  obtain ⟨rfl, -⟩ := Prod.mk.inj (Except.ok.inj (hc.symm.trans hd))
  obtain ⟨rfl, -⟩ := Prod.mk.inj (Except.ok.inj (hc'.symm.trans hd'))
  have hon : s.on c' = r.on c' := by rw [h.rest]; rfl
  obtain ⟨halike, hreport⟩ := ask_on ht hq
  obtain ⟨halike', hreport'⟩ := ask_on ht' hq'
  rw [hon] at halike' hreport'
  exact ⟨halike.trans halike'.symm, hreport'.symm.trans hreport⟩

/-- Runners that are alike give the same record of requests. -/
theorem record_alike (requests : List (Request σ γ)) : ∀ {r s : Runner σ γ}, r.Tended → s.Tended →
    r.Alike s → r.SteadyAlong requests → s.SteadyAlong requests →
    s.record requests = r.record requests := by
  induction requests with
  | nil => exact fun _ _ _ _ _ => rfl
  | cons q requests ih =>
    intro r s hr hs h hq hq'
    obtain ⟨halike, hreport⟩ := ask_alike hr hs h hq.1 hq'.1
    have htr := ask_tended hr q
    have hts := ask_tended hs q
    have hpage := halike.page.html_eq htr.page hts.page
    have hcache : (s.ask q).1.cache = (r.ask q).1.cache := by rw [halike.rest]; rfl
    rw [record, record, ih htr hts halike hq.2 hq'.2, hreport, hcache, hpage]

/-- **Compaction cannot be seen while outputs go to steady places.**  Whatever has been asked of
a runner of a well-formed page, its page can be compacted; and any further requests that name
no node by number give the same reports, the same page and the same cache after each of them,
with the page compacted and without, as long as in both runs each output goes to an element
or to a steady place. -/
theorem compaction_unobserved (page : Tree) (m : Markers) (r : Runner σ γ) (hw : page.WellFormed)
    (hc : page.contentOf root = some .fragment) (hp : page.parentOf root = none)
    (hr : Reachable page m r) :
    ∃ p new, r.page.compact = .ok (p, new) ∧ ∀ requests : List (Request σ γ),
      r.SteadyAlong requests → (r.on p).SteadyAlong requests →
        (r.on p).record requests = r.record requests := by
  have htended := reachable_tended (LivePage.linked_ofPage hw hc hp) hr
  obtain ⟨p, a, new, hcompact, ht⟩ := htended.tidied
  exact ⟨p, new, hcompact, fun requests hs hs' =>
    record_alike requests htended ht.tended_on ht.alike hs hs'⟩

end

/-- A template whose place is remembered and steady. -/
theorem steadyFor_renderData [Source σ] [Cache γ] {template : String} {data : Value} {place : Place}
    (hl : r.page.places.lookup template = some place) (hs : place.Steady r.page.tree) :
    r.SteadyFor (.renderData template data) := by
  intro op d hop hd
  obtain rfl := Option.some.inj hop
  obtain ⟨htemplate, -⟩ := fillDelivery_for hd
  refine .inr fun other ho => ?_
  rw [htemplate] at ho
  exact Option.some.inj (hl.symm.trans ho) ▸ hs

/-- A template that is filled once before compaction and once afterwards. -/
theorem compaction_unobserved_of_template :
    let page := Tree.ofDocuments
      [.node (.element ⟨"template", [("id", "t")]⟩) [.node (.element ⟨"i", []⟩) []]]
    let fill : Request Fetch.Canned Cache.Memory := .renderData "t" .null
    page.WellFormed ∧ page.contentOf root = some .fragment ∧ page.parentOf root = none ∧
      ∃ r : Runner Fetch.Canned Cache.Memory, Reachable page .standard r ∧
        ∃ p new, r.page.compact = .ok (p, new) ∧ p.tree.size < r.page.tree.size ∧
          r.SteadyAlong [fill] ∧ (r.on p).SteadyAlong [fill] ∧
            (r.on p).record [fill] = r.record [fill] := by
  intro page fill
  have hw : page.WellFormed := Tree.ofDocuments_wellFormed _
  have hc : page.contentOf root = some .fragment := Tree.contentOf_ofDocuments _
  have hp : page.parentOf root = none := Tree.parentOf_ofDocuments _
  let op : Operation Fetch.Canned Cache.Memory := .renderData "t" .null
  obtain ⟨r, hr, hplace, hparent, hsize, hcompacted⟩ : ∃ r,
      ofPage page .standard Fetch.Canned.empty Cache.Memory.empty = .ok r ∧
        (r.step op).1.page.places.lookup "t" = some ⟨root, [⟨3⟩], none⟩ ∧
        (r.step op).1.page.tree.parentOf ⟨3⟩ = some root ∧ (r.step op).1.page.tree.size = 4 ∧
        (r.step op).1.page.compact.map (fun e =>
          decide (e.1.places.lookup "t" = some ⟨root, [⟨1⟩], none⟩ ∧
            e.1.tree.parentOf ⟨1⟩ = some root ∧ e.1.tree.size = 2)) = .ok true :=
    exists_of_map_decide (by decide +kernel)
  have hreach : Reachable page .standard (r.step op).1 := (Reachable.start _ _ hr).step op trivial
  obtain ⟨p, new, hcompact, hsame⟩ := compaction_unobserved page .standard _ hw hc hp hreach
  rw [hcompact] at hcompacted
  obtain ⟨hplace', hparent', hsize'⟩ := of_decide_eq_true (Except.ok.inj hcompacted)
  have hsteady : ∀ {t : Tree} {x : NodeId}, t.parentOf x = some root →
      Place.Steady t ⟨root, [x], none⟩ := fun {t x} hx =>
    ⟨.self .., .inl fun y hy => by
      have hy : x = y := hy.elim Option.some.inj Option.some.inj
      exact .inr (hy ▸ .parent hx)⟩
  have hfirst : (r.step op).1.SteadyFor fill := steadyFor_renderData hplace (hsteady hparent)
  have hsecond : ((r.step op).1.on p).SteadyFor fill :=
    steadyFor_renderData hplace' (hsteady hparent')
  exact ⟨hw, hc, hp, _, hreach, p, new, hcompact, hsize.symm ▸ hsize'.symm ▸ by decide, ⟨hfirst, trivial⟩,
    ⟨hsecond, trivial⟩, hsame _ ⟨hfirst, trivial⟩ ⟨hsecond, trivial⟩⟩

/-- **Compaction can be seen otherwise.**  The output of a template holds another template
and an element; the one inside is filled, and then the outer one again.  Its output goes to the
end of the element around it, as what marked its place is gone; but once the page is
compacted, it goes to where the rest of the old output is. -/
theorem compaction_observed :
    ¬ ∀ (page : Tree) (m : Markers) (r : Runner Fetch.Canned Cache.Memory),
      page.WellFormed → page.contentOf root = some .fragment → page.parentOf root = none →
      Reachable page m r → ∃ p new, r.page.compact = .ok (p, new) ∧
        ∀ requests : List (Request Fetch.Canned Cache.Memory),
          (r.on p).record requests = r.record requests := by
  intro hall
  let page := Tree.ofDocuments
    [.node (.element ⟨"div", []⟩)
      [.node (.element ⟨"template", [("id", "a")]⟩)
        [.node (.element ⟨"template", [("id", "b")]⟩) [], .node (.element ⟨"u", []⟩) []],
        .node (.element ⟨"p", []⟩) []],
      .node (.element ⟨"template", [("id", "b")]⟩) [.node (.element ⟨"i", []⟩) []]]
  let outer : Operation Fetch.Canned Cache.Memory := .renderData "a" .null
  let inner : Operation Fetch.Canned Cache.Memory := .renderData "b" .null
  obtain ⟨r, hr, hhtml, hcompacted⟩ : ∃ r,
      ofPage page .standard Fetch.Canned.empty Cache.Memory.empty = .ok r ∧
        let s := ((r.step outer).1.step inner).1
        (s.ask (.renderData "a" .null)).1.page.tree.html =
          .ok ("<div><i></i><p></p><template id=\"b\"></template><u></u></div>" ++
            "<template id=\"b\"><i></i></template>") ∧
        s.page.compact.map (fun e =>
          decide (((s.on e.1).ask (.renderData "a" .null)).1.page.tree.html =
            .ok ("<div><i></i><template id=\"b\"></template><u></u><p></p></div>" ++
              "<template id=\"b\"><i></i></template>"))) = .ok true :=
    exists_of_map_decide (by decide +kernel)
  have hreach := ((Reachable.start _ _ hr).step outer trivial).step inner trivial
  obtain ⟨p, new, hcompact, hsame⟩ := hall page .standard _ (Tree.ofDocuments_wellFormed _)
    (Tree.contentOf_ofDocuments _) (Tree.parentOf_ofDocuments _) hreach
  rw [hcompact] at hcompacted
  have hhtml' := of_decide_eq_true (Except.ok.inj hcompacted)
  have hrecord := hsame [.renderData "a" .null]
  simp only [record, List.cons.injEq, Seen.mk.injEq, hhtml, hhtml'] at hrecord
  obtain ⟨⟨-, hpage, -⟩, -⟩ := hrecord
  exact absurd hpage (by decide +kernel)

end Runner
end Page
end PageBinding
