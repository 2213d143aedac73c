/-
# What an operation orders

An operation that reports an output had a template filled with some data, and the
output put somewhere (`Order`).  What it orders can be told from the operation and the
runner (`Runner.Orders`):

| operation | what is ordered |
| --- | --- |
| `renderData` | its template with its data, without a target |
| `run` | the template of the binding with what is requested, for its target |
| `trigger` | what the nearest node says, from the one of the event on up, that has data of its own or a binding; data comes first |
| `start` | what an event on the element orders once the binding is set up |

What is reported has been ordered, and is what filling the page with it gives
(`ordered_of_rendered`).
-/

import PageBinding.Proofs.Page.Deliveries

namespace PageBinding
namespace Page

open Fetch (Source)
open Json (Value)
open Template (Markers Collection)

variable {σ γ : Type}

/-- A template that is to be filled with data, and the element that the output is meant
for, if it is meant for one. -/
structure Order where
  template : String
  target : Option String
  data : Value

/-- An order is carried out on a page: the template is rendered, and what that gives is
put where it belongs. -/
def Order.Gives (o : Order) (c : Collection) (p q : LivePage) (nodes : List NodeId) : Prop :=
  ∃ content notices, c.render? o.template o.data = .ok (some (content, notices)) ∧
    p.fillTidily o.template o.target content = .ok (q, nodes)

namespace Runner

/-- A node has neither data of its own nor a binding. -/
def Silent (r : Runner σ γ) (x : NodeId) : Prop :=
  r.page.ownData.lookup x = none ∧ ownBinding? r.page.tree r.markers x = .ok none

/-- **What an operation orders.** -/
inductive Orders [Source σ] : Runner σ γ → Operation σ γ → Order → Prop
  | renderData (r : Runner σ γ) (template : String) (data : Value) :
    Orders r (.renderData template data) ⟨template, none, data⟩
  | run {r : Runner σ γ} {b : Binding} {template : String} {data : Value} :
    r.templateOf? b = some template → r.request b = .ok data →
    Orders r (.run b) ⟨template, b.target, data⟩
  | own {r : Runner σ γ} {id x : NodeId} {before after : List NodeId} {d : OwnData} :
    r.page.tree.ancestorsOrSelf id = .ok (before ++ x :: after) → (∀ y ∈ before, r.Silent y) →
    r.page.ownData.lookup x = some d → Orders r (.trigger id) ⟨d.template, none, d.data⟩
  | bound {r : Runner σ γ} {id x : NodeId} {before after : List NodeId} {b : Binding} {o : Order} :
    r.page.tree.ancestorsOrSelf id = .ok (before ++ x :: after) → (∀ y ∈ before, r.Silent y) →
    r.page.ownData.lookup x = none → ownBinding? r.page.tree r.markers x = .ok (some b) →
    Orders r (.run b) o → Orders r (.trigger id) o
  | start {r u : Runner σ γ} {selector : String} {s : Setup} {id : NodeId} {o : Order} :
    r.setUp selector s = (u, .ok true) → selected? u.page.tree selector = .ok (some id) →
    Orders u (.trigger id) o → Orders r (.start selector s) o

variable {r : Runner σ γ} {template : String} {nodes : List NodeId}

/-! ## Filling and running -/

/-- If filling a template renders it, that carries out the order to fill it. -/
theorem fill_gives {name : String} {target : Option String} {data : Value}
    (h : (r.fill name target data).2 = .ok (.rendered template nodes)) :
    template = name ∧
      Order.Gives ⟨name, target, data⟩ r.templates r.page (r.fill name target data).1.page nodes := by
  rw [fill] at h ⊢
  cases hr : r.templates.render? name data with
  | error f => rw [hr] at h; cases h
  | ok rendered =>
    cases rendered with
    | none => rw [hr] at h; cases h
    | some output =>
      obtain ⟨content, notices⟩ := output
      rw [hr] at h
      dsimp only at h ⊢
      rw [put] at h ⊢
      cases hf : (r.reportAll notices).page.fillTidily name target content with
      | error e => rw [hf] at h; cases h
      | ok filled =>
        rw [hf] at h
        obtain ⟨rfl, rfl⟩ := Outcome.rendered.inj (Except.ok.inj h)
        exact ⟨rfl, content, notices, hr, hf⟩

variable [Source σ] [Cache γ]

/-- What is obtained has been requested. -/
theorem request_of_obtainData {b : Binding} {s : Runner σ γ} {data : Value}
    (h : r.obtainData b = (s, .ok data)) : r.request b = .ok data := by
  rw [obtainData] at h
  cases hreq : r.request b with
  | error why => rw [hreq] at h; cases h
  | ok found =>
    rw [hreq] at h
    cases hs : b.save with
    | none =>
      rw [hs] at h
      rw [Except.ok.inj (Prod.mk.inj h).2]
    | some key =>
      rw [hs] at h
      dsimp only at h
      cases hc : Cache.set r.cache key found.render with
      | mk cache result =>
        rw [hc] at h
        cases result with
        | error why => cases h
        | ok _ => rw [Except.ok.inj (Prod.mk.inj h).2]

/-- If running a binding renders a template, that carries out an order which the binding gives. -/
theorem run_gives {b : Binding} (h : (r.run b).2 = .ok (.rendered template nodes)) :
    ∃ o, r.Orders (.run b) o ∧ o.template = template ∧
      o.Gives r.templates r.page (r.run b).1.page nodes := by
  rw [run] at h ⊢
  cases ht : r.templateOf? b with
  | none => rw [ht] at h; cases h
  | some name =>
    rw [ht] at h
    dsimp only at h ⊢
    obtain ⟨hp, hts⟩ := obtainData_keeps (r.report (.loading b.request)) b
    cases hd : (r.report (.loading b.request)).obtainData b with
    | mk s result =>
      rw [hd] at h hp hts
      cases result with
      | error why =>
        dsimp only at h
        revert h
        cases (s.report (.loadFailed b.request why.message)).put name b.target
          (errorContent why.message) with
        | mk u result =>
          intro h
          cases result <;> cases h
      | ok data =>
        have hreq : r.request b = .ok data := (request_of_obtainData hd :)
        dsimp only at h ⊢
        have hgives : (s.fill name b.target data).2 = .ok (.rendered template nodes) →
            template = name ∧ Order.Gives ⟨name, b.target, data⟩ s.templates s.page
              (s.fill name b.target data).1.page nodes := fill_gives
        revert h hgives
        cases s.fill name b.target data with
        | mk u result =>
          cases result with
          | error e =>
            intro h
            cases h
          | ok outcome =>
            intro h hgives
            obtain ⟨rfl, hg⟩ := hgives (congrArg Except.ok (Except.ok.inj h))
            refine ⟨⟨template, b.target, data⟩, .run ht hreq, rfl, ?_⟩
            have hp : s.page = r.page := hp
            have hts : s.templates = r.templates := hts
            rw [hp, hts] at hg
            exact hg

/-! ## Events -/

/-- The binding of an element's own markers is that element's. -/
theorem element_of_ownBinding? {page : Tree} {m : Markers} {x : NodeId} {b : Binding}
    (h : ownBinding? page m x = .ok (some b)) : b.element = x := by
  rw [ownBinding?] at h
  cases he : page.element? x with
  | error f => rw [he] at h; cases h
  | ok e =>
    rw [he, ok_bind] at h
    cases e with
    | none => cases h
    | some e =>
      dsimp only at h
      cases hr : requestOf? m e with
      | none => rw [hr] at h; cases h
      | some request =>
        rw [hr] at h
        obtain rfl := Option.some.inj (Except.ok.inj h)
        rfl

/-- The first binding of some nodes is that of one of them. -/
theorem mem_of_firstBinding? {page : Tree} {m : Markers} {ids : List NodeId} {b : Binding}
    (h : firstBinding? page m ids = .ok (some b)) :
    ∃ x ∈ ids, ownBinding? page m x = .ok (some b) := by
  induction ids with
  | nil => cases h
  | cons x ids ih =>
    rw [firstBinding?] at h
    cases hx : ownBinding? page m x with
    | error f => rw [hx] at h; cases h
    | ok own =>
      rw [hx, ok_bind] at h
      cases own with
      | some b' =>
        obtain rfl := Option.some.inj (Except.ok.inj h)
        exact ⟨x, List.mem_cons_self .., hx⟩
      | none =>
        obtain ⟨y, hy, hb⟩ := ih h
        exact ⟨y, List.mem_cons_of_mem _ hy, hb⟩

/-- A silent node is passed over. -/
theorem triggerAlong_silent {x : NodeId} {ids : List NodeId} {b : Option Binding} (hx : r.Silent x)
    (hb : firstBinding? r.page.tree r.markers (x :: ids) = .ok b) :
    firstBinding? r.page.tree r.markers ids = .ok b ∧
      r.triggerAlong b (x :: ids) = r.triggerAlong b ids := by
  obtain ⟨hd, hx⟩ := hx
  rw [firstBinding?, hx, ok_bind] at hb
  -- The first binding is one of a node further up.
  have hfilter : b.filter (·.element = x) = none := by
    rw [Option.filter_eq_none_iff]
    rintro own rfl
    obtain ⟨y, -, hy⟩ := mem_of_firstBinding? hb
    rw [element_of_ownBinding? hy, decide_eq_true_eq]
    rintro rfl
    rw [hx] at hy
    cases hy
  refine ⟨hb, ?_⟩
  rw [triggerAlong, hd, hfilter]

/-- The binding of a node without data is run. -/
theorem triggerAlong_bound {x : NodeId} {ids : List NodeId} {b : Option Binding} {own : Binding}
    (hd : r.page.ownData.lookup x = none)
    (hx : ownBinding? r.page.tree r.markers x = .ok (some own))
    (hb : firstBinding? r.page.tree r.markers (x :: ids) = .ok b) :
    r.triggerAlong b (x :: ids) = r.run own := by
  rw [firstBinding?, hx, ok_bind] at hb
  obtain rfl := Except.ok.inj hb
  have hfilter : (some own).filter (·.element = x) = some own := by
    rw [Option.filter_some, element_of_ownBinding? hx, decide_eq_true rfl]
    rfl
  rw [triggerAlong, hd, hfilter]

/-- The way up from an event: the nodes before the listed ones are silent, and the binding
is the first one of those listed. -/
theorem triggerAlong_gives {id : NodeId} {b : Option Binding} (ids : List NodeId) :
    ∀ before, r.page.tree.ancestorsOrSelf id = .ok (before ++ ids) → (∀ y ∈ before, r.Silent y) →
      firstBinding? r.page.tree r.markers ids = .ok b →
      (r.triggerAlong b ids).2 = .ok (.rendered template nodes) →
      ∃ o, r.Orders (.trigger id) o ∧ o.template = template ∧
        o.Gives r.templates r.page (r.triggerAlong b ids).1.page nodes := by
  induction ids with
  | nil => exact fun _ _ _ _ h => by cases h
  | cons x ids ih =>
    intro before hup hsilent hfirst h
    cases hd : r.page.ownData.lookup x with
    | some d =>
      rw [triggerAlong, hd] at h ⊢
      obtain ⟨rfl, hg⟩ := fill_gives h
      exact ⟨_, .own hup hsilent hd, rfl, hg⟩
    | none =>
      cases hx : ownBinding? r.page.tree r.markers x with
      | error f => rw [firstBinding?, hx] at hfirst; cases hfirst
      | ok own =>
        cases own with
        | some own =>
          rw [triggerAlong_bound hd hx hfirst] at h ⊢
          obtain ⟨o, ho, ht, hg⟩ := run_gives h
          exact ⟨o, .bound hup hsilent hd hx ho, ht, hg⟩
        | none =>
          obtain ⟨hfirst, hpass⟩ := triggerAlong_silent ⟨hd, hx⟩ hfirst
          rw [hpass] at h ⊢
          refine ih (before ++ [x]) (by rw [hup, List.append_assoc]; rfl) (fun y hy => ?_) hfirst h
          rcases List.mem_append.1 hy with hy | hy
          · exact hsilent y hy
          · exact List.mem_singleton.1 hy ▸ ⟨hd, hx⟩

/-- If an event renders a template, that carries out an order which the event gives. -/
theorem trigger_gives {id : NodeId} (h : (r.trigger id).2 = .ok (.rendered template nodes)) :
    ∃ o, r.Orders (.trigger id) o ∧ o.template = template ∧
      o.Gives r.templates r.page (r.trigger id).1.page nodes := by
  cases hids : r.page.tree.ancestorsOrSelf id with
  | error f =>
    rw [trigger, nearestBinding?, hids] at h
    cases h
  | ok ids =>
    cases hb : firstBinding? r.page.tree r.markers ids with
    | error f =>
      rw [trigger, nearestBinding?_eq hids, hb] at h
      cases h
    | ok b =>
      rw [trigger_eq hids hb] at h ⊢
      exact triggerAlong_gives ids [] hids (List.forall_mem_nil _) hb h

/-! ## Operations -/

omit [Source σ] [Cache γ] in
/-- An operation whose outcome is reported had that outcome. -/
theorem eq_of_withOutcome {s : Runner σ γ × Except Failure Outcome} {o : Outcome}
    (h : (withOutcome s).2 = .ok (some o)) : s.2 = .ok o := by
  obtain ⟨u, result⟩ := s
  cases result with
  | error e => cases h
  | ok _ => rw [Option.some.inj (Except.ok.inj h)]

omit [Source σ] [Cache γ] in
/-- An operation whose value is dropped has no outcome. -/
theorem withoutValue_ne {α : Type} {s : Runner σ γ × Except Failure α} {o : Outcome} :
    (withoutValue s).2 ≠ .ok (some o) := by
  obtain ⟨u, result⟩ := s
  cases result <;> exact nofun

/-- **What is reported has been ordered,** and is what carrying out the order gives. -/
theorem ordered_of_rendered {op : Operation σ γ}
    (h : (r.step op).2 = .ok (some (.rendered template nodes))) :
    ∃ o, r.Orders op o ∧ o.template = template ∧
      o.Gives r.templates (r.prepared op) (r.step op).1.page nodes := by
  cases op with
  | renderData name data =>
    obtain ⟨rfl, hg⟩ := fill_gives (eq_of_withOutcome h)
    exact ⟨_, .renderData r template data, rfl, hg⟩
  | renderKept key name => exact absurd h withoutValue_ne
  | run b => exact run_gives (eq_of_withOutcome h)
  | trigger id => exact trigger_gives (eq_of_withOutcome h)
  | setUp selector s => exact absurd h withoutValue_ne
  | start selector s =>
    have h : (r.start selector s).2 = .ok (.rendered template nodes) := eq_of_withOutcome h
    have hset := setUp_templates r selector s
    rw [step, withOutcome, prepared]
    rw [start] at h
    rw [start]
    cases hs : r.setUp selector s with
    | mk u result =>
      rw [hs] at h hset
      cases result with
      | error e => cases h
      | ok found =>
        cases found with
        | false => cases h
        | true =>
          dsimp only at h ⊢
          cases hsel : selected? u.page.tree selector with
          | error f => rw [hsel] at h; cases h
          | ok found =>
            cases found with
            | none => rw [hsel] at h; cases h
            | some id =>
              rw [hsel] at h
              obtain ⟨o, ho, ht, hg⟩ := trigger_gives h
              exact ⟨o, .start hs hsel ho, ht, hset ▸ hg⟩
  | surround source cache => cases h

end Runner
end Page
end PageBinding
