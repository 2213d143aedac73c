/-
# What is put into a page

An operation puts one output into the page of a runner, or none (`delivery`),
after it has set up a binding, if it does that (`prepared`).  That is all that an
operation does to the page (`step_page`).  What is delivered is for a template of
the runner, and is either that template rendered or an error message
(`delivery_delivers`).
-/

import PageBinding.Proofs.Page.Running

namespace PageBinding
namespace Page

open Fetch (Source)
open Json (Value)
open Template (Markers Collection Lasting)

variable {σ γ : Type}

/-- An output on its way. -/
structure Delivery where
  template : String
  target : Option String
  content : Tree

/-- The page once an output is delivered, if there is one and it can be. -/
def LivePage.after (p : LivePage) : Option Delivery → LivePage
  | none => p
  | some d =>
    match p.fillTidily d.template d.target d.content with
    | .ok (q, _) => q
    | .error _ => p

namespace Runner

/-- What filling a template with data delivers. -/
def fillDelivery (r : Runner σ γ) (template : String) (target : Option String) (data : Value) :
    Option Delivery :=
  match r.templates.render? template data with
  | .ok (some (content, _)) => some ⟨template, target, content⟩
  | _ => none

section
variable [Source σ] [Cache γ]

/-- What running a binding delivers. -/
def runDelivery (r : Runner σ γ) (b : Binding) : Option Delivery :=
  match r.templateOf? b with
  | none => none
  | some template =>
    match (r.report (.loading b.request)).obtainData b with
    | (_, .error why) => some ⟨template, b.target, errorContent why.message⟩
    | (r, .ok data) => r.fillDelivery template b.target data

/-- What the first of some nodes that has data or is the element of a binding asks
to deliver. -/
def deliveryAlong (r : Runner σ γ) (b : Option Binding) : List NodeId → Option Delivery
  | [] => none
  | id :: ids =>
    match r.page.ownData.lookup id with
    | some d => r.fillDelivery d.template none d.data
    | none =>
      match b.filter (·.element = id) with
      | some own => r.runDelivery own
      | none => r.deliveryAlong b ids

/-- What an event on a node delivers. -/
def triggerDelivery (r : Runner σ γ) (id : NodeId) : Option Delivery :=
  match nearestBinding? r.page.tree r.markers id, r.page.tree.ancestorsOrSelf id with
  | .ok b, .ok ids => r.deliveryAlong b ids
  | _, _ => none

/-- **What an operation delivers.** -/
def delivery (r : Runner σ γ) : Operation σ γ → Option Delivery
  | .renderData template data => r.fillDelivery template none data
  | .renderKept key template =>
    match Cache.get r.cache key with
    | .ok (some text) =>
      match Json.parse text with
      | .ok data => r.fillDelivery template none data
      | .error _ => none
    | _ => none
  | .run b => r.runDelivery b
  | .trigger id => r.triggerDelivery id
  | .setUp _ _ => none
  | .start selector s =>
    match r.setUp selector s with
    | (r, .ok true) =>
      match selected? r.page.tree selector with
      | .ok (some id) => r.triggerDelivery id
      | _ => none
    | _ => none
  | .surround _ _ => none

/-- The page that an operation delivers to. -/
def prepared (r : Runner σ γ) : Operation σ γ → LivePage
  | .setUp selector s => (r.setUp selector s).1.page
  | .start selector s => (r.setUp selector s).1.page
  | _ => r.page

end

variable {r : Runner σ γ}

/-- Putting an output in delivers it, and leaves the templates. -/
theorem put_page (r : Runner σ γ) (template : String) (target : Option String) (content : Tree) :
    (r.put template target content).1.page = r.page.after (some ⟨template, target, content⟩) ∧
      (r.put template target content).1.templates = r.templates := by
  rw [put, LivePage.after]
  cases r.page.fillTidily template target content <;> exact ⟨rfl, rfl⟩

/-- Filling a template delivers what it gives for the data, and leaves the templates. -/
theorem fill_page (r : Runner σ γ) (template : String) (target : Option String) (data : Value) :
    (r.fill template target data).1.page = r.page.after (r.fillDelivery template target data) ∧
      (r.fill template target data).1.templates = r.templates := by
  rw [fill, fillDelivery]
  cases r.templates.render? template data with
  | error f => exact ⟨rfl, rfl⟩
  | ok rendered =>
    cases rendered with
    | none => exact ⟨rfl, rfl⟩
    | some output =>
      obtain ⟨content, notices⟩ := output
      have hput := put_page (r.reportAll notices) template target content
      dsimp only
      revert hput
      cases (r.reportAll notices).put template target content with
      | mk s result => cases result <;> exact fun hput => hput

section
variable [Source σ] [Cache γ]

/-- Running a binding delivers what it gives, and leaves the templates. -/
theorem run_page (r : Runner σ γ) (b : Binding) :
    (r.run b).1.page = r.page.after (r.runDelivery b) ∧ (r.run b).1.templates = r.templates := by
  rw [run, runDelivery]
  cases r.templateOf? b with
  | none => exact ⟨rfl, rfl⟩
  | some template =>
    dsimp only
    have hkeeps := obtainData_keeps (r.report (.loading b.request)) b
    revert hkeeps
    cases (r.report (.loading b.request)).obtainData b with
    | mk s result =>
      rintro ⟨hp₀, ht₀⟩
      have hp : s.page = r.page := hp₀
      have ht : s.templates = r.templates := ht₀
      cases result with
      | error why =>
        dsimp only
        have hput := put_page (s.report (.loadFailed b.request why.message)) template b.target
          (errorContent why.message)
        revert hput
        cases (s.report (.loadFailed b.request why.message)).put template b.target
          (errorContent why.message) with
        | mk u result =>
          rintro ⟨hpage, htemplates⟩
          rw [← hp, ← ht]
          cases result <;> exact ⟨hpage, htemplates⟩
      | ok data =>
        dsimp only
        have hfill := fill_page s template b.target data
        revert hfill
        cases s.fill template b.target data with
        | mk u result =>
          rintro ⟨hpage, htemplates⟩
          rw [← hp, ← ht]
          cases result <;> exact ⟨hpage, htemplates⟩

/-- An event that goes up through nodes delivers what the first one with data or a binding gives. -/
theorem triggerAlong_page (r : Runner σ γ) (b : Option Binding) (ids : List NodeId) :
    (r.triggerAlong b ids).1.page = r.page.after (r.deliveryAlong b ids) ∧
      (r.triggerAlong b ids).1.templates = r.templates := by
  induction ids with
  | nil => exact ⟨rfl, rfl⟩
  | cons id ids ih =>
    rw [triggerAlong, deliveryAlong]
    cases r.page.ownData.lookup id with
    | some d => exact fill_page r d.template none d.data
    | none =>
      dsimp only
      cases b.filter (·.element = id) with
      | some own => exact run_page r own
      | none => exact ih

/-- An event on a node delivers what it gives, and leaves the templates. -/
theorem trigger_page (r : Runner σ γ) (id : NodeId) :
    (r.trigger id).1.page = r.page.after (r.triggerDelivery id) ∧
      (r.trigger id).1.templates = r.templates := by
  rw [trigger, triggerDelivery]
  cases nearestBinding? r.page.tree r.markers id with
  | error f => exact ⟨rfl, rfl⟩
  | ok b =>
    cases r.page.tree.ancestorsOrSelf id with
    | error f => exact ⟨rfl, rfl⟩
    | ok ids => exact triggerAlong_page r b ids

omit [Source σ] in
/-- Rendering what is kept under a key delivers what its data gives, if it can be read. -/
theorem renderKept_page (r : Runner σ γ) (key template : String) :
    (r.renderKept key template).1.page = r.page.after
        (match Cache.get r.cache key with
        | .ok (some text) =>
          match Json.parse text with
          | .ok data => r.fillDelivery template none data
          | .error _ => none
        | _ => none) ∧
      (r.renderKept key template).1.templates = r.templates := by
  rw [renderKept]
  cases Cache.get r.cache key with
  | error why => exact ⟨rfl, rfl⟩
  | ok kept =>
    cases kept with
    | none => exact ⟨rfl, rfl⟩
    | some text =>
      dsimp only
      cases Json.parse text with
      | error why => exact ⟨rfl, rfl⟩
      | ok data =>
        dsimp only
        have hfill := fill_page r template none data
        revert hfill
        rw [renderData]
        cases r.fill template none data with
        | mk s result => cases result <;> exact fun hfill => hfill

omit [Source σ] [Cache γ] in
/-- Setting a binding up leaves the templates. -/
theorem setUp_templates (r : Runner σ γ) (selector : String) (s : Setup) :
    (r.setUp selector s).1.templates = r.templates := by
  rw [setUp]
  cases selected? r.page.tree selector with
  | error f => rfl
  | ok found =>
    cases found with
    | none => rfl
    | some id =>
      dsimp only
      cases pageWith r.page r.markers selector s id <;> rfl

/-- **What an operation does to the page** is to prepare it and to deliver to it. -/
theorem step_page (r : Runner σ γ) (op : Operation σ γ) :
    (r.step op).1.page = (r.prepared op).after (r.delivery op) ∧
      (r.step op).1.templates = r.templates := by
  cases op with
  | renderData template data => exact fill_page r template none data
  | renderKept key template => exact renderKept_page r key template
  | run b => exact run_page r b
  | trigger id => exact trigger_page r id
  | setUp selector s => exact ⟨rfl, setUp_templates r selector s⟩
  | start selector s =>
    have hset := setUp_templates r selector s
    rw [step, prepared, delivery, withOutcome, start]
    revert hset
    cases r.setUp selector s with
    | mk u result =>
      intro hset
      have hset : u.templates = r.templates := hset
      cases result with
      | error e => exact ⟨rfl, hset⟩
      | ok found =>
        cases found with
        | false => exact ⟨rfl, hset⟩
        | true =>
          dsimp only
          cases selected? u.page.tree selector with
          | error f => exact ⟨rfl, hset⟩
          | ok found =>
            cases found with
            | none => exact ⟨rfl, hset⟩
            | some id => exact ⟨(trigger_page u id).1, (trigger_page u id).2.trans hset⟩
  | surround source cache => exact ⟨rfl, rfl⟩

/-! ## What is delivered -/

/-- What is delivered is for a template, and is that rendered or an error message. -/
def Delivers (templates : Collection) (d : Delivery) : Prop :=
  templates.contains d.template = true ∧
    ((∃ template context notices, templates.get? d.template = some template ∧
      Template.render template context templates.markers = .ok (d.content, notices)) ∨
    ∃ message, d.content = errorContent message)

variable {d : Delivery}

omit [Source σ] [Cache γ] in
/-- What filling a template delivers is its rendering. -/
theorem fillDelivery_delivers {template : String} {target : Option String} {data : Value}
    (h : r.fillDelivery template target data = some d) : Delivers r.templates d := by
  rw [fillDelivery, Collection.render?] at h
  cases hget : r.templates.get? template with
  | none => rw [hget] at h; cases h
  | some tree =>
    rw [hget] at h
    dsimp only at h
    cases hr : Template.render tree data r.templates.markers with
    | error f => rw [hr] at h; cases h
    | ok output =>
      obtain ⟨content, notices⟩ := output
      rw [hr] at h
      obtain rfl := Option.some.inj h
      exact ⟨by rw [Collection.contains, hget]; rfl, .inl ⟨tree, data, notices, hget, hr⟩⟩

omit [Source σ] [Cache γ] in
/-- What filling a template delivers is for that template and that target. -/
theorem fillDelivery_for {template : String} {target : Option String} {data : Value}
    (h : r.fillDelivery template target data = some d) :
    d.template = template ∧ d.target = target := by
  rw [fillDelivery] at h
  split at h
  · rw [← Option.some.inj h]
    exact ⟨rfl, rfl⟩
  · cases h

/-- What running a binding delivers is its template's rendering or an error message. -/
theorem runDelivery_delivers {b : Binding} (h : r.runDelivery b = some d) :
    Delivers r.templates d := by
  rw [runDelivery] at h
  cases ht : r.templateOf? b with
  | none => rw [ht] at h; cases h
  | some template =>
    rw [ht] at h
    dsimp only at h
    have hkeeps := (obtainData_keeps (r.report (.loading b.request)) b).2
    revert h hkeeps
    cases (r.report (.loading b.request)).obtainData b with
    | mk s result =>
      intro h hkeeps
      have hkeeps : s.templates = r.templates := hkeeps
      cases result with
      | error why =>
        obtain rfl := Option.some.inj h
        exact ⟨(Option.filter_eq_some_iff.1 ht).2, .inr ⟨why.message, rfl⟩⟩
      | ok data => exact hkeeps ▸ fillDelivery_delivers h

/-- What an event delivers on its way up is a rendering or an error message. -/
theorem deliveryAlong_delivers {b : Option Binding} {ids : List NodeId}
    (h : r.deliveryAlong b ids = some d) : Delivers r.templates d := by
  induction ids with
  | nil => cases h
  | cons id ids ih =>
    rw [deliveryAlong] at h
    split at h
    · exact fillDelivery_delivers h
    · split at h
      · exact runDelivery_delivers h
      · exact ih h

/-- What an event delivers is a rendering or an error message. -/
theorem triggerDelivery_delivers {id : NodeId} (h : r.triggerDelivery id = some d) :
    Delivers r.templates d := by
  rw [triggerDelivery] at h
  split at h
  · exact deliveryAlong_delivers h
  · cases h

/-- **What an operation delivers is for a template of the runner.** -/
theorem delivery_delivers {op : Operation σ γ} (h : r.delivery op = some d) :
    Delivers r.templates d := by
  cases op with
  | renderData template data => exact fillDelivery_delivers h
  | renderKept key template =>
    rw [delivery] at h
    split at h
    · split at h
      · exact fillDelivery_delivers h
      · cases h
    · cases h
  | run b => exact runDelivery_delivers h
  | trigger id => exact triggerDelivery_delivers h
  | setUp selector s => cases h
  | start selector s =>
    have hset := setUp_templates r selector s
    rw [delivery] at h
    revert h hset
    cases r.setUp selector s with
    | mk u result =>
      intro h hset
      have hset : u.templates = r.templates := hset
      split at h
      · rename_i he
        obtain ⟨rfl, -⟩ := Prod.mk.inj he
        split at h
        · exact hset ▸ triggerDelivery_delivers h
        · cases h
      · cases h
  | surround source cache => cases h

end
end Runner
end Page
end PageBinding
