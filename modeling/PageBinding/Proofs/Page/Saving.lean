/-
# What operations keep

An operation runs at most one binding (`Runner.running?`), and running a binding keeps at most
one text, the data that is requested, under the key of the binding (`Runner.saving?`).  That is
all that an operation does to the cache (`step_cache`); so what a cache in memory keeps under a
key lasts until something else is kept under it (`Later.get?`).
-/

import PageBinding.Cache.Memory
import PageBinding.Proofs.Page.Deliveries

namespace PageBinding
namespace Page

open Fetch (Source)
open Json (Value)
open Template (Markers)

variable {σ γ : Type}

namespace Runner

/-! ## Bindings that run -/

/-- The binding that runs if an event goes up through some nodes: the given one, if none of
the nodes up to its element has data of its own. -/
def runningAlong? (r : Runner σ γ) (b : Option Binding) : List NodeId → Option Binding
  | [] => none
  | id :: ids =>
    if (r.page.ownData.lookup id).isSome then none
    else (b.filter (·.element = id)).or (r.runningAlong? b ids)

/-- The binding that an event on a node runs. -/
def triggered? (r : Runner σ γ) (id : NodeId) : Option Binding :=
  match nearestBinding? r.page.tree r.markers id, r.page.tree.ancestorsOrSelf id with
  | .ok b, .ok ids => r.runningAlong? b ids
  | _, _ => none

/-- **The binding that an operation runs.** -/
def running? (r : Runner σ γ) : Operation σ γ → Option Binding
  | .run b => some b
  | .trigger id => r.triggered? id
  | .start selector s =>
    match r.setUp selector s with
    | (r, .ok true) =>
      match selected? r.page.tree selector with
      | .ok (some id) => r.triggered? id
      | _ => none
    | _ => none
  | _ => none

/-! ## What is kept -/

/-- The key and the text that running a binding keeps. -/
def saving? [Source σ] (r : Runner σ γ) (b : Binding) : Option (String × String) :=
  match r.templateOf? b, r.request b, b.save with
  | some _, .ok data, some key => some (key, data.render)
  | _, _, _ => none

/-- A cache once a text is kept, if there is one. -/
def withKept [Cache γ] (cache : γ) : Option (String × String) → γ
  | none => cache
  | some (key, text) => (Cache.set cache key text).1

/-- The runner has the cache, the source and the templates of another one. -/
structure Beside (s r : Runner σ γ) : Prop where
  cache : s.cache = r.cache
  source : s.source = r.source
  templates : s.templates = r.templates

variable {r s : Runner σ γ}

/-- Putting an output in leaves the cache, the source and the templates. -/
theorem beside_put (r : Runner σ γ) (template : String) (target : Option String) (content : Tree) :
    Beside (r.put template target content).1 r := by
  rw [put]
  cases r.page.fillTidily template target content <;> exact ⟨rfl, rfl, rfl⟩

/-- Filling a template leaves the cache, the source and the templates. -/
theorem beside_fill (r : Runner σ γ) (template : String) (target : Option String) (data : Value) :
    Beside (r.fill template target data).1 r := by
  rw [fill]
  cases r.templates.render? template data with
  | error f => exact ⟨rfl, rfl, rfl⟩
  | ok rendered =>
    cases rendered with
    | none => exact ⟨rfl, rfl, rfl⟩
    | some output =>
      obtain ⟨content, notices⟩ := output
      have hput := beside_put (r.reportAll notices) template target content
      dsimp only
      revert hput
      cases (r.reportAll notices).put template target content with
      | mk u result => cases result <;> exact fun h => ⟨h.cache, h.source, h.templates⟩

/-- Setting a binding up leaves the cache, the source and the templates. -/
theorem beside_setUp (r : Runner σ γ) (selector : String) (s : Setup) :
    Beside (r.setUp selector s).1 r := by
  rw [setUp]
  cases selected? r.page.tree selector with
  | error f => exact ⟨rfl, rfl, rfl⟩
  | ok found =>
    cases found with
    | none => exact ⟨rfl, rfl, rfl⟩
    | some id =>
      dsimp only
      cases pageWith r.page r.markers selector s id <;> exact ⟨rfl, rfl, rfl⟩

variable [Source σ]

/-- What a binding keeps depends on the source only. -/
theorem Beside.saving? (h : Beside s r) (b : Binding) : s.saving? b = r.saving? b := by
  rw [Runner.saving?, Runner.saving?, templateOf?, templateOf?, request, request, h.templates,
    h.source]

variable [Cache γ]

omit [Source σ] in
/-- Rendering what is kept leaves the cache, the source and the templates. -/
theorem beside_renderKept (r : Runner σ γ) (key template : String) :
    Beside (r.renderKept key template).1 r := by
  rw [renderKept]
  cases Cache.get r.cache key with
  | error why => exact ⟨rfl, rfl, rfl⟩
  | ok kept =>
    cases kept with
    | none => exact ⟨rfl, rfl, rfl⟩
    | some text =>
      dsimp only
      cases Json.parse text with
      | error why => exact ⟨rfl, rfl, rfl⟩
      | ok data =>
        have hfill := beside_fill r template none data
        revert hfill
        rw [← renderData]
        dsimp only
        cases r.renderData template data with
        | mk u result => cases result <;> exact fun h => h

/-- Getting the data of a binding keeps its text, if the template is there. -/
theorem obtainData_cache (r : Runner σ γ) (b : Binding) (h : (r.templateOf? b).isSome) :
    (r.obtainData b).1.cache = withKept r.cache (r.saving? b) := by
  obtain ⟨template, ht⟩ := Option.isSome_iff_exists.1 h
  rw [obtainData, saving?, ht]
  cases r.request b with
  | error why => rfl
  | ok data =>
    cases b.save with
    | none => rfl
    | some key =>
      dsimp only
      rw [withKept]
      cases Cache.set r.cache key data.render with
      | mk cache result => cases result <;> rfl

/-- Running a binding keeps its text, if there is one. -/
theorem run_cache (r : Runner σ γ) (b : Binding) :
    (r.run b).1.cache = withKept r.cache (r.saving? b) := by
  rw [run]
  cases ht : r.templateOf? b with
  | none => rw [saving?, ht]; rfl
  | some template =>
    have hsaved := obtainData_cache (r.report (.loading b.request)) b (by
      rw [show (r.report (.loading b.request)).templateOf? b = some template from ht]
      rfl)
    rw [Beside.saving? ⟨rfl, rfl, rfl⟩ b] at hsaved
    dsimp only
    revert hsaved
    cases (r.report (.loading b.request)).obtainData b with
    | mk s result =>
      intro hsaved
      cases result with
      | error why =>
        have hput := beside_put (s.report (.loadFailed b.request why.message)) template b.target
          (errorContent why.message)
        dsimp only
        revert hput
        cases (s.report (.loadFailed b.request why.message)).put template b.target
          (errorContent why.message) with
        | mk u result => cases result <;> exact fun hput => hput.cache.trans hsaved
      | ok data =>
        have hfill := beside_fill s template b.target data
        dsimp only
        revert hfill
        cases s.fill template b.target data with
        | mk u result => cases result <;> exact fun hfill => hfill.cache.trans hsaved

/-- An event that goes up through nodes keeps the text of the binding that it runs. -/
theorem triggerAlong_cache (r : Runner σ γ) (b : Option Binding) (ids : List NodeId) :
    (r.triggerAlong b ids).1.cache = withKept r.cache ((r.runningAlong? b ids).bind r.saving?) := by
  induction ids with
  | nil => rfl
  | cons id ids ih =>
    rw [triggerAlong, runningAlong?]
    cases r.page.ownData.lookup id with
    | some d => exact (beside_fill r d.template none d.data).cache
    | none =>
      dsimp only
      cases b.filter (·.element = id) with
      | some own => exact run_cache r own
      | none => exact ih

/-- An event keeps the text of the binding that it runs. -/
theorem trigger_cache (r : Runner σ γ) (id : NodeId) :
    (r.trigger id).1.cache = withKept r.cache ((r.triggered? id).bind r.saving?) := by
  rw [trigger, triggered?]
  cases nearestBinding? r.page.tree r.markers id with
  | error f => rfl
  | ok b =>
    cases r.page.tree.ancestorsOrSelf id with
    | error f => rfl
    | ok ids => exact triggerAlong_cache r b ids

/-- The cache that an operation finds. -/
def cacheFor (r : Runner σ γ) : Operation σ γ → γ
  | .surround _ cache => cache
  | _ => r.cache

/-- **What an operation does to the cache** is to keep what the binding that it runs says. -/
theorem step_cache (r : Runner σ γ) (op : Operation σ γ) :
    (r.step op).1.cache = withKept (r.cacheFor op) ((r.running? op).bind r.saving?) := by
  cases op with
  | renderData template data => exact (beside_fill r template none data).cache
  | renderKept key template => exact (beside_renderKept r key template).cache
  | run b => exact run_cache r b
  | trigger id => exact trigger_cache r id
  | setUp selector s => exact (beside_setUp r selector s).cache
  | start selector s =>
    have hset := beside_setUp r selector s
    rw [step, running?, cacheFor, withOutcome, start]
    revert hset
    cases r.setUp selector s with
    | mk u result =>
      intro hset
      cases result with
      | error e => exact hset.cache
      | ok found =>
        cases found with
        | false => exact hset.cache
        | true =>
          dsimp only
          cases selected? u.page.tree selector with
          | error f => exact hset.cache
          | ok found =>
            cases found with
            | none => exact hset.cache
            | some id =>
              have htrigger := trigger_cache u id
              rw [hset.cache, funext hset.saving?] at htrigger
              exact htrigger
    intro source cache h
    cases h
  | surround source cache => rfl

/-! ## Caches in memory -/

/-- An operation leaves what is kept under a key: it finds the same, and keeps nothing there. -/
def Spares (r : Runner σ Cache.Memory) (key : String) (op : Operation σ Cache.Memory) : Prop :=
  (r.cacheFor op).get? key = r.cache.get? key ∧
    ∀ b text, r.running? op = some b → r.saving? b ≠ some (key, text)

/-- The runners that operations lead to which leave what is kept under a key. -/
inductive Later (key : String) (r : Runner σ Cache.Memory) : Runner σ Cache.Memory → Prop
  | refl : Later key r r
  | step {s : Runner σ Cache.Memory} (op : Operation σ Cache.Memory) : Later key r s → s.Admits op →
    s.Spares key op → Later key r (s.step op).1

variable {key : String} {u v : Runner σ Cache.Memory}

omit [Source σ] in
/-- Keeping a text leaves what is kept under other keys. -/
theorem get?_withKept {cache : Cache.Memory} {kept : Option (String × String)}
    (h : ∀ text, kept ≠ some (key, text)) : (withKept cache kept).get? key = cache.get? key := by
  cases kept with
  | none => rfl
  | some entry =>
    obtain ⟨other, text⟩ := entry
    refine Cache.Memory.get?_set_of_ne cache ?_ text
    rintro rfl
    exact h text rfl

/-- An operation that spares a key leaves what is kept under it. -/
theorem Spares.get?_step {op : Operation σ Cache.Memory} (h : u.Spares key op) :
    (u.step op).1.cache.get? key = u.cache.get? key := by
  rw [step_cache, get?_withKept fun text ht => ?_, h.1]
  obtain ⟨b, hb, hsaving⟩ := Option.bind_eq_some_iff.1 ht
  exact h.2 b text hb hsaving

/-- **What is kept under a key lasts** until something else is kept there. -/
theorem Later.get? (h : Later key u v) : v.cache.get? key = u.cache.get? key := by
  induction h with
  | refl => rfl
  | step op _ _ hspares ih => rw [hspares.get?_step, ih]

/-- Later runners have the same templates. -/
theorem Later.templates (h : Later key u v) : v.templates = u.templates := by
  induction h with
  | refl => rfl
  | step op _ _ _ ih => rw [(step_page _ op).2, ih]

/-- Later runners are among those that the page leads to. -/
theorem Later.reachable {page : Tree} {m : Markers} (h : Later key u v) (hu : Reachable page m u) :
    Reachable page m v := by
  induction h with
  | refl => exact hu
  | step op _ hadmits _ ih => exact .step op ih hadmits

end Runner
end Page
end PageBinding
