/-
# What comes of running a binding

An output can be put somewhere (`LivePage.Placeable`) if the element that it is meant for is in
the page, or, if it is meant for none, if its template has a place or stands in the page itself.
Then there is a spot for every output of the template, whatever that is (`LivePage.PutAt`,
`Linked.exists_spot`); and otherwise there is one for none, and the page stays as it is
(`Linked.fillTidily_error`).

A request brings data, or it fails with a message (`Runner.Loads`).  Together the two decide what
comes of a binding and what becomes of the page (`run_outcomes`):

| template | spot | request | outcome | page |
| --- | --- | --- | --- | --- |
| unknown | | is not made | no template | as before |
| known | none | | failure | as before |
| known | some | fails | failed, with the message | error message put in |
| known | some | brings data | rendered | output put in |
-/

import PageBinding.Proofs.Page.FirstOutput
import PageBinding.Proofs.Page.Saving
import PageBinding.Proofs.Page.Showing

namespace PageBinding

open Html (Node Document)
open Numbered (documents idsAll numberAllFrom)

namespace Page

open Fetch (Source)
open Json (Value)
open PageBinding.Tree (root Swapped)
open Template (Markers Collection)

namespace LivePage

/-- **An output can be put somewhere:** the element that it is meant for is in the page, or it is
meant for none, and its template has a place or stands in the page. -/
def Placeable (p : LivePage) (template : String) : Option String → Prop
  | some selector => ∃ x, selected? p.tree selector = .ok (some x)
  | none => (∃ place, p.places.lookup template = some place) ∨
      ∃ x, p.templateElement? template = .ok (some x)

/-- Why an output that can be put nowhere is not put in. -/
def whyNowhere (template : String) : Option String → Failure
  | some selector => .noTarget selector
  | none => .noPlace template

/-- **An output is put in at a spot:** copies of what is below the root of its tree are put in
below a node, before another one, and old nodes are detached.  That leaves the data of elements
alone.  The page that comes of it is left as it is, or it is compacted, and then the copies that
are still there have new numbers. -/
structure PutAt (p : LivePage) (template : String) (target : Option String) (spot : NodeId)
    (old : List NodeId) (before : Option NodeId) (content : Tree) (q : LivePage)
    (nodes : List NodeId) : Prop where
  filled : p.fillTidily template target content = .ok (q, nodes)
  swapped : ∃ u copies, copies = (numberAllFrom p.tree.size content.below).map Numbered.top ∧
    p.fill template target content = .ok (u, copies) ∧
    Swapped p.tree u.tree spot old before content.below ∧ u.ownData = p.ownData ∧
    (q = u ∧ nodes = copies ∨
      ∃ new, u.compact = .ok (q, new) ∧ nodes = copies.filterMap new.get?)

variable {p q : LivePage} {template : String} {target : Option String} {content : Tree}

/-- Filling an element swaps all of its children for copies of the output. -/
theorem fillElement_swapped (h : p.Linked) {selector : String} {x : NodeId}
    (hx : selected? p.tree selector = .ok (some x)) (hc : content.WellFormed)
    (hr : content.Has root) :
    ∃ u, p.fillElement selector content =
        .ok (u, (numberAllFrom p.tree.size content.below).map Numbered.top) ∧
      Swapped p.tree u.tree x (p.tree.childrenOf x) none content.below ∧ u.ownData = p.ownData := by
  obtain ⟨found, hfound, hhas⟩ := Runner.selected?_ok h selector
  obtain rfl := Except.ok.inj (hfound.symm.trans hx)
  obtain ⟨r, htop, ha⟩ := hc.exists_holds hr
  obtain ⟨v, u, hd, hu, hi⟩ := h.wellFormed.replaceChildren_inserted hc ha htop (hhas x rfl)
  rw [← Numbered.documents_eq_map, ← Tree.below_eq hc ha htop] at hu hi
  refine ⟨{ p with tree := u }, ?_, hi.swapped h.wellFormed hd, rfl⟩
  rw [fillElement, hx, lift_ok, ok_bind]
  dsimp only
  rw [hu]
  rfl

/-- Filling a place swaps its nodes for copies of the output. -/
theorem fillPlace_swapped (h : p.Linked) {place : Place}
    (hplace : p.placeOf template = .ok place) (hc : content.WellFormed) (hr : content.Has root) :
    ∃ u, p.fillPlace template content =
        .ok (u, (numberAllFrom p.tree.size content.below).map Numbered.top) ∧
      Swapped p.tree u.tree place.parent place.nodes (place.before p.tree) content.below ∧
        u.ownData = p.ownData := by
  obtain ⟨r, htop, ha⟩ := hc.exists_holds hr
  obtain ⟨u, filled, hv, href, hfill⟩ := fillPlace_of_place h hplace hc ha htop
  rw [← Numbered.documents_eq_map, ← Tree.below_eq hc ha htop] at href
  refine ⟨⟨u, Keyed.set template filled p.places, p.ownData⟩, ?_, href.swapped, rfl⟩
  rw [hfill, href.nodes_eq]

/-- A template of the page has a first place. -/
theorem exists_firstPlace (h : p.Linked) {x : NodeId}
    (hx : p.templateElement? template = .ok (some x)) :
    ∃ place, p.firstPlace template = .ok place := by
  obtain ⟨a, htop, ha⟩ := h.exists_root
  have hfound := Except.ok.inj ((templateElement?_ok h.wellFormed ha htop template).symm.trans hx)
  obtain ⟨parent, hparent⟩ := exists_parent h.wellFormed ha
    (List.mem_of_find?_eq_some (Option.filter_eq_some_iff.1 hfound).1)
  exact ⟨_, firstPlace_eq h.wellFormed hx hparent⟩

/-- A template that can be placed has a place. -/
theorem Linked.exists_place (h : p.Linked) (hp : p.Placeable template none) :
    ∃ place, p.placeOf template = .ok place := by
  rw [placeOf]
  cases hl : p.places.lookup template with
  | some place => exact ⟨place, rfl⟩
  | none =>
    rcases hp with ⟨place, hplace⟩ | ⟨x, hx⟩
    · cases hl.symm.trans hplace
    · exact exists_firstPlace h hx

/-- A template that cannot be placed has none, and that is the failure. -/
theorem Linked.no_place (h : p.Linked) (hp : ¬ p.Placeable template none) :
    p.placeOf template = .error (.noPlace template) := by
  obtain ⟨a, htop, ha⟩ := h.exists_root
  have ht := templateElement?_ok h.wellFormed ha htop template
  rw [placeOf]
  cases hl : p.places.lookup template with
  | some place => exact absurd (.inl ⟨place, hl⟩) hp
  | none =>
    dsimp only
    rw [firstPlace, ht]
    cases hx : ((idsAll a.inside).find?
        fun x => (p.tree.contentOf x).any (Node.hasId template)).filter
      fun x => (p.tree.contentOf x).any Node.isTemplate with
    | some x => exact absurd (.inr ⟨x, hx ▸ ht⟩) hp
    | none => rfl

/-- Without a place nothing is filled, and the failure is the same. -/
theorem fillTidily_of_no_place {e : Failure} (h : p.placeOf template = .error e) (content : Tree) :
    p.fillTidily template none content = .error e := by
  rw [fillTidily, fill, fillPlace, h]
  rfl

/-- **There is one spot for all outputs** of a template that can be put somewhere. -/
theorem Linked.exists_spot (h : p.Linked) (hp : p.Placeable template target) :
    ∃ spot old before, ∀ content : Tree, content.WellFormed → content.Has root →
      ∃ q nodes, p.PutAt template target spot old before content q nodes := by
  obtain ⟨spot, old, before, hfill⟩ : ∃ spot old before, ∀ content : Tree, content.WellFormed →
      content.Has root → ∃ u, p.fill template target content =
          .ok (u, (numberAllFrom p.tree.size content.below).map Numbered.top) ∧
        Swapped p.tree u.tree spot old before content.below ∧ u.ownData = p.ownData := by
    cases target with
    | some selector =>
      obtain ⟨x, hx⟩ := hp
      exact ⟨x, _, none, fun content hc hr => fillElement_swapped h hx hc hr⟩
    | none =>
      obtain ⟨place, hplace⟩ := h.exists_place hp
      exact ⟨_, _, _, fun content hc hr => fillPlace_swapped h hplace hc hr⟩
  refine ⟨spot, old, before, fun content hc hr => ?_⟩
  obtain ⟨u, hu, hswapped, hdata⟩ := hfill content hc hr
  obtain ⟨r, htop, ha⟩ := hc.exists_holds hr
  have hlinked : u.Linked := by
    have hs := fill_safe h template target hc ha htop
    rw [hu] at hs
    exact hs.1
  rcases fillTidily_eq hlinked hu with heq | ⟨q, new, hcompact, heq⟩
  · exact ⟨u, _, heq, u, _, rfl, hu, hswapped, hdata, .inl ⟨rfl, rfl⟩⟩
  · exact ⟨q, _, heq, u, _, rfl, hu, hswapped, hdata, .inr ⟨new, hcompact, rfl⟩⟩

/-- **An output that can be put nowhere** is not put in. -/
theorem Linked.fillTidily_error (h : p.Linked) (hp : ¬ p.Placeable template target)
    (content : Tree) :
    p.fillTidily template target content = .error (whyNowhere template target) := by
  cases target with
  | some selector =>
    obtain ⟨found, hfound, -⟩ := Runner.selected?_ok h selector
    cases found with
    | some x => exact absurd ⟨x, hfound⟩ hp
    | none =>
      rw [fillTidily, fill, fillElement, hfound]
      rfl
  | none => exact fillTidily_of_no_place (h.no_place hp) content

end LivePage

namespace Runner

variable {σ γ : Type} {r : Runner σ γ} {b : Binding} {template : String} {nodes : List NodeId}

/-! ## What a request brings -/

/-- **What comes of the request of a binding:** the data of the answer, once it is kept if the
binding says so, or a message that says why there is none. -/
inductive Loads [Source σ] [Cache γ] (r : Runner σ γ) (b : Binding) : Except String Value → Prop
  | unanswered {why : Fetch.Failure} :
    Source.answer r.source b.method b.url = .error why → Loads r b (.error why.message)
  | unreadable {text : String} {why : Json.ReadError} :
    Source.answer r.source b.method b.url = .ok text → Json.parse text = .error why →
    Loads r b (.error (Fetch.Failure.notData why).message)
  | notKept {text key : String} {data : Value} {cache : γ} {why : Cache.Failure} :
    Source.answer r.source b.method b.url = .ok text → Json.parse text = .ok data →
    b.save = some key → Cache.set r.cache key data.render = (cache, .error why) →
    Loads r b (.error why.message)
  | kept {text key : String} {data : Value} {cache : γ} :
    Source.answer r.source b.method b.url = .ok text → Json.parse text = .ok data →
    b.save = some key → Cache.set r.cache key data.render = (cache, .ok ()) → Loads r b (.ok data)
  | unsaved {text : String} {data : Value} :
    Source.answer r.source b.method b.url = .ok text → Json.parse text = .ok data →
    b.save = none → Loads r b (.ok data)

section
variable [Source σ] [Cache γ]

/-- What comes of a request is what is obtained. -/
theorem loads_iff {result : Except String Value} (n : Notice) :
    r.Loads b result ↔ ((r.report n).obtainData b).2.mapError LoadFailure.message = result := by
  have hreq : (r.report n).request b = r.request b := rfl
  rw [obtainData, hreq, request]
  constructor
  · rintro (hanswer | ⟨hanswer, hparse⟩ | ⟨hanswer, hparse, hsave, hset⟩ |
      ⟨hanswer, hparse, hsave, hset⟩ | ⟨hanswer, hparse, hsave⟩)
    · rw [hanswer]
      rfl
    · rw [hanswer, ok_bind, hparse]
      rfl
    · rw [hanswer, ok_bind, hparse, hsave]
      dsimp only [pure_eq_ok, report]
      rw [hset]
      rfl
    · rw [hanswer, ok_bind, hparse, hsave]
      dsimp only [pure_eq_ok, report]
      rw [hset]
      rfl
    · rw [hanswer, ok_bind, hparse, hsave]
      rfl
  · rintro rfl
    cases hanswer : Source.answer r.source b.method b.url with
    | error why => exact .unanswered hanswer
    | ok text =>
      rw [ok_bind]
      cases hparse : Json.parse text with
      | error why => exact .unreadable hanswer hparse
      | ok data =>
        dsimp only [pure_eq_ok]
        cases hsave : b.save with
        | none => exact .unsaved hanswer hparse hsave
        | some key =>
          dsimp only [report]
          cases hset : Cache.set r.cache key data.render with
          | mk cache result =>
            cases result with
            | error why => exact .notKept hanswer hparse hsave hset
            | ok _ => exact .kept hanswer hparse hsave hset

/-- What comes of a request is one thing. -/
theorem exists_unique_loads (r : Runner σ γ) (b : Binding) : ∃! result, r.Loads b result := by
  refine ⟨_, (loads_iff (.loading b.request)).2 rfl, fun result h => ?_⟩
  exact ((loads_iff (.loading b.request)).1 h).symm

/-! ## What comes of a binding -/

/-- A request that fails puts an error message in. -/
theorem run_of_message {message : String} (ht : r.templateOf? b = some template)
    (hl : r.Loads b (.error message)) {q : LivePage}
    (hf : r.page.fillTidily template b.target (errorContent message) = .ok (q, nodes)) :
    (r.run b).2 = .ok (.failed template message) ∧ (r.run b).1.page = q := by
  have hloads := (loads_iff (.loading b.request)).1 hl
  have hp := (obtainData_keeps (r.report (.loading b.request)) b).1
  rw [run, ht]
  dsimp only
  cases hd : (r.report (.loading b.request)).obtainData b with
  | mk s result =>
    rw [hd] at hloads hp
    cases result with
    | ok data => cases hloads
    | error why =>
      obtain rfl := Except.error.inj hloads
      have hput : (s.report (.loadFailed b.request why.message)).page.fillTidily template b.target
          (errorContent why.message) = .ok (q, nodes) := hp ▸ hf
      dsimp only
      rw [put, hput]
      exact ⟨rfl, rfl⟩

/-- A request that brings data puts the output in. -/
theorem run_of_data {data : Value} {content : Tree} {notices : Array Notice}
    (ht : r.templateOf? b = some template) (hl : r.Loads b (.ok data))
    (hrender : r.templates.render? template data = .ok (some (content, notices))) {q : LivePage}
    (hf : r.page.fillTidily template b.target content = .ok (q, nodes)) :
    (r.run b).2 = .ok (.rendered template nodes) ∧ (r.run b).1.page = q := by
  have hloads := (loads_iff (.loading b.request)).1 hl
  obtain ⟨hp, hts⟩ := obtainData_keeps (r.report (.loading b.request)) b
  rw [run, ht]
  dsimp only
  cases hd : (r.report (.loading b.request)).obtainData b with
  | mk s result =>
    rw [hd] at hloads hp hts
    cases result with
    | error why => cases hloads
    | ok found =>
      obtain rfl := Except.ok.inj hloads
      have hrender : s.templates.render? template found = .ok (some (content, notices)) :=
        hts ▸ hrender
      have hf : s.page.fillTidily template b.target content = .ok (q, nodes) := hp ▸ hf
      dsimp only
      rw [fill_ok hrender hf]
      exact ⟨rfl, rfl⟩

omit [Source σ] [Cache γ] in
/-- A known template can be rendered. -/
theorem Tended.renders (h : r.Tended) (ht : r.templates.contains template = true) (data : Value) :
    ∃ content notices, r.templates.render? template data = .ok (some (content, notices)) ∧
      content.WellFormed ∧ content.Has root := by
  obtain ⟨tree, hget⟩ := Option.isSome_iff_exists.1 ht
  obtain ⟨hw, hroot⟩ := h.templates _ (LivePage.mem_of_lookup hget)
  obtain ⟨out, notices, a, hout, hwo, ha, htop⟩ :=
    Template.render_rooted hw hroot data r.templates.markers
  refine ⟨out, notices, ?_, hwo, htop ▸ ha.has_top⟩
  rw [Collection.render?, hget]
  dsimp only
  rw [hout]
  rfl

omit [Source σ] [Cache γ] in
/-- A template that is rendered is known. -/
theorem contains_of_render? {c : Collection} {data : Value} {output : Tree × Array Notice}
    (h : c.render? template data = .ok (some output)) : c.contains template = true := by
  cases hget : c.get? template with
  | none => rw [Collection.render?, hget] at h; cases h
  | some tree => rw [Collection.contains, hget]; rfl

omit [Source σ] [Cache γ] in
/-- What a template is rendered to has a root. -/
theorem Tended.rendered {data : Value} {content : Tree} {notices : Array Notice} (h : r.Tended)
    (hrender : r.templates.render? template data = .ok (some (content, notices))) :
    ∃ a, content.WellFormed ∧ content.Holds a ∧ a.top = root := by
  obtain ⟨out, found, hout, hwo, hroot⟩ := h.renders (contains_of_render? hrender) data
  obtain ⟨rfl, rfl⟩ := Prod.mk.inj (Option.some.inj (Except.ok.inj (hrender.symm.trans hout)))
  obtain ⟨a, htop, ha⟩ := hwo.exists_holds hroot
  exact ⟨a, hwo, ha, htop⟩

/-- If no output can be put in, the page stays as it is, whatever comes of the request. -/
theorem run_of_nowhere {e : Failure} (h : r.Tended) (ht : r.templateOf? b = some template)
    (hcontains : r.templates.contains template = true)
    (hf : ∀ content, r.page.fillTidily template b.target content = .error e) :
    (r.run b).2 = .error e ∧ (r.run b).1.page = r.page := by
  obtain ⟨hp, hts⟩ := obtainData_keeps (r.report (.loading b.request)) b
  rw [run, ht]
  dsimp only
  cases hd : (r.report (.loading b.request)).obtainData b with
  | mk s result =>
    rw [hd] at hp hts
    cases result with
    | error why =>
      have hput : (s.report (.loadFailed b.request why.message)).page.fillTidily template b.target
          (errorContent why.message) = .error e := hp ▸ hf _
      dsimp only
      rw [put, hput]
      exact ⟨rfl, hp⟩
    | ok data =>
      obtain ⟨content, notices, hrender, -⟩ := h.renders hcontains data
      have hrender : s.templates.render? template data = .ok (some (content, notices)) :=
        hts ▸ hrender
      have hf : s.page.fillTidily template b.target content = .error e := hp ▸ hf _
      dsimp only
      rw [fill_error hrender hf]
      exact ⟨rfl, hp⟩

omit [Source σ] [Cache γ] in
/-- The tree of an error message holds one `div` with the text. -/
theorem below_errorContent (message : String) : (errorContent message).below =
    [.node (.element ⟨"div", [("class", "jx-error")]⟩)
      [.node (.text ("Error: " ++ message)) []]] :=
  Tree.below_ofDocuments _

/-- **What comes of a binding, and what it leaves behind.**  If the binding names no template of
the page, nothing is requested, and nothing changes but that this is reported.  Otherwise, if
there is no spot for the output, that is the failure, and the page stays as it is, whatever the
request brings.  Otherwise there is one spot for every output.  If the request fails, an error
message is put in there and the outcome has the same message; if it brings data, what the
template is rendered to is put in there.  One of the two is the case.  The cache keeps the data
that the request brings if the binding says so, and is else as it was. -/
theorem run_outcomes (page : Tree) (m : Markers) (r : Runner σ γ) (b : Binding)
    (hw : page.WellFormed) (hc : page.contentOf root = some .fragment)
    (hp : page.parentOf root = none) (hr : Reachable page m r) :
    ((∀ template, b.template = some template → r.templates.contains template = false) →
      ∀ source : Source σ, @run σ γ source _ r b =
        (r.report (.noTemplate b.request b.template), .ok .noTemplate)) ∧
    (∀ template, b.template = some template → r.templates.contains template = true →
      (¬ r.page.Placeable template b.target →
        (r.run b).2 = .error (LivePage.whyNowhere template b.target) ∧
        (r.run b).1.page = r.page) ∧
      (r.page.Placeable template b.target → ∃ spot old before,
        (∀ content : Tree, content.WellFormed → content.Has root → ∃ q nodes,
          r.page.PutAt template b.target spot old before content q nodes) ∧
        (∀ message, r.Loads b (.error message) → ∃ nodes,
          (r.run b).2 = .ok (.failed template message) ∧
          r.page.PutAt template b.target spot old before (errorContent message)
            (r.run b).1.page nodes) ∧
        ∀ data, r.Loads b (.ok data) → ∃ content notices nodes,
          r.templates.render? template data = .ok (some (content, notices)) ∧
          (r.run b).2 = .ok (.rendered template nodes) ∧
          r.page.PutAt template b.target spot old before content (r.run b).1.page nodes)) ∧
    (∃! result, r.Loads b result) ∧
    (∀ message, (errorContent message).below =
      [.node (.element ⟨"div", [("class", "jx-error")]⟩)
        [.node (.text ("Error: " ++ message)) []]]) ∧
    (r.run b).1.cache = withKept r.cache (r.saving? b) ∧ (r.run b).1.templates = r.templates := by
  have htended := reachable_tended (LivePage.linked_ofPage hw hc hp) hr
  refine ⟨fun hunknown source => ?_, fun template htemplate hcontains => ⟨fun hnowhere => ?_,
    fun hplaceable => ?_⟩, exists_unique_loads r b, below_errorContent, run_cache r b,
    (run_page r b).2⟩
  · have ht : r.templateOf? b = none := by
      rw [templateOf?, Option.filter_eq_none_iff]
      exact fun template htemplate => by rw [hunknown template htemplate]; exact Bool.false_ne_true
    rw [run, ht]
  · have ht : r.templateOf? b = some template :=
      Option.filter_eq_some_iff.2 ⟨htemplate, hcontains⟩
    exact run_of_nowhere htended ht hcontains (htended.page.fillTidily_error hnowhere)
  · have ht : r.templateOf? b = some template :=
      Option.filter_eq_some_iff.2 ⟨htemplate, hcontains⟩
    obtain ⟨spot, old, before, hput⟩ := htended.page.exists_spot hplaceable
    refine ⟨spot, old, before, hput, fun message hl => ?_, fun data hl => ?_⟩
    · obtain ⟨hwm, hroot⟩ := errorContent_rooted message
      obtain ⟨q, nodes, hq⟩ := hput _ hwm hroot
      obtain ⟨hrun, hpage⟩ := run_of_message ht hl hq.filled
      exact ⟨nodes, hrun, hpage ▸ hq⟩
    · obtain ⟨content, notices, hrender, hwc, hroot⟩ := htended.renders hcontains data
      obtain ⟨q, nodes, hq⟩ := hput content hwc hroot
      obtain ⟨hrun, hpage⟩ := run_of_data ht hl hrender hq.filled
      exact ⟨content, notices, nodes, hrender, hrun, hpage ▸ hq⟩

end

/-- A request to an address where nothing is. -/
theorem run_outcomes_of_missing :
    let page := Tree.ofDocuments
      [.node (.element ⟨"template", [("id", "t")]⟩) [.node (.element ⟨"i", []⟩) []]]
    let b : Binding := ⟨root, .get, "/x", some "t", none, some "k", defaultTrigger⟩
    ∃ r : Runner Fetch.Canned Cache.Memory, page.WellFormed ∧
      page.contentOf root = some .fragment ∧ page.parentOf root = none ∧
      Reachable page .standard r ∧ r.templates.contains "t" = true ∧ r.page.Placeable "t" none ∧
      r.Loads b (.error "HTTP 404") ∧ ∃ spot old before nodes,
        (r.run b).2 = .ok (.failed "t" "HTTP 404") ∧
        r.page.PutAt "t" none spot old before (errorContent "HTTP 404") (r.run b).1.page nodes ∧
        (r.run b).1.cache = withKept r.cache (r.saving? b) := by
  intro page b
  have hw : page.WellFormed := Tree.ofDocuments_wellFormed _
  have hc : page.contentOf root = some .fragment := Tree.contentOf_ofDocuments _
  have hp : page.parentOf root = none := Tree.parentOf_ofDocuments _
  obtain ⟨r, hr, hcontains, helement, hsource⟩ : ∃ r,
      ofPage page .standard Fetch.Canned.empty Cache.Memory.empty = .ok r ∧
        r.templates.contains "t" = true ∧ r.page.templateElement? "t" = .ok (some ⟨1⟩) ∧
        r.source = .empty := exists_of_map_decide (by decide +kernel)
  have hstart : Reachable page .standard r := .start _ _ hr
  have hplaceable : r.page.Placeable "t" none := .inr ⟨_, helement⟩
  have hanswer : Source.answer r.source b.method b.url = .error Fetch.Failure.missing := by
    rw [hsource]
    rfl
  have hloads : r.Loads b (.error "HTTP 404") := .unanswered hanswer
  obtain ⟨-, hknown, -, -, hcache, -⟩ := run_outcomes page .standard r b hw hc hp hstart
  obtain ⟨spot, old, before, -, hfailed, -⟩ := (hknown "t" rfl hcontains).2 hplaceable
  obtain ⟨nodes, hrun, hput⟩ := hfailed _ hloads
  exact ⟨r, hw, hc, hp, hstart, hcontains, hplaceable, hloads, spot, old, before, nodes, hrun,
    hput, hcache⟩

end Runner
end Page
end PageBinding
