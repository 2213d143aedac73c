/-
# Rendering what was kept

Data that was kept is read as its canonical form, and rendering does not tell that from the
data.  So a binding that keeps what it requests and a later rendering of what is kept under that
key fill the template with one output (`kept_data_renders_alike`).

The numbers in the data have to be read as they are written (`CorrectlyRounded`).  The steps of
reading round some literals to a neighbour of the number that is nearest to them.
-/

import PageBinding.Proofs.Json.Limits
import PageBinding.Proofs.Json.Rereading
import PageBinding.Proofs.Page.Outcomes
import PageBinding.Proofs.Template.Canonical

namespace PageBinding
namespace Page

open Fetch (Source)
open Json (Value)
open Json.Reader (CorrectlyRounded)
open PageBinding.Tree (root)
open Template (Markers Collection)

namespace LivePage

variable {p : LivePage} {a : Numbered} {template : String} {content : Tree}

/-- An output without target that has a place is put there. -/
theorem fillTidily_of_place (h : p.Linked) {place : Place} (hplace : p.placeOf template = .ok place)
    (hc : content.WellFormed) (ha : content.Holds a) (htop : a.top = root) :
    ∃ q nodes, p.fillTidily template none content = .ok (q, nodes) := by
  obtain ⟨u, filled, hv, href, hfill⟩ := fillPlace_of_place h hplace hc ha htop
  have hfill : p.fill template none content = _ := hfill
  rcases fillTidily_eq (refilled_linked h hv href template) hfill with heq | ⟨s, new, -, heq⟩
  · exact ⟨_, _, heq⟩
  · exact ⟨_, _, heq⟩

end LivePage

namespace Runner

variable {σ : Type} [Source σ] {r s : Runner σ Cache.Memory} {b : Binding} {key template : String}
  {nodes : List NodeId} {data : Value}

omit [Source σ] in
/-- What a rendering of kept data makes of the page. -/
theorem renderKept_eq {text : String} (hget : s.cache.get? key = some text)
    (hparse : Json.parse text = .ok data) :
    s.renderKept key template =
      ((s.renderData template data).1, (s.renderData template data).2.map fun _ => true) := by
  have hcache : Cache.get s.cache key = .ok (some text) := congrArg Except.ok hget
  rw [renderKept, hcache]
  dsimp only
  rw [hparse]
  dsimp only
  cases s.renderData template data with
  | mk u result => cases result <;> rfl

/-- An answer that can be read is what a request brings. -/
theorem request_ok {text : String} (hanswer : Source.answer r.source b.method b.url = .ok text)
    (hparse : Json.parse text = .ok data) : r.request b = .ok data := by
  rw [request, hanswer, ok_bind, hparse]
  rfl

/-- What a request brings is no deeper than what may be read, and its numbers are finite. -/
theorem request_limited (h : r.request b = .ok data) : Json.Reader.Within Json.maxDepth data := by
  rw [request] at h
  cases ha : Source.answer r.source b.method b.url with
  | error why => rw [ha] at h; cases h
  | ok text =>
    rw [ha, ok_bind] at h
    cases hp : Json.parse text with
    | error why => rw [hp] at h; cases h
    | ok found =>
      rw [hp] at h
      exact Except.ok.inj h ▸ Json.within_of_parse hp

/-- A run that fills its template has kept the data, if it was to. -/
theorem kept_of_run (hsave : b.save = some key) (h : (r.run b).2 = .ok (.rendered template nodes)) :
    ∃ data content notices, r.request b = .ok data ∧
      r.templates.render? template data = .ok (some (content, notices)) ∧
      r.page.fillTidily template b.target content = .ok ((r.run b).1.page, nodes) ∧
      (r.run b).1.cache.get? key = some data.render := by
  obtain ⟨o, ho, rfl, content, notices, hrender, hfill⟩ := run_gives h
  cases ho with
  | run ht hreq =>
    refine ⟨_, content, notices, hreq, hrender, hfill, ?_⟩
    have hcache := run_cache r b
    rw [saving?, ht, hreq, hsave] at hcache
    rw [hcache]
    exact Cache.Memory.get?_set_self ..

/-- A binding that says what to request and where to keep it fills its template. -/
theorem run_ok {content : Tree} {notices : Array Notice} {q : LivePage}
    (htemplate : b.template = some template) (hreq : r.request b = .ok data)
    (hsave : b.save = some key)
    (hrender : r.templates.render? template data = .ok (some (content, notices)))
    (hfill : r.page.fillTidily template b.target content = .ok (q, nodes)) :
    (r.run b).2 = .ok (.rendered template nodes) ∧ (r.run b).1.page = q := by
  refine run_of_data (Option.filter_eq_some_iff.2 ⟨htemplate, contains_of_render? hrender⟩)
    ((loads_iff (.loading b.request)).2 ?_) hrender hfill
  have hreq : (r.report (.loading b.request)).request b = .ok data := hreq
  rw [obtainData, hreq, hsave]
  rfl

omit [Source σ] in
/-- What is kept fills the template if that has a place. -/
theorem Tended.renderKept_eq {content : Tree} {notices : Array Notice} {text : String}
    (h : s.Tended) (hget : s.cache.get? key = some text) (hparse : Json.parse text = .ok data)
    (hrender : s.templates.render? template data = .ok (some (content, notices))) :
    (∀ place, s.page.placeOf template = .ok place → ∃ q filled,
      s.page.fillTidily template none content = .ok (q, filled) ∧
      s.renderKept key template = ({ s.reportAll notices with page := q }, .ok true)) ∧
    ∀ e, s.page.placeOf template = .error e →
      s.renderKept key template = (s.reportAll notices, .error e) := by
  obtain ⟨a, hwo, ha, htop⟩ := h.rendered hrender
  refine ⟨fun place hplace => ?_, fun e he => ?_⟩
  · obtain ⟨q, filled, hfill⟩ := LivePage.fillTidily_of_place h.page hplace hwo ha htop
    refine ⟨q, filled, hfill, ?_⟩
    rw [Runner.renderKept_eq hget hparse, renderData, fill_ok hrender hfill]
    rfl
  · rw [Runner.renderKept_eq hget hparse, renderData,
      fill_error hrender (LivePage.fillTidily_of_no_place he content)]
    rfl

/-- Rendering data keeps nothing. -/
theorem later_renderData (key template : String) (data : Value) :
    Later key r (r.step (.renderData template data)).1 :=
  .step (.renderData template data) .refl trivial ⟨rfl, fun _ _ h => by cases h⟩

/-- Rendering data that has a place puts the output there. -/
theorem page_renderData {content : Tree} {notices : Array Notice} {q : LivePage}
    (hrender : r.templates.render? template data = .ok (some (content, notices)))
    (hfill : r.page.fillTidily template none content = .ok (q, nodes)) :
    (r.step (.renderData template data)).1.page = q := by
  rw [step, renderData, fill_ok hrender hfill]
  rfl

/-- **Kept data renders as the data does.**  Data whose numbers are finite and read as they are
written, and that is no deeper than what may be read, is read from the text that files keep of it,
and what is read renders to the same tree with the same notices.  So if a binding that keeps its
data under a key fills a template, then as long as nothing else is kept under that key, the
template is rendered from what is kept there to the same output.  That takes the place of the
template if it has one. -/
theorem kept_data_renders_alike :
    (∀ v : Value, v.Finite → v.depth ≤ 127 → (∀ n, v.Inside (.number n) → CorrectlyRounded n) →
      ∃ w, Json.parse v.render = .ok w ∧
        ∀ (template : Tree) (m : Markers), template.WellFormed → template.Has root →
          ∃ out notices, Template.render template w m = .ok (out, notices) ∧
            Template.render template v m = .ok (out, notices)) ∧
    ∀ (page : Tree) (m : Markers), page.WellFormed → page.contentOf root = some .fragment →
      page.parentOf root = none →
      ∀ r : Runner σ Cache.Memory, Reachable page m r →
      ∀ (b : Binding) (key template : String) (nodes : List NodeId), b.save = some key →
        (r.run b).2 = .ok (.rendered template nodes) →
        ∃ data content notices, r.request b = .ok data ∧
          r.templates.render? template data = .ok (some (content, notices)) ∧
          r.page.fillTidily template b.target content = .ok ((r.run b).1.page, nodes) ∧
          ((∀ n, data.Inside (.number n) → CorrectlyRounded n) →
            ∀ s, Later key (r.run b).1 s →
              (∀ place, s.page.placeOf template = .ok place → ∃ q filled,
                s.page.fillTidily template none content = .ok (q, filled) ∧
                s.renderKept key template = ({ s.reportAll notices with page := q }, .ok true)) ∧
              ∀ e, s.page.placeOf template = .error e →
                s.renderKept key template = (s.reportAll notices, .error e)) := by
  refine ⟨fun v hfinite hdepth hround => ?_, ?_⟩
  · refine ⟨v.canonical, Value.parse_render hdepth fun n hn _ => hround n hn, ?_⟩
    intro template m hw hroot
    obtain ⟨out, notices, -, hout, -⟩ := Template.render_rooted hw hroot v m
    exact ⟨out, notices, (Template.render_canonical hfinite template m).trans hout, hout⟩
  · intro page m hw hc hp r hr b key template nodes hsave hrun
    obtain ⟨data, content, notices, hreq, hrender, hfill, hkept⟩ := kept_of_run hsave hrun
    refine ⟨data, content, notices, hreq, hrender, hfill, fun hround s hlater => ?_⟩
    have hlimits := request_limited hreq
    have hparse := Value.parse_render hlimits.depth fun n hn _ => hround n hn
    -- The runner has the templates that it had, and what was kept.
    have hran : Reachable page m (r.run b).1 := Reachable.step (.run b) hr trivial
    have htended := reachable_tended (LivePage.linked_ofPage hw hc hp) (hlater.reachable hran)
    have hsame : s.templates.render? template data.canonical = .ok (some (content, notices)) := by
      rw [Collection.render?_canonical hlimits.finite, hlater.templates, (run_page r b).2, hrender]
    exact htended.renderKept_eq (hlater.get?.trans hkept) hparse hsame

/-- Data with a name twice, minus zero and an exponent, which is kept when it has filled a list.
The list is filled once more before what was kept is rendered. -/
theorem kept_data_renders_alike_of_list :
    let data : Value := .object [("b", .null), ("a", .string "\"\n"),
      ("b", .array [.number (.ofBits 0x8000000000000000), .number (.ofBits 0x7e37e43c8800759c)])]
    let page := Tree.ofDocuments [.node (.element ⟨"template", [("id", "t")]⟩)
      [.node (.element ⟨"p", [("title", "\x7b\x7ba\x7d\x7d")]⟩)
        [.node (.element ⟨"b", [("jx-each", "b")]⟩) [.node (.element ⟨"i", [("jx-if", ".")]⟩) []]]]]
    let source := Fetch.Canned.empty.set .get "/x" ⟨200, data.render⟩
    let b : Binding := ⟨root, .get, "/x", some "t", none, some "k", defaultTrigger⟩
    data.Finite ∧ data.depth ≤ 127 ∧ (∀ n, data.Inside (.number n) → CorrectlyRounded n) ∧
      (∃ w, Json.parse data.render = .ok w ∧
        ∀ (template : Tree) (m : Markers), template.WellFormed → template.Has root →
          ∃ out notices, Template.render template w m = .ok (out, notices) ∧
            Template.render template data m = .ok (out, notices)) ∧
      ∃ (r : Runner Fetch.Canned Cache.Memory) (nodes : List NodeId) (content : Tree)
        (notices : Array Notice),
        ofPage page .standard source .empty = .ok r ∧ (r.run b).2 = .ok (.rendered "t" nodes) ∧
        r.page.fillTidily "t" none content = .ok ((r.run b).1.page, nodes) ∧
        ∀ s, s = ((r.run b).1.step (.renderData "t" .null)).1 → Later "k" (r.run b).1 s ∧
          ∃ q filled, s.page.fillTidily "t" none content = .ok (q, filled) ∧
            s.renderKept "k" "t" = ({ s.reportAll notices with page := q }, .ok true) := by
  intro data page source b
  have hall := @kept_data_renders_alike Fetch.Canned _
  have hfinite : data.Finite := by decide
  have hround : ∀ n, data.Inside (.number n) → CorrectlyRounded n :=
    Value.forall_number_iff.2 (by decide +kernel)
  -- The page with the list filled, and with it filled once more.
  have hcomputed : ((Collection.ofPage page .standard).toOption.bind fun c =>
      (c.render? "t" data.canonical).toOption.join.bind fun o =>
      ((LivePage.ofPage page).fillTidily "t" none o.1).toOption.bind fun e =>
      (c.render? "t" .null).toOption.join.bind fun u =>
      (e.1.fillTidily "t" none u.1).toOption.bind fun f =>
      f.1.places.lookup "t") = some ⟨root, [⟨9⟩], none⟩ := by decide +kernel
  simp only [Option.bind_eq_some_iff, Option.join_eq_some_iff] at hcomputed
  obtain ⟨c, hc, ⟨content, notices⟩, hrender, ⟨p, nodes⟩, hfill, ⟨second, more⟩, hsecond,
    ⟨q, last⟩, hfills, hplace⟩ := hcomputed
  have hrender := eq_ok_of_toOption hrender
  let r : Runner Fetch.Canned Cache.Memory := ⟨.ofPage page, c, source, .empty, #[]⟩
  have hpage : ofPage page .standard source Cache.Memory.empty = .ok r := by
    rw [ofPage, eq_ok_of_toOption hc]
    rfl
  have hreq : r.request b = .ok data.canonical := request_ok (Fetch.Canned.answer_set_self ..)
    (Value.parse_render (by decide) fun n hn _ => hround n hn)
  obtain ⟨hrun, rfl⟩ := run_ok rfl hreq rfl hrender (eq_ok_of_toOption hfill)
  obtain ⟨found, out, found', hreq', hrender', hfill', hlater⟩ :=
    hall.2 page .standard (Tree.ofDocuments_wellFormed _) (Tree.contentOf_ofDocuments _)
      (Tree.parentOf_ofDocuments _) r (.start _ _ hpage) b "k" "t" nodes rfl hrun
  obtain rfl := Except.ok.inj (hreq'.symm.trans hreq)
  obtain ⟨rfl, rfl⟩ := Prod.mk.inj (Option.some.inj (Except.ok.inj (hrender.symm.trans hrender')))
  refine ⟨hfinite, by decide, hround, hall.1 data hfinite (by decide) hround,
    r, nodes, content, notices, hpage, hrun, hfill', fun s hs => ?_⟩
  have hs' : Later "k" (r.run b).1 s := hs ▸ later_renderData "k" "t" .null
  refine ⟨hs', (hlater (fun n hn => hround n (Value.number_canonical hn).1) s hs').1
    ⟨root, [⟨9⟩], none⟩ ?_⟩
  have hsecond : (r.run b).1.templates.render? "t" .null = .ok (some (second, more)) :=
    (congrArg (·.render? "t" .null) (run_page r b).2).trans (eq_ok_of_toOption hsecond)
  rw [hs, page_renderData hsecond (eq_ok_of_toOption hfills), LivePage.placeOf, hplace]
  rfl

end Runner
end Page
end PageBinding
