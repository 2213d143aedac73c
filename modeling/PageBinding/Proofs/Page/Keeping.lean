/-
# Outputs keep the places of their templates

A runner is drawn (`Drawn`) with the picture of its page by operations whose outputs
have no target: each one that sets up a binding changes the picture where that is
written, and each output becomes the last one of its template.

| place of the template | output goes |
| --- | --- |
| the template itself, not filled yet | to the template |
| nodes of the last output | to these nodes |
| none, and settled | to where the template was |
| none, and not settled | beside that |

So a page looks like its picture as long as nothing is put in a place that is not
settled, and each such place makes it look different for some output
(`outputs_keep_settled_places`).  That happens (`outputs_change_places`): when a
template is filled with nothing, its place remembers what comes after it, and that is
gone once it is replaced itself.
-/

import PageBinding.Proofs.Page.Filling
import PageBinding.Proofs.Page.Writing

namespace PageBinding

open Html (Node Document)
open Html.Document (ClosedAll idsOfAll followersAll? EveryAll)
open Numbered (documents idsAll)

namespace Template

open PageBinding.Tree (root)

variable {m : Markers}

/-- A content has no `id` if it is not among the names of its attributes. -/
theorem unnamed_iff {n : Node} : n.Unnamed ↔ "id" ∉ names n := by
  cases n with
  | element e =>
    have hid : (Node.element e).id? = e.get? "id" := rfl
    have hnames : names (.element e) = e.attributes.map Prod.fst := rfl
    rw [Node.Unnamed, hid, Html.Element.get?, Option.map_eq_none_iff, List.find?_eq_none, hnames]
    constructor
    · intro h hm
      obtain ⟨a, ha, he⟩ := List.mem_map.1 hm
      exact h a ha (decide_eq_true he)
    · intro h a ha he
      exact h (List.mem_map.2 ⟨a, ha, of_decide_eq_true he⟩)
  | _ => simp [Node.Unnamed, Node.id?, names, Node.element?]

/-- Binding data gives no `id` to what has none. -/
theorem lasting_unnamed (m : Markers) : Lasting m Node.Unnamed := by
  have h : Node.Unnamed = fun n => "id" ∉ names n := funext fun n => propext unnamed_iff
  rw [h]
  exact lasting_names m (Q := fun ks => "id" ∉ ks) fun _ _ hs hl hm => hl (hs.subset hm)

/-- An output of a template without `id`s has none. -/
theorem render_unnamed {template content : Tree} {context : Json.Value} {notices : Array Notice}
    (hw : template.WellFormed) (hr : template.Has root) (hun : template.Everywhere Node.Unnamed)
    (h : render template context m = .ok (content, notices)) : ∃ r, content.WellFormed ∧
      content.Holds r ∧ r.top = root ∧ EveryAll Node.Unnamed content.below := by
  obtain ⟨a, htop, ha⟩ := hw.exists_holds hr
  obtain ⟨out, notices', outs, hout, hb⟩ := bindAt_bound hw ha context m Node.Unnamed
  rw [htop] at hout
  obtain ⟨rfl, -⟩ := Prod.mk.inj (Except.ok.inj (h.symm.trans hout))
  have hro : content.Has root := Nat.lt_of_lt_of_le hr hb.size_le
  obtain ⟨r, hrtop, hrh⟩ := hb.wellFormed.exists_holds hro
  refine ⟨r, hb.wellFormed, hrh, hrtop, ?_⟩
  have hevery := (hb.everywhere (lasting_unnamed m) hun).every hrh
  rw [Tree.below_eq hb.wellFormed hrh hrtop]
  cases r
  exact hevery.2

end Template

namespace Page

open Fetch (Source)
open Template (Markers Collection)
open PageBinding.Tree (root)

variable {σ γ : Type}

namespace Picture

variable {picture : Picture} {name : String}

/-- Filling a template leaves the names of templates what they are. -/
theorem has_fill (h : picture.Has name) (template : String) (output : List Document) :
    (picture.fill template output).Has name :=
  ⟨h.mem, h.template⟩

/-- Setting a binding up leaves the names of templates what they are. -/
theorem has_write (h : picture.Has name) (m : Markers) (selector : String) (s : Setup) :
    (picture.write m selector s).Has name := by
  rw [write]
  split
  · rename_i url _ _
    have hkeeps := Setup.writeOn_keeps s m url
    refine ⟨?_, Document.everyAll_rewriteAll (fun n hn hid => ?_) _ h.template⟩
    · rw [Document.idsOfAll_rewriteAll hkeeps]
      exact h.mem
    · rw [hkeeps.isTemplate]
      exact hn ((hkeeps.id? _ n).symm.trans hid)
  · exact h

/-- The picture of the page that an operation delivers to. -/
def prepared (picture : Picture) (m : Markers) : Operation σ γ → Picture
  | .setUp selector s => picture.write m selector s
  | .start selector s => picture.write m selector s
  | _ => picture

/-- **What an operation does to a picture.** -/
def after [Source σ] [Cache γ] (picture : Picture) (r : Runner σ γ) (op : Operation σ γ) : Picture :=
  match r.delivery op with
  | none => picture.prepared r.markers op
  | some d => (picture.prepared r.markers op).fill d.template d.content.below

/-- A picture shows of each template its last output. -/
theorem documents_congr {picture' : Picture} (hp : picture'.page = picture.page)
    (ho : ∀ name, picture'.outputs.lookup name = picture.outputs.lookup name) :
    picture'.documents = picture.documents := by
  rw [documents, documents, hp]
  exact Document.filledWithAll_congr ho _

end Picture

/-- An output is empty, or it is for a template whose place is settled. -/
def Tidy (p : LivePage) (picture : Picture) (d : Delivery) : Prop :=
  d.content.below = [] ∨ p.Settled picture d.template

/-- **The runners that a page leads to by operations without targets,** and the pictures
of their pages, if all outputs are of some kind. -/
inductive Drawn [Source σ] [Cache γ] (page : Tree) (m : Markers)
    (Kind : LivePage → Picture → Delivery → Prop) : Runner σ γ → Picture → Prop
  | start {r : Runner σ γ} (source : σ) (cache : γ) : Runner.ofPage page m source cache = .ok r →
    Drawn page m Kind r ⟨page.below, []⟩
  | step {r : Runner σ γ} {picture : Picture} (op : Operation σ γ) : Drawn page m Kind r picture →
    (∀ d, r.delivery op = some d →
      d.target = none ∧ Kind (r.prepared op) (picture.prepared r.markers op) d) →
    Drawn page m Kind (r.step op).1 (picture.after r op)

namespace Runner

/-- A runner has a picture of its page, and its templates are of the page and have no
`id`s inside. -/
structure Pictured (r : Runner σ γ) (picture : Picture) : Prop where
  page : ∃ ls, Arranged r.page picture ls
  templates : ∀ e ∈ r.templates.templates,
    (e.2.WellFormed ∧ e.2.Has root) ∧ e.2.Everywhere Node.Unnamed ∧ picture.Has e.1

variable {r : Runner σ γ} {picture : Picture}

/-- The templates of a runner are names of its picture. -/
theorem Pictured.has {name : String} (h : r.Pictured picture)
    (hn : r.templates.contains name = true) : picture.Has name := by
  obtain ⟨template, ht⟩ := Option.isSome_iff_exists.1 hn
  exact (h.templates _ (LivePage.mem_of_lookup ht)).2.2

/-- What is inside an outermost template that has a name has no `id`s. -/
theorem unnamed_of_outermost {a b : Numbered} (hb : b ∈ a.outermost)
    (hc : Document.Closed a.document) (hn : b.content.templateName? ≠ none) :
    EveryAll Node.Unnamed (documents b.inside) := by
  induction a using Numbered.induction_up with
  | step id n bs ih =>
    rw [Numbered.outermost] at hb
    split_ifs at hb with ht
    · obtain rfl := List.mem_singleton.1 hb
      exact hc.1 hn
    · obtain ⟨c, hcm, hb⟩ := Numbered.mem_outermostAll.1 hb
      refine ih c hcm hb (Document.closedAll_iff.1 hc.2 _ ?_)
      rw [Numbered.documents_eq_map]
      exact List.mem_map_of_mem hcm

/-- The `id` of an element is one of what is held, and of its content only. -/
theorem has_of_held {t : Tree} {a b : Numbered} {name : String} (ha : t.Holds a)
    (hu : (idsOfAll (documents a.inside)).Nodup) (hb : t.Holds b) (hm : b.top ∈ idsAll a.inside)
    (hid : b.content.id? = some name) (ht : b.content.isTemplate = true) :
    Picture.Has ⟨documents a.inside, []⟩ name := by
  have hids := Tree.HoldsAll.filterMap_idAt (Tree.holdsAll_iff.2 fun c hc => ha.of_mem hc)
  have hbid : t.idAt b.top = some name := by rw [Tree.idAt, hb.content]; exact hid
  refine ⟨?_, ?_⟩
  · show name ∈ idsOfAll (documents a.inside)
    rw [← hids]
    exact List.mem_filterMap.2 ⟨_, hm, hbid⟩
  · show EveryAll _ (documents a.inside)
    rw [Document.everyAll_iff, Numbered.documents_eq_map]
    intro d hd
    obtain ⟨c, hc, rfl⟩ := List.mem_map.1 hd
    refine (ha.of_mem hc).every_of_ids fun x hx n hn hnid => ?_
    have hxid : t.idAt x = some name := by rw [Tree.idAt, hn]; exact hnid
    rw [← hids] at hu
    obtain rfl := Tree.eq_of_nodup_filterMap hu (Numbered.mem_idsAll.2 ⟨c, hc, hx⟩) hm hxid hbid
    rw [Option.some.inj (hn.symm.trans hb.content)]
    exact ht

/-- **A runner of a page has its picture.** -/
theorem ofPage_pictured {page : Tree} {m : Markers} {source : σ} {cache : γ}
    (hl : (LivePage.ofPage page).Linked) (hu : (idsOfAll page.below).Nodup)
    (hc : ClosedAll page.below) (hr : ofPage page m source cache = .ok r) :
    r.Pictured ⟨page.below, []⟩ := by
  obtain ⟨a, htop, ha⟩ := hl.exists_root
  have ha : page.Holds a := ha
  have hw : page.WellFormed := hl.wellFormed
  have hbelow := Tree.below_eq hw ha htop
  obtain ⟨c, hcollect, -, hfrom⟩ := Collection.ofPage_collected hw ha htop m
  rw [ofPage, hcollect] at hr
  obtain rfl := Except.ok.inj hr
  refine ⟨Arranged.ofPage hl hu hc, fun e he => ?_⟩
  obtain ⟨b, hb, hid, hcontent⟩ := hfrom e he
  obtain ⟨d, hd, hb⟩ := Numbered.mem_outermostAll.1 hb
  obtain ⟨hheld, htemplate, hmem⟩ := (ha.of_mem hd).of_mem_outermost hb
  have hid := Node.hasId_iff.1 hid
  have hname : b.content.templateName? ≠ none := by
    rw [Node.templateName?, if_pos htemplate, hid]
    exact Option.some_ne_none _
  rw [hbelow] at hc hu ⊢
  have hclosed : Document.Closed d.document := Document.closedAll_iff.1 hc _ (by
    rw [Numbered.documents_eq_map]
    exact List.mem_map_of_mem hd)
  have hun := unnamed_of_outermost hb hclosed hname
  rw [Numbered.documents_eq_map] at hun
  rw [hcontent]
  exact ⟨⟨Tree.ofDocuments_wellFormed _, Tree.has_iff_contentOf.2 ⟨_, Tree.contentOf_ofDocuments _⟩⟩,
    Tree.ofDocuments_everywhere rfl hun,
    has_of_held ha hu hheld (Numbered.mem_idsAll.2 ⟨d, hd, hmem⟩) hid htemplate⟩

/-- What a pictured runner delivers has no `id`s. -/
theorem Pictured.delivers {d : Delivery} (h : r.Pictured picture) (hd : Delivers r.templates d) :
    picture.Has d.template ∧ ∃ a, d.content.WellFormed ∧ d.content.Holds a ∧ a.top = root ∧
      EveryAll Node.Unnamed d.content.below := by
  obtain ⟨hname, ⟨template, context, notices, hget, hr⟩ | ⟨message, hm⟩⟩ := hd
  · obtain ⟨⟨hw, hroot⟩, hun, -⟩ := h.templates _ (LivePage.mem_of_lookup hget)
    exact ⟨h.has hname, Template.render_unnamed hw hroot hun hr⟩
  · obtain ⟨hw, hroot⟩ := errorContent_rooted message
    obtain ⟨a, htop, ha⟩ := hw.exists_holds hroot
    rw [hm]
    exact ⟨h.has hname, a, hw, ha, htop, errorContent_unnamed message⟩

/-- Preparing the page for an output keeps the picture of it. -/
theorem Pictured.prepared (h : r.Pictured picture) (op : Operation σ γ) :
    (∃ ls, Arranged (r.prepared op) (picture.prepared r.markers op) ls) ∧
      ∀ name, picture.Has name → (picture.prepared r.markers op).Has name := by
  obtain ⟨ls, hls⟩ := h.page
  cases op with
  | setUp selector s => exact ⟨hls.setUp selector s, fun _ hn => Picture.has_write hn ..⟩
  | start selector s => exact ⟨hls.setUp selector s, fun _ hn => Picture.has_write hn ..⟩
  | _ => exact ⟨⟨ls, hls⟩, fun _ hn => hn⟩

section
variable [Source σ] [Cache γ]

/-- **An operation keeps the picture of a page,** if what it delivers has no target and
is put in a settled place, if it is put in one. -/
theorem Pictured.step (h : r.Pictured picture) (op : Operation σ γ)
    (hop : ∀ d, r.delivery op = some d →
      d.target = none ∧ Tidy (r.prepared op) (picture.prepared r.markers op) d) :
    (r.step op).1.Pictured (picture.after r op) := by
  obtain ⟨hpage, htemplates⟩ := step_page r op
  obtain ⟨⟨ls, hls⟩, hhas⟩ := h.prepared op
  rw [Picture.after]
  cases hd : r.delivery op with
  | none =>
    rw [hd] at hpage
    refine ⟨⟨ls, ?_⟩, fun e he => ?_⟩
    · rw [hpage]
      exact hls
    · rw [htemplates] at he
      obtain ⟨hw, hun, hn⟩ := h.templates e he
      exact ⟨hw, hun, hhas _ hn⟩
  | some d =>
    obtain ⟨htarget, htidy⟩ := hop d hd
    obtain ⟨hn, a, hw, ha, htop, hun⟩ := h.delivers (delivery_delivers hd)
    obtain ⟨template, target, content⟩ := d
    obtain rfl : target = none := htarget
    rw [hd] at hpage
    refine ⟨?_, fun e he => ?_⟩
    · rw [hpage]
      exact hls.after_fill (hhas _ hn) hw ha htop hun htidy
    · rw [htemplates] at he
      obtain ⟨hw, hun, hn⟩ := h.templates e he
      exact ⟨hw, hun, Picture.has_fill (hhas _ hn) ..⟩

/-- Every run that is tidy keeps the picture of the page. -/
theorem drawn_pictured {page : Tree} {m : Markers} (hl : (LivePage.ofPage page).Linked)
    (hu : (idsOfAll page.below).Nodup) (hc : ClosedAll page.below)
    (hr : Drawn page m Tidy r picture) : r.Pictured picture := by
  induction hr with
  | start source cache hr => exact ofPage_pictured hl hu hc hr
  | step op _ hop ih => exact ih.step op hop

/-- **Outputs keep the places of their templates where those are settled, and only
there.**  Let the `id`s of a page be different, and let none be inside its templates.
After any operations whose outputs have no target, and by which only empty outputs are
put in places that are not settled, the page is the one that it was made of, with what
bindings wrote, and with each template that has been filled replaced by its last
output; so it depends on nothing but these.  A template whose last output was not empty
has a settled place, and the place of a template is settled just if each error message
shows up where the template was. -/
theorem outputs_keep_settled_places (page : Tree) (m : Markers) (hw : page.WellFormed)
    (hc : page.contentOf root = some .fragment) (hp : page.parentOf root = none)
    (hids : (idsOfAll page.below).Nodup) (hclosed : ClosedAll page.below) :
    ∀ (r : Runner σ γ) (picture : Picture), Drawn page m Tidy r picture →
      r.page.tree.read root = .ok (.node .fragment picture.documents) ∧
      (∀ (r' : Runner σ γ) (picture' : Picture), Drawn page m Tidy r' picture' →
        picture'.page = picture.page →
          (∀ name, picture'.outputs.lookup name = picture.outputs.lookup name) →
            r'.page.tree.read root = r.page.tree.read root) ∧
      ∀ name, r.templates.contains name = true →
        (picture.outputs.lookup name ≠ some [] → r.page.Settled picture name) ∧
        (r.page.Settled picture name ↔ ∀ message,
          (r.page.after (some ⟨name, none, errorContent message⟩)).tree.read root =
            .ok (.node .fragment (picture.fill name (errorContent message).below).documents)) := by
  have hl := LivePage.linked_ofPage hw hc hp
  have key : ∀ {r : Runner σ γ} {picture : Picture}, Drawn page m Tidy r picture →
      r.page.tree.read root = .ok (.node .fragment picture.documents) := fun hr => by
    obtain ⟨ls, hls⟩ := (drawn_pictured hl hids hclosed hr).page
    exact hls.read
  intro r picture hr
  refine ⟨key hr, fun r' picture' hr' hpage houtputs => ?_, fun name hname => ?_⟩
  · rw [key hr', key hr, Picture.documents_congr hpage houtputs]
  · have hpictured := drawn_pictured hl hids hclosed hr
    have hn := hpictured.has hname
    obtain ⟨ls, hls⟩ := hpictured.page
    refine ⟨hls.settled_of_output hn, fun hs message => ?_, fun hall => ?_⟩
    · obtain ⟨hw, hroot⟩ := errorContent_rooted message
      obtain ⟨a, htop, ha⟩ := hw.exists_holds hroot
      obtain ⟨ls', hls'⟩ :=
        hls.after_fill hn hw ha htop (errorContent_unnamed message) (.inr hs)
      exact hls'.read
    · by_contra hs
      obtain ⟨message, hm⟩ := hls.misplaced hn hs
      exact hm (hall message)

end

/-- A template that is filled with nothing and then with an item, before an element. -/
theorem outputs_keep_settled_places_of_item :
    let page := Tree.ofDocuments
      [.node (.element ⟨"template", [("id", "a")]⟩) [.node (.element ⟨"i", [("jx-each", ".")]⟩) []],
        .node (.element ⟨"b", []⟩) []]
    page.WellFormed ∧ page.contentOf root = some .fragment ∧ page.parentOf root = none ∧
      (idsOfAll page.below).Nodup ∧ ClosedAll page.below ∧
      ∃ (r : Runner Fetch.Canned Cache.Memory) (picture : Picture),
        Drawn page .standard Tidy r picture ∧
        picture.documents = [.node (.element ⟨"i", []⟩) [], .node (.element ⟨"b", []⟩) []] ∧
        r.page.tree.read root = .ok (.node .fragment picture.documents) := by
  intro page
  have hw : page.WellFormed := Tree.ofDocuments_wellFormed _
  have hc : page.contentOf root = some .fragment := Tree.contentOf_ofDocuments _
  have hp : page.parentOf root = none := Tree.parentOf_ofDocuments _
  have hids : (idsOfAll page.below).Nodup := by
    rw [Tree.below_ofDocuments]
    decide
  have hclosed : ClosedAll page.below := by
    rw [Tree.below_ofDocuments]
    exact ⟨⟨fun _ => ⟨⟨rfl, trivial⟩, trivial⟩, ⟨nofun, trivial⟩, trivial⟩, ⟨nofun, trivial⟩, trivial⟩
  refine ⟨hw, hc, hp, hids, hclosed, ?_⟩
  let empty : Operation Fetch.Canned Cache.Memory := .renderData "a" (.array [])
  let item : Operation Fetch.Canned Cache.Memory := .renderData "a" (.array [.null])
  -- The place that the empty output leaves, and what the picture shows in the end.
  obtain ⟨r, hr, hnone, hplace, hchildren, hfollowers, hdocuments⟩ : ∃ r,
      ofPage page .standard Fetch.Canned.empty Cache.Memory.empty = .ok r ∧
        r.page.places.lookup "a" = none ∧
        (r.step empty).1.page.places.lookup "a" = some ⟨root, [], some ⟨3⟩⟩ ∧
        (r.step empty).1.page.tree.childrenOf root = [⟨3⟩] ∧
        followersAll? (Picture.after ⟨page.below, []⟩ r empty).outputs "a"
          (Picture.after ⟨page.below, []⟩ r empty).page = some 1 ∧
        ((Picture.after ⟨page.below, []⟩ r empty).after (r.step empty).1 item).documents =
          [.node (.element ⟨"i", []⟩) [], .node (.element ⟨"b", []⟩) []] :=
    exists_of_map_decide (by decide +kernel)
  have hempty : Drawn page .standard Tidy (r.step empty).1 (Picture.after ⟨page.below, []⟩ r empty) :=
    (Drawn.start _ _ hr).step empty fun d hd => by
      obtain ⟨htemplate, htarget⟩ := fillDelivery_for hd
      refine ⟨htarget, .inr fun place hp => ?_⟩
      rw [htemplate] at hp
      cases hnone.symm.trans hp
  have hitem := hempty.step item fun d hd => by
    obtain ⟨htemplate, htarget⟩ := fillDelivery_for hd
    refine ⟨htarget, .inr fun place hp _ => ?_⟩
    rw [htemplate] at hp ⊢
    obtain rfl := Option.some.inj (hplace.symm.trans hp)
    refine hfollowers.trans ?_
    show some 1 = some (((r.step empty).1.page.tree.childrenOf root).dropWhile (· ≠ ⟨3⟩)).length
    rw [hchildren]
    rfl
  exact ⟨_, _, hitem, hdocuments,
    (outputs_keep_settled_places page .standard hw hc hp hids hclosed _ _ hitem).1⟩

/-- **Outputs do not keep their places otherwise.**  Of two templates side by side the
first is filled with nothing, then the second, and then the first with an item: its
output stands after that of the second. -/
theorem outputs_change_places :
    let page := Tree.ofDocuments [.node (.element ⟨"div", []⟩)
      [.node (.element ⟨"template", [("id", "a")]⟩) [.node (.element ⟨"i", [("jx-each", ".")]⟩) []],
        .node (.element ⟨"template", [("id", "b")]⟩) [.node (.element ⟨"b", []⟩) []]]]
    (idsOfAll page.below).Nodup ∧ ClosedAll page.below ∧
      ¬ ∀ (r : Runner Fetch.Canned Cache.Memory) (picture : Picture),
        Drawn page .standard (fun _ _ _ => True) r picture →
          r.page.tree.read root = .ok (.node .fragment picture.documents) := by
  intro page
  refine ⟨?_, ?_, fun hall => ?_⟩
  · rw [Tree.below_ofDocuments]
    decide
  · rw [Tree.below_ofDocuments]
    exact ⟨⟨nofun, ⟨fun _ => ⟨⟨rfl, trivial⟩, trivial⟩, ⟨nofun, trivial⟩, trivial⟩,
      ⟨fun _ => ⟨⟨rfl, trivial⟩, trivial⟩, ⟨nofun, trivial⟩, trivial⟩, trivial⟩, trivial⟩
  · let first : Operation Fetch.Canned Cache.Memory := .renderData "a" (.array [])
    let second : Operation Fetch.Canned Cache.Memory := .renderData "b" .null
    let third : Operation Fetch.Canned Cache.Memory := .renderData "a" (.array [.null])
    obtain ⟨r, hr, hpage, hpicture⟩ : ∃ r,
        ofPage page .standard Fetch.Canned.empty Cache.Memory.empty = .ok r ∧
          (((r.step first).1.step second).1.step third).1.page.tree.read root =
            .ok (.node .fragment [.node (.element ⟨"div", []⟩)
              [.node (.element ⟨"b", []⟩) [], .node (.element ⟨"i", []⟩) []]]) ∧
          (((Picture.after ⟨page.below, []⟩ r first).after (r.step first).1 second).after
              ((r.step first).1.step second).1 third).documents =
            [.node (.element ⟨"div", []⟩)
              [.node (.element ⟨"i", []⟩) [], .node (.element ⟨"b", []⟩) []]] :=
      exists_of_map_decide (by decide +kernel)
    have hstart : Drawn page .standard (fun _ _ _ => True) r ⟨page.below, []⟩ := .start _ _ hr
    have hfirst := hstart.step first fun d hd => ⟨(fillDelivery_for hd).2, trivial⟩
    have hsecond := hfirst.step second fun d hd => ⟨(fillDelivery_for hd).2, trivial⟩
    have hthird := hsecond.step third fun d hd => ⟨(fillDelivery_for hd).2, trivial⟩
    have hread := hall _ _ hthird
    rw [hpage, hpicture] at hread
    simp at hread

end Runner
end Page
end PageBinding
