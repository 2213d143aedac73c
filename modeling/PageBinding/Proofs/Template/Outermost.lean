/-
# The outermost templates of a page

Of a page the templates with an `id` are registered that are in no other template, with an `id`
or without.  Which these are is said of the nodes above them (`Registrable`); the walk that
collects them says it by not going on into a template.  The two agree
(`registrable_iff`), and of the templates of one name the first in document order is taken
(`firstRegistrable_of_find?`).

It makes no difference whether the templates are found first and taken up then, or each is
taken up as the walk comes to it (`Collection.takeUp_eq`).
-/

import PageBinding.Proofs.Named
import PageBinding.Proofs.Template.Binding
import PageBinding.Proofs.Template.Registered
import PageBinding.Proofs.Tree.Copying

namespace PageBinding

open Html (Node)
open Numbered (idsAll outermostAll)

namespace Template

variable {page : Tree} {a b : Numbered} {m : Markers} {name : String} {x : NodeId}

/-- The element is a template of the name that can be reached from the root, and no element
above it, up to the root, is a template. -/
structure Registrable (page : Tree) (name : String) (x : NodeId) : Prop where
  reachable : page.Within Tree.root x
  named : ∃ e, page.contentOf x = some (.element e) ∧ e.tag = Html.templateTag ∧
    e.get? "id" = some name
  outermost : ∀ y e, page.Within Tree.root y → page.Above y x →
    page.contentOf y = some (.element e) → e.tag ≠ Html.templateTag

/-- The first such template, in document order. -/
structure FirstRegistrable (page : Tree) (name : String) (x : NodeId) : Prop
    extends Registrable page name x where
  first : ∃ before after, page.descendants Tree.root = .ok (before ++ x :: after) ∧
    ∀ y ∈ before, ¬ Registrable page name y

/-- A tree of copies of the children of an element. -/
structure ContentOf (page : Tree) (x : NodeId) (template : Tree) : Prop where
  gathered : page.gather x = .ok template
  wellFormed : template.WellFormed
  same : ∃ children ds, page.children x = .ok children ∧ children.mapM page.read = .ok ds ∧
    template.read Tree.root = .ok (.node .fragment ds)

/-! ## The walk with a stack -/

namespace Collection

/-- A name is listed if there is a template of it. -/
theorem mem_names {c : Collection} : name ∈ c.names ↔ ∃ template, c.get? name = some template := by
  rw [names, Named.mem_names_sorted, ← Option.isSome_iff_exists, get?, List.lookup_isSome_iff,
    List.mem_map]
  exact exists_congr fun e => and_congr_right fun _ => by rw [beq_iff_eq, eq_comm]

/-- **Taking up the templates as the walk comes to them** is taking up those that it finds. -/
theorem takeUp_eq : ∀ {steps : Nat} {pending ids : List NodeId} (c : Collection),
    outermostTemplates page steps pending = .ok ids →
      takeUp page steps pending.reverse.toArray c = ids.foldlM (add page) c := by
  intro steps
  induction steps with
  | zero =>
    rintro (_ | ⟨id, pending⟩) ids c h
    · obtain rfl := Except.ok.inj h
      rfl
    · cases h
  | succ steps ih =>
    rintro (_ | ⟨id, pending⟩) ids c h
    · obtain rfl := Except.ok.inj h
      rfl
    · have hback : (id :: pending).reverse.toArray.back? = some id := by simp
      have hpop : (id :: pending).reverse.toArray.pop = pending.reverse.toArray := by simp
      rw [takeUp, hback, hpop]
      rw [outermostTemplates] at h
      dsimp only
      cases ht : isTemplate page id with
      | error f => rw [ht] at h; cases h
      | ok found =>
        rw [ht, ok_bind] at h
        rw [ok_bind]
        cases found with
        | true =>
          rw [if_pos rfl] at h ⊢
          cases hrest : outermostTemplates page steps pending with
          | error f => rw [hrest] at h; cases h
          | ok rest =>
            rw [hrest] at h
            obtain rfl := Except.ok.inj h
            rw [List.foldlM_cons]
            exact bind_congr fun d => ih d hrest
        | false =>
          rw [if_neg Bool.false_ne_true] at h ⊢
          cases hbelow : page.children id with
          | error f => rw [hbelow] at h; cases h
          | ok below =>
            rw [hbelow, ok_bind] at h
            -- The children go on the stack from the last to the first.
            rw [ok_bind, ← ih c h]
            simp

/-- The walk with a stack collects what the recursion does. -/
theorem ofPageOnStack_ok {c : Collection} (h : ofPage page m = .ok c) :
    ofPageOnStack page m = .ok c := by
  rw [ofPage] at h
  rw [ofPageOnStack]
  cases hc : page.children Tree.root with
  | error f => rw [hc] at h; cases h
  | ok children =>
    rw [hc, ok_bind] at h
    rw [ok_bind]
    cases hids : outermostTemplates page page.size children with
    | error f => rw [hids] at h; cases h
    | ok ids =>
      rw [hids, ok_bind] at h
      rw [takeUp_eq _ hids, h]

end Collection

/-! ## The templates that are collected -/

/-- A content is a template of a name if it is a `template` element with that `id`. -/
theorem isTemplate_and_hasId {n : Node} : n.isTemplate = true ∧ n.hasId name = true ↔
    ∃ e, n = .element e ∧ e.tag = Html.templateTag ∧ e.get? "id" = some name := by
  cases n <;> simp [Node.isTemplate, Node.hasId, Node.element?]

/-- **The templates that are in no other one** are those that the walk finds. -/
theorem registrable_iff (hw : page.WellFormed) (ha : page.Holds a) (htop : a.top = Tree.root)
    (hfragment : a.content = .fragment) :
    Registrable page name x ↔
      ∃ b ∈ outermostAll a.inside, b.top = x ∧ b.content.hasId name = true := by
  have houter : a.outermost = outermostAll a.inside :=
    Numbered.outermost_of_not_template (by rw [hfragment]; rfl)
  have hin : ∀ y, y ∈ a.ids ↔ page.Within Tree.root y := fun y => htop ▸ ha.mem_ids hw
  rw [← houter]
  constructor
  · rintro ⟨hreach, ⟨e, he, hnamed⟩, habove⟩
    obtain ⟨htemplate, hid⟩ := isTemplate_and_hasId.2 ⟨e, rfl, hnamed⟩
    obtain ⟨b, hb, rfl⟩ := ha.exists_outermost hw ((hin x).2 hreach) (by rwa [he, Option.any_some])
      fun y hy n hyx hn => Bool.eq_false_iff.2 fun ht => by
        cases n with
        | element e =>
          exact habove y e ((hin y).1 hy) hyx hn (by simpa [Node.isTemplate, Node.element?] using ht)
        | _ => cases ht
    refine ⟨b, hb, rfl, ?_⟩
    rwa [Option.some.inj ((ha.of_mem_outermost hb).1.content.symm.trans he)]
  · rintro ⟨b, hb, rfl, hid⟩
    obtain ⟨hbh, htemplate, hmem⟩ := ha.of_mem_outermost hb
    obtain ⟨e, he, hnamed⟩ := isTemplate_and_hasId.1 ⟨htemplate, hid⟩
    refine ⟨(hin _).1 hmem, ⟨e, hbh.content.trans (congrArg some he), hnamed⟩,
      fun y e hy hyx hn ht => ?_⟩
    have := ha.above_outermost hw hb ((hin y).2 hy) hyx hn
    simp [Node.isTemplate, Node.element?, ht] at this

open Classical in
/-- **The template of a name is taken from the first element** that it can be taken from. -/
theorem firstRegistrable_of_find? (hw : page.WellFormed) (ha : page.Holds a)
    (htop : a.top = Tree.root) (hfragment : a.content = .fragment)
    (hb : (outermostAll a.inside).find? (·.content.hasId name) = some b) :
    FirstRegistrable page name b.top := by
  have hiff : ∀ x, Registrable page name x ↔ _ := fun x => registrable_iff hw ha htop hfragment
  have hbm := List.mem_of_find?_eq_some hb
  have hreg : Registrable page name b.top := (hiff _).2
    ⟨b, hbm, rfl, List.find?_some (p := fun c : Numbered => c.content.hasId name) hb⟩
  have hbelow : ∀ c ∈ outermostAll a.inside, c.top ∈ idsAll a.inside := fun c hc =>
    (Numbered.outermostAll_sublist a.inside).subset (List.mem_map_of_mem hc)
  let p (x : NodeId) : Bool := decide (Registrable page name x)
  obtain ⟨x, hx⟩ := Option.isSome_iff_exists.1 <| List.find?_isSome (p := p).2
    ⟨_, hbelow b hbm, decide_eq_true hreg⟩
  obtain ⟨c, hc, rfl, -⟩ := (hiff x).1 (of_decide_eq_true (List.find?_some (p := p) hx))
  have hp : ∀ d ∈ outermostAll a.inside, p d.top = d.content.hasId name := fun d hd => by
    rw [Bool.eq_iff_iff, decide_eq_true_iff, hiff]
    constructor
    · rintro ⟨e, he, hed, hid⟩
      rwa [← (Collection.holds_of_mem_outermostAll ha he).unique
        (Collection.holds_of_mem_outermostAll ha hd) hed]
    · exact fun hid => ⟨d, hd, rfl, hid⟩
  -- Of the elements that it can be taken from the first is the first that the walk finds.
  obtain rfl := Option.some.inj ((find?_outermostAll hw ha hp hc hx).symm.trans hb)
  obtain ⟨-, before, after, hids, hbefore⟩ := List.find?_eq_some_iff_append.1 hx
  refine ⟨hreg, before, after, ?_, fun y hy hyr => ?_⟩
  · rw [← htop, Tree.descendants_ok hw ha, hids]
  · simpa [p, hyr] using hbefore y hy

/-- What is registered is a tree of copies. -/
theorem contentOf_ofDocuments (hw : page.WellFormed) (hb : page.Holds b) :
    ContentOf page b.top (.ofDocuments (b.inside.map Numbered.document)) where
  gathered := hw.gather_ok hb
  wellFormed := Tree.ofDocuments_wellFormed _
  same := by
    refine ⟨_, _, (Tree.children_ok hb.has_top).trans (congrArg _ hb.children),
      Tree.mapM_read hw fun c hc => hb.of_mem hc, ?_⟩
    have h := (Tree.ofDocuments_holds (b.inside.map Numbered.document)).read
      (Tree.ofDocuments_wellFormed _)
    rw [Numbered.documents_eq_map]
    rwa [Numbered.top_numberFrom, Numbered.document_numberFrom] at h

/-- **The templates of a page are its outermost ones.**  Of a well-formed page with a fragment
at the root they are always collected, in as many steps as there are nodes.  There is one for
each `id` of a `template` element that no `template` element is above, and it is a copy of
what is in the first of these elements; so data of this name is bound to what is in that
element, and data of other names to nothing. -/
theorem ofPage_registers_outermost (hw : page.WellFormed)
    (hroot : page.contentOf Tree.root = some .fragment) (m : Markers) :
    ∃ c, Collection.ofPage page m = .ok c ∧ Collection.ofPageOnStack page m = .ok c ∧
      c.markers = m ∧ (∀ name, name ∈ c.names ↔ ∃ x, Registrable page name x) ∧
      (∀ name ∈ c.names, ∃ x template, FirstRegistrable page name x ∧
        c.get? name = some template ∧ ContentOf page x template ∧
        ∀ data, ∃ out notices, render template data m = .ok (out, notices) ∧
          c.render? name data = .ok (some (out, notices))) ∧
      ∀ name data, c.render? name data = .ok none ↔ name ∉ c.names := by
  obtain ⟨a, htop, ha⟩ := hw.exists_holds (Tree.has_iff_contentOf.2 ⟨_, hroot⟩)
  have hfragment : a.content = .fragment :=
    Option.some.inj (ha.content.symm.trans (htop ▸ hroot))
  obtain ⟨c, hc, hm, hget⟩ := Collection.ofPage_get? hw ha htop m
  have hnames : ∀ name, name ∈ c.names ↔
      ∃ b, (outermostAll a.inside).find? (·.content.hasId name) = some b := fun name => by
    rw [Collection.mem_names, hget, ← Option.isSome_iff_exists, Option.isSome_map,
      Option.isSome_iff_exists]
  refine ⟨c, hc, Collection.ofPageOnStack_ok hc, hm, fun name => ?_, fun name hname => ?_,
    fun name data => ?_⟩
  · rw [hnames, ← Option.isSome_iff_exists, List.find?_isSome]
    simp only [registrable_iff hw ha htop hfragment]
    constructor
    · rintro ⟨b, hb, hid⟩
      exact ⟨b.top, b, hb, rfl, hid⟩
    · rintro ⟨x, b, hb, rfl, hid⟩
      exact ⟨b, hb, hid⟩
  · obtain ⟨b, hb⟩ := (hnames name).1 hname
    have hbh := Collection.holds_of_mem_outermostAll ha (List.mem_of_find?_eq_some hb)
    have hcopy := contentOf_ofDocuments hw hbh
    have hg := hget name
    rw [hb, Option.map_some] at hg
    refine ⟨b.top, _, firstRegistrable_of_find? hw ha htop hfragment hb, hg, hcopy, fun data => ?_⟩
    obtain ⟨out, notices, -, hout, -⟩ := render_rooted hcopy.wellFormed
      (Tree.has_iff_contentOf.2 ⟨_, Tree.contentOf_ofDocuments _⟩) data m
    refine ⟨out, notices, hout, ?_⟩
    rw [Collection.render?, hg, hm]
    dsimp only
    rw [hout]
    rfl
  · rw [Collection.mem_names]
    cases hg : c.get? name with
    | none => simp [Collection.render?, hg, pure_eq_ok]
    | some template =>
      simp only [Collection.render?, hg]
      constructor
      · intro h
        cases hr : render template data c.markers with
        | error f => rw [hr] at h; cases h
        | ok out => rw [hr] at h; cases h
      · exact fun h => absurd ⟨template, rfl⟩ h

/-- Of a template with another one in it, one without an `id` that has another one in it, and two
of one name, the outer one and the first of the two are registered. -/
theorem ofPage_registers_outermost_of_nested :
    let page := Tree.ofDocuments [
      .node (.element ⟨"div", []⟩) [.node (.element ⟨"template", [("id", "outer")]⟩)
        [.node (.element ⟨"p", []⟩) [.node (.element ⟨"template", [("id", "inner")]⟩) []]]],
      .node (.element ⟨"template", []⟩) [.node (.element ⟨"template", [("id", "hidden")]⟩) []],
      .node (.element ⟨"template", [("id", "users")]⟩) [.node (.text "first") []],
      .node (.element ⟨"template", [("id", "users")]⟩) [.node (.text "second") []]]
    page.WellFormed ∧ page.contentOf Tree.root = some .fragment ∧
      (∃ x, FirstRegistrable page "outer" x) ∧ (¬ ∃ x, Registrable page "inner" x) ∧
      (¬ ∃ x, Registrable page "hidden" x) ∧ ∃ c x template, Collection.ofPage page .standard = .ok c ∧
        c.names = ["outer", "users"] ∧ FirstRegistrable page "users" x ∧
        ContentOf page x template ∧ template.html = .ok "first" := by
  intro page
  have hw : page.WellFormed := Tree.ofDocuments_wellFormed _
  have hroot : page.contentOf Tree.root = some .fragment := Tree.contentOf_ofDocuments _
  have hlist : (Collection.ofPage page .standard).map (fun c =>
      (c.names, (c.get? "users").map Tree.html)) = .ok (["outer", "users"], some (.ok "first")) := by
    decide +kernel
  obtain ⟨c, hc, -, -, hnames, htemplates, -⟩ := ofPage_registers_outermost hw hroot .standard
  rw [hc] at hlist
  obtain ⟨hcn, htext⟩ := Prod.mk.inj (Except.ok.inj hlist)
  simp only [hcn] at hnames htemplates
  obtain ⟨x, -, houter, -⟩ := htemplates "outer" (by decide)
  obtain ⟨y, template, husers, hget, hcontent, -⟩ := htemplates "users" (by decide)
  rw [hget] at htext
  exact ⟨hw, hroot, ⟨x, houter⟩, fun h => absurd ((hnames _).2 h) (by decide),
    fun h => absurd ((hnames _).2 h) (by decide), c, y, template, hc, hcn, husers, hcontent,
    Option.some.inj htext⟩

end Template
end PageBinding
