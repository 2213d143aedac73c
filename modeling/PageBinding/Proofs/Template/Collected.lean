/-
# The templates that a page has

The outermost templates of a well-formed page are those of what is held at the
root (`Numbered.outermostAll`).  Collecting them succeeds, and each template that is
collected is the tree of what is inside one of them, under its `id`
(`ofPage_collected`); of those with one `id` it is the first (`ofPage_get?`).
-/

import PageBinding.Proofs.Tree.Planting
import PageBinding.Proofs.Tree.Walking
import PageBinding.Template.Collection

namespace PageBinding

open Html (Node Document)
open Numbered (idsAll)

/-- A content is a `template` element. -/
def Html.Node.isTemplate (n : Node) : Bool := n.element?.any fun e => e.tag = Html.templateTag

namespace Numbered

mutual

/-- The outermost templates of a numbered document. -/
def outermost : Numbered → List Numbered
  | .node id n bs => if n.isTemplate then [.node id n bs] else outermostAll bs

/-- The outermost templates of some numbered documents. -/
def outermostAll : List Numbered → List Numbered
  | [] => []
  | b :: bs => outermost b ++ outermostAll bs

end

/-- The outermost templates of documents in a row. -/
theorem outermostAll_append (as bs : List Numbered) :
    outermostAll (as ++ bs) = outermostAll as ++ outermostAll bs := by
  induction as with
  | nil => rfl
  | cons a as ih => rw [List.cons_append, outermostAll, outermostAll, ih, List.append_assoc]

/-- An outermost template of some documents is one of one of them. -/
theorem mem_outermostAll {bs : List Numbered} {c : Numbered} :
    c ∈ outermostAll bs ↔ ∃ b ∈ bs, c ∈ b.outermost := by
  induction bs with
  | nil => simp [outermostAll]
  | cons b bs ih => simp [outermostAll, ih]

end Numbered

namespace Tree

variable {t : Tree} {a b : Numbered}

/-- The outermost templates of what is held are held. -/
theorem Holds.of_mem_outermost (ha : t.Holds a) (hb : b ∈ a.outermost) :
    t.Holds b ∧ b.content.isTemplate = true ∧ b.top ∈ a.ids := by
  induction a using Numbered.induction_up with
  | step id n bs ih =>
    rw [Numbered.outermost] at hb
    split_ifs at hb with hn
    · obtain rfl := List.mem_singleton.1 hb
      exact ⟨ha, hn, Numbered.top_mem_ids _⟩
    · obtain ⟨c, hc, hb⟩ := Numbered.mem_outermostAll.1 hb
      obtain ⟨h, htemplate, hm⟩ := ih c hc (ha.of_mem hc) hb
      exact ⟨h, htemplate, Numbered.ids_subset_of_mem hc hm⟩

end Tree

namespace Template

variable {page : Tree} {a b : Numbered} {m : Markers}

/-- Whether a node is a template is told by its content. -/
theorem isTemplate_ok (ha : page.Holds a) : isTemplate page a.top = .ok a.content.isTemplate := by
  rw [isTemplate, Tree.element?_ok ha.content]
  rfl

/-- Walking through a page finds the outermost templates of what is held. -/
theorem outermostTemplates_ok : ∀ (steps : Nat) (as : List Numbered), (∀ a ∈ as, page.Holds a) →
    (idsAll as).length ≤ steps →
      outermostTemplates page steps (as.map Numbered.top) =
        .ok ((Numbered.outermostAll as).map Numbered.top) := by
  intro steps
  induction steps with
  | zero =>
    rintro (_ | ⟨a, as⟩) _ hl
    · rfl
    · rw [idsAll, Numbered.ids_eq] at hl
      cases hl
  | succ steps ih =>
    rintro (_ | ⟨a, as⟩) h hl
    · rfl
    · obtain ⟨ha, has⟩ := List.forall_mem_cons.1 h
      rw [idsAll, Numbered.ids_eq, List.cons_append, ← Numbered.idsAll_append] at hl
      have hl' := Nat.le_of_succ_le_succ hl
      rw [List.map_cons, outermostTemplates, isTemplate_ok ha, ok_bind, Numbered.outermostAll]
      obtain ⟨id, n, bs⟩ := a
      rw [Numbered.outermost]
      cases hn : n.isTemplate with
      | true =>
        have hrest : (idsAll as).length ≤ steps := by
          rw [Numbered.idsAll_append, List.length_append] at hl'
          exact Nat.le_trans (Nat.le_add_left ..) hl'
        rw [show (Numbered.node id n bs).content.isTemplate = true from hn, if_pos rfl,
          ih as has hrest, if_pos rfl]
        rfl
      | false =>
        have hpending : ∀ b ∈ bs ++ as, page.Holds b := by
          intro b hb
          rcases List.mem_append.1 hb with hb | hb
          · exact ha.of_mem hb
          · exact has b hb
        have hc := ha.children
        rw [Numbered.inside] at hc
        rw [show (Numbered.node id n bs).content.isTemplate = false from hn,
          if_neg Bool.false_ne_true, if_neg Bool.false_ne_true, Tree.children_ok ha.has_top, ok_bind,
          hc, ← List.map_append, ih _ hpending hl', Numbered.outermostAll_append]

/-- The content of an element is the tree of what is inside it. -/
theorem contentOf_ok (hw : page.WellFormed) (hb : page.Holds b) :
    contentOf page b.top = .ok (.ofDocuments (b.inside.map Numbered.document)) := by
  have hm := Tree.mapM_read hw fun c (hc : c ∈ b.inside) => hb.of_mem hc
  rw [Numbered.documents_eq_map] at hm
  rw [contentOf, Tree.children_ok hb.has_top, ok_bind, hb.children, hm]
  rfl

namespace Collection

/-- Templates are trees of what is inside some elements, under their `id`s. -/
def From (bs : List Numbered) (c : Collection) : Prop :=
  ∀ e ∈ c.templates, ∃ b ∈ bs, b.content.hasId e.1 = true ∧
    e.2 = .ofDocuments (b.inside.map Numbered.document)

/-- Taking up an element adds what is inside it under its `id`, unless there is a template of
that name. -/
theorem add_ok (hw : page.WellFormed) (hb : page.Holds b) (c : Collection) :
    ∃ d, add page c b.top = .ok d ∧ d.markers = c.markers ∧
      (∀ bs, b ∈ bs → c.From bs → d.From bs) ∧ ∀ name, d.get? name = (c.get? name).or
        (if b.content.hasId name then some (.ofDocuments (b.inside.map Numbered.document))
          else none) := by
  rw [add, Tree.element?_ok hb.content, ok_bind]
  have hid : ∀ name, b.content.hasId name =
      decide ((b.content.element?.bind fun e => e.get? "id") = some name) := fun name => by
    rw [Node.hasId]
    cases b.content.element? <;> simp
  simp only [hid]
  cases hname : b.content.element?.bind fun e => e.get? "id" with
  | none => exact ⟨c, rfl, rfl, fun _ _ h => h, fun name => by simp⟩
  | some own =>
    dsimp only
    split_ifs with hc
    · refine ⟨c, rfl, rfl, fun _ _ h => h, fun name => ?_⟩
      split_ifs with he
      · obtain rfl := Option.some.inj (of_decide_eq_true he)
        obtain ⟨tree, ht⟩ := Option.isSome_iff_exists.1 hc
        rw [ht, Option.some_or]
      · rw [Option.or_none]
    · rw [contentOf_ok hw hb, ok_bind]
      refine ⟨_, rfl, rfl, fun bs hmem hc e he => ?_, fun name => ?_⟩
      · rcases List.mem_append.1 he with he | he
        · exact hc e he
        · obtain rfl := List.mem_singleton.1 he
          exact ⟨b, hmem, (hid own).trans (decide_eq_true hname), rfl⟩
      · rw [get?, get?, List.lookup_append]
        congr 1
        by_cases he : own = name
        · rw [he]
          simp
        · have hne : (name == own) = false := beq_eq_false_iff_ne.2 (Ne.symm he)
          simp [List.lookup_cons, hne, he]

/-- Templates are added one by one: the collection then has the first one of each name, and what it
had before goes first. -/
theorem foldlM_add_ok (hw : page.WellFormed) : ∀ (bs : List Numbered) (c : Collection),
    (∀ b ∈ bs, page.Holds b) → ∃ d, (bs.map Numbered.top).foldlM (add page) c = .ok d ∧
      d.markers = c.markers ∧ (∀ cs, bs ⊆ cs → c.From cs → d.From cs) ∧
      ∀ name, d.get? name = (c.get? name).or
        ((bs.find? (·.content.hasId name)).map fun b =>
          .ofDocuments (b.inside.map Numbered.document)) := by
  intro bs
  induction bs with
  | nil => exact fun c _ => ⟨c, rfl, rfl, fun _ _ h => h, fun name => (Option.or_none ..).symm⟩
  | cons b bs ih =>
    intro c h
    obtain ⟨hb, hbs⟩ := List.forall_mem_cons.1 h
    obtain ⟨d, hd, hm, hfrom, hget⟩ := add_ok hw hb c
    obtain ⟨e, he, hm', hfrom', hget'⟩ := ih d hbs
    refine ⟨e, by rw [List.map_cons, List.foldlM_cons, hd, ok_bind, he], hm'.trans hm,
      fun cs hsub hc => ?_, fun name => ?_⟩
    · exact hfrom' cs (List.subset_of_cons_subset hsub)
        (hfrom cs (hsub (List.mem_cons_self ..)) hc)
    · rw [hget', hget, Option.or_assoc, List.find?_cons]
      cases b.content.hasId name <;> simp

/-- Collecting the templates of a page is taking up the outermost ones in document order. -/
theorem ofPage_eq (hw : page.WellFormed) (ha : page.Holds a) (htop : a.top = Tree.root)
    (m : Markers) : ofPage page m =
      ((Numbered.outermostAll a.inside).map Numbered.top).foldlM (add page) (empty m) := by
  have hids : (idsAll a.inside).length ≤ page.size := by
    have := ha.length_ids_le hw
    rw [Numbered.ids_eq] at this
    exact Nat.le_of_succ_le this
  rw [ofPage, ← htop, Tree.children_ok ha.has_top, ok_bind, ha.children,
    outermostTemplates_ok _ _ (fun b hb => ha.of_mem hb) hids, ok_bind]

/-- An outermost template of a tree is held in it. -/
theorem holds_of_mem_outermostAll (ha : page.Holds a) (hb : b ∈ Numbered.outermostAll a.inside) :
    page.Holds b := by
  obtain ⟨c, hc, hb⟩ := Numbered.mem_outermostAll.1 hb
  exact ((ha.of_mem hc).of_mem_outermost hb).1

/-- **Collecting the templates of a page succeeds,** and each template that is
collected is what is inside an outermost one. -/
theorem ofPage_collected (hw : page.WellFormed) (ha : page.Holds a) (htop : a.top = Tree.root)
    (m : Markers) : ∃ c, ofPage page m = .ok c ∧ c.markers = m ∧
      c.From (Numbered.outermostAll a.inside) := by
  obtain ⟨c, hc, hm, hfrom, -⟩ := foldlM_add_ok hw _ (empty m) fun b hb =>
    holds_of_mem_outermostAll ha hb
  exact ⟨c, (ofPage_eq hw ha htop m).trans hc, hm, hfrom _ (List.Subset.refl _) nofun⟩

/-- **The template of a name** is what is inside the first outermost template with that `id`. -/
theorem ofPage_get? (hw : page.WellFormed) (ha : page.Holds a) (htop : a.top = Tree.root)
    (m : Markers) : ∃ c, ofPage page m = .ok c ∧ c.markers = m ∧ ∀ name, c.get? name =
      ((Numbered.outermostAll a.inside).find? (·.content.hasId name)).map
        fun b => .ofDocuments (b.inside.map Numbered.document) := by
  obtain ⟨c, hc, hm, -, hget⟩ := foldlM_add_ok hw _ (empty m) fun b hb =>
    holds_of_mem_outermostAll ha hb
  refine ⟨c, (ofPage_eq hw ha htop m).trans hc, hm, fun name => ?_⟩
  rw [hget]
  exact Option.none_or

end Collection
end Template
end PageBinding
