/-
# The template of a name

Of the outermost templates with an `id` the first in document order is collected under it.
That is not always the first element of the `id`: another element may have it too, and so
may a template inside another one.  Where the first element is an outermost template, it is
the collected one (`find?_outermostAll`).

The outermost templates are those that are in no other one: each such template is among them
(`Tree.Holds.exists_outermost`), and nothing above one of them is a template
(`Tree.Holds.above_outermost`).
-/

import PageBinding.Proofs.Template.Collected

namespace PageBinding

open Html (Node Document)
open Numbered (idsAll outermost outermostAll)

/-- Tests that agree on a list find the same. -/
theorem find?_congr {α : Type} {p q : α → Bool} {l : List α} (h : ∀ x ∈ l, p x = q x) :
    l.find? p = l.find? q := by
  induction l with
  | nil => rfl
  | cons y l ih =>
    obtain ⟨hy, hl⟩ := List.forall_mem_cons.1 h
    rw [List.find?_cons, List.find?_cons, hy, ih hl]

/-- What a list finds first is what a part of it finds first, if that has it. -/
theorem find?_of_sublist {α : Type} {p : α → Bool} {l₁ l₂ : List α} {x : α} (h : l₁.Sublist l₂)
    (hn : l₂.Nodup) (hx : x ∈ l₁) (hf : l₂.find? p = some x) : l₁.find? p = some x := by
  induction h with
  | slnil => cases hx
  | cons y h ih =>
    rw [List.nodup_cons] at hn
    rw [List.find?_cons] at hf
    cases hp : p y with
    | true =>
      rw [hp] at hf
      exact absurd (h.subset (Option.some.inj hf ▸ hx)) hn.1
    | false =>
      rw [hp] at hf
      exact ih hn.2 hx hf
  | cons_cons y h ih =>
    rw [List.nodup_cons] at hn
    rw [List.find?_cons] at hf ⊢
    cases hp : p y with
    | true => rwa [hp] at hf
    | false =>
      rw [hp] at hf
      refine ih hn.2 ((List.mem_cons.1 hx).resolve_left ?_) hf
      rintro rfl
      have := List.find?_some hf
      rw [hp] at this
      cases this

namespace Numbered

mutual

/-- Outermost templates stand in document order. -/
theorem outermost_sublist : ∀ a : Numbered, ((outermost a).map top).Sublist a.ids
  | .node id n bs => by
    rw [outermost, ids]
    split_ifs
    · exact (List.nil_sublist _).cons_cons _
    · exact (outermostAll_sublist bs).cons _

/-- The outermost templates stand in document order. -/
theorem outermostAll_sublist : ∀ bs : List Numbered, ((outermostAll bs).map top).Sublist (idsAll bs)
  | [] => .slnil
  | b :: bs => by
    rw [outermostAll, idsAll, List.map_append]
    exact (outermost_sublist b).append (outermostAll_sublist bs)

end

/-- If the top is no template, the outermost templates are those inside. -/
theorem outermost_of_not_template {a : Numbered} (h : a.content.isTemplate = false) :
    a.outermost = outermostAll a.inside := by
  obtain ⟨id, n, bs⟩ := a
  exact if_neg (by simp [show n.isTemplate = false from h])

end Numbered

namespace Tree

variable {t : Tree} {a : Numbered} {x : NodeId}

/-- A template that is in no other one is an outermost one. -/
theorem Holds.exists_outermost (ha : t.Holds a) (hw : t.WellFormed) (hx : x ∈ a.ids)
    (htemplate : (t.contentOf x).any Node.isTemplate = true)
    (houter : ∀ y ∈ a.ids, ∀ n, t.Above y x → t.contentOf y = some n → n.isTemplate = false) :
    ∃ b ∈ a.outermost, b.top = x := by
  induction a using Numbered.induction_up with
  | step id n bs ih =>
    rw [Numbered.outermost]
    rcases (ha.mem_ids hw).1 hx with htop | habove
    · rw [htop, ha.content, Option.any_some] at htemplate
      rw [if_pos (show n.isTemplate = true from htemplate)]
      exact ⟨_, List.mem_singleton_self _, htop.symm⟩
    · have hn : n.isTemplate = false := houter id (Numbered.top_mem_ids _) n habove ha.content
      have hne : x ≠ id := by
        rintro rfl
        exact hw.acyclic _ habove
      obtain ⟨b, hb, hxb⟩ := (Numbered.mem_ids.1 hx).resolve_left hne
      obtain ⟨c, hc, hcx⟩ := ih b hb (ha.of_mem hb) hxb fun y hy =>
        houter y (Numbered.ids_subset_of_mem hb hy)
      rw [if_neg (by simp [hn])]
      exact ⟨c, Numbered.mem_outermostAll.2 ⟨b, hb, hc⟩, hcx⟩

/-- Nothing above an outermost template is a template. -/
theorem Holds.above_outermost (ha : t.Holds a) (hw : t.WellFormed) {b : Numbered}
    (hb : b ∈ a.outermost) (hx : x ∈ a.ids) (habove : t.Above x b.top) {n : Node}
    (hn : t.contentOf x = some n) : n.isTemplate = false := by
  induction a using Numbered.induction_up with
  | step id m bs ih =>
    rw [Numbered.outermost] at hb
    split_ifs at hb with hm
    · obtain rfl := List.mem_singleton.1 hb
      -- The template is the top node, and nothing within it is above it.
      rcases (ha.mem_ids hw).1 hx with rfl | hx
      · exact absurd habove (hw.acyclic _)
      · exact absurd (hx.trans habove) (hw.acyclic _)
    · obtain ⟨c, hc, hb⟩ := Numbered.mem_outermostAll.1 hb
      rcases Numbered.mem_ids.1 hx with rfl | ⟨d, hd, hx⟩
      · obtain rfl := Option.some.inj (hn.symm.trans ha.content)
        exact Bool.eq_false_iff.2 hm
      · -- What is above the template is inside the same child.
        have hcb := (((ha.of_mem hc).mem_ids hw).1 ((ha.of_mem hc).of_mem_outermost hb).2.2)
        have hdb := (((ha.of_mem hd).mem_ids hw).1 hx).trans habove.within
        have hcd := hw.eq_of_within_children (ha.mem_children hc) (ha.mem_children hd) hcb hdb
        obtain rfl := (ha.of_mem hc).unique (ha.of_mem hd) hcd
        exact ih c hc (ha.of_mem hc) hb hx

end Tree

namespace Template

variable {page : Tree} {a b : Numbered} {name : String}

/-- **The first node of a kind is the collected template** if the outermost templates of that
kind are those with the `id`, and it is one of them. -/
theorem find?_outermostAll {p : NodeId → Bool} (hw : page.WellFormed) (ha : page.Holds a)
    (hp : ∀ c ∈ outermostAll a.inside, p c.top = c.content.hasId name)
    (hb : b ∈ outermostAll a.inside) (hfirst : (idsAll a.inside).find? p = some b.top) :
    (outermostAll a.inside).find? (·.content.hasId name) = some b := by
  have hn : (idsAll a.inside).Nodup := by
    have := ha.ids_nodup hw
    rw [Numbered.ids_eq] at this
    exact this.of_cons
  have hfind := find?_of_sublist (Numbered.outermostAll_sublist a.inside) hn
    (List.mem_map_of_mem hb) hfirst
  rw [List.find?_map, Option.map_eq_some_iff] at hfind
  obtain ⟨c, hc, hcb⟩ := hfind
  have hcm := List.mem_of_find?_eq_some hc
  obtain rfl := (Collection.holds_of_mem_outermostAll ha hcm).unique
    (Collection.holds_of_mem_outermostAll ha hb) hcb
  rw [← hc]
  exact find?_congr fun d hd => (hp d hd).symm

end Template
end PageBinding
