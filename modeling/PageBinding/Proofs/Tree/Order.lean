/-
# What is above what

`Within t a x` says that `x` is `a` or below it.  Two nodes that are both at or
above a third one lie on one way up, so one of them is within the other
(`Within.total`); hence the nodes within two children of one node are different
ones.  A well-formed tree has no endless way down, which gives an induction from
the children of a node to the node (`WellFormed.induction_below`).

The operations on links keep a tree well-formed: detaching nodes always does, and
putting in nodes does if the node that they are put in is not within one of them.
-/

import PageBinding.Proofs.Tree.Views
import Mathlib.Data.Finset.Card
import Mathlib.Data.Finset.Range

namespace PageBinding
namespace Tree

variable {t u : Tree} {a b c p x y : NodeId}

/-- The second node is the first one or below it. -/
def Within (t : Tree) (a x : NodeId) : Prop := x = a ∨ t.Above a x

/-- Each node is within itself. -/
theorem Within.self (t : Tree) (a : NodeId) : t.Within a a := .inl rfl

/-- What is below a node is within it. -/
theorem Above.within (h : t.Above a x) : t.Within a x := .inr h

/-- What is below something below a node is below it. -/
theorem Above.trans (h : t.Above a b) (hc : t.Above b c) : t.Above a c := by
  induction hc with
  | parent hp => exact .step h hp
  | step _ hp ih => exact .step ih hp

/-- What is within something within a node is within it. -/
theorem Within.trans (h : t.Within a b) (hc : t.Within b c) : t.Within a c := by
  rcases hc with rfl | hc
  · exact h
  · rcases h with rfl | h
    · exact .inr hc
    · exact .inr (h.trans hc)

/-- The child of something within a node is below it. -/
theorem Within.above (h : t.Within a p) (hc : t.parentOf c = some p) : t.Above a c := by
  rcases h with rfl | h
  · exact .parent hc
  · exact .step h hc

/-- What is below a node has a parent within it. -/
theorem Above.parent_within (h : t.Above a c) : ∃ p, t.parentOf c = some p ∧ t.Within a p := by
  cases h with
  | parent hp => exact ⟨a, hp, .self t a⟩
  | step h hp => exact ⟨_, hp, h.within⟩

/-- The parent of what is below a node is within it. -/
theorem Above.within_parent (h : t.Above a c) (hc : t.parentOf c = some p) : t.Within a p := by
  obtain ⟨q, hq, hw⟩ := h.parent_within
  exact Option.some.inj (hq.symm.trans hc) ▸ hw

/-- In a well-formed tree a node with something below it is there. -/
theorem Above.has_left (h : t.Above a c) (hw : t.WellFormed) : t.Has a := by
  induction h with
  | parent hp => exact hw.has_parent hp
  | step _ _ ih => exact ih

/-- What is below a node is there. -/
theorem Above.has_right (h : t.Above a c) : t.Has c := by
  obtain ⟨p, hp, -⟩ := h.parent_within
  exact has_of_parentOf hp

/-- What is within a node of the tree is there. -/
theorem Within.has (h : t.Within a x) (ha : t.Has a) : t.Has x := by
  rcases h with rfl | h
  · exact ha
  · exact h.has_right

/-- **One way up:** of two nodes at or above a third one, one is within the
other. -/
theorem Within.total (ha : t.Within a x) (hb : t.Within b x) : t.Within a b ∨ t.Within b a := by
  rcases ha with rfl | ha
  · exact .inr hb
  · induction ha with
    | parent hp =>
      rcases hb with rfl | hb
      · exact .inl (.inr (.parent hp))
      · exact .inr (hb.within_parent hp)
    | step h hp ih =>
      rcases hb with rfl | hb
      · exact .inl (.inr (.step h hp))
      · exact ih (hb.within_parent hp)

/-- What holds of a node and of the parent of each node that it holds of holds
of everything above. -/
theorem Above.of_closed {S : NodeId → Prop} (h : t.Above a x) (hx : S x)
    (hS : ∀ c p, S c → t.parentOf c = some p → S p) : S a := by
  induction h with
  | parent hp => exact hS _ _ hx hp
  | step _ hp ih => exact ih (hS _ _ hx hp)

/-- What is below a node stays below it if parents stay. -/
theorem Above.mono (h : t.Above a x)
    (hp : ∀ c p, t.parentOf c = some p → u.parentOf c = some p) : u.Above a x := by
  induction h with
  | parent h => exact .parent (hp _ _ h)
  | step _ h ih => exact .step ih (hp _ _ h)

/-- After a splice there are the new nodes and the children. -/
theorem mem_splice {before : Option NodeId} {new cs : List NodeId} :
    c ∈ splice before new cs ↔ c ∈ new ∨ c ∈ cs := by
  cases before with
  | none => rw [splice, List.mem_append, or_comm]
  | some b =>
    rw [splice, List.mem_append, List.mem_append]
    conv_rhs => rw [← List.takeWhile_append_dropWhile (p := (· ≠ b)) (l := cs), List.mem_append]
    rw [or_comm (a := c ∈ List.takeWhile _ cs), or_assoc]

/-- A splice keeps all nodes, in some order. -/
theorem splice_perm (before : Option NodeId) (new cs : List NodeId) :
    (splice before new cs).Perm (new ++ cs) := by
  cases before with
  | none => exact List.perm_append_comm
  | some b =>
    have h : (cs.takeWhile (· ≠ b) ++ new ++ cs.dropWhile (· ≠ b)).Perm
        (new ++ cs.takeWhile (· ≠ b) ++ cs.dropWhile (· ≠ b)) :=
      List.perm_append_comm.append_right _
    rw [List.append_assoc, List.append_assoc, List.takeWhile_append_dropWhile] at h
    rw [splice, List.append_assoc]
    exact h

namespace WellFormed

/-- A child is below its parent. -/
theorem above_child (h : t.WellFormed) (hc : c ∈ t.childrenOf p) : t.Above p c :=
  .parent ((h.linked p c).1 hc)

/-- In a well-formed tree no parent is within its child. -/
theorem not_within_parent (h : t.WellFormed) (hc : t.parentOf c = some p) : ¬ t.Within c p := by
  intro hw
  exact h.acyclic c (hw.above hc)

/-- The nodes within two children of one node are different ones. -/
theorem eq_of_within_children (h : t.WellFormed) (hb : b ∈ t.childrenOf p)
    (hc : c ∈ t.childrenOf p) (hbx : t.Within b x) (hcx : t.Within c x) : b = c := by
  have key : ∀ {b c : NodeId}, b ∈ t.childrenOf p → c ∈ t.childrenOf p → t.Within b c → b = c := by
    intro b c hb hc hw
    rcases hw with rfl | hw
    · rfl
    · exact absurd (hw.within_parent ((h.linked p c).1 hc))
        (h.not_within_parent ((h.linked p b).1 hb))
  rcases hbx.total hcx with hw | hw
  · exact key hb hc hw
  · exact (key hc hb hw).symm

open Classical in
/-- **From the children to the node:** what holds of each node if it holds of its
children holds of every node. -/
theorem induction_below (h : t.WellFormed) {P : NodeId → Prop}
    (step : ∀ id, t.Has id → (∀ c ∈ t.childrenOf id, P c) → P id) : ∀ id, t.Has id → P id := by
  -- There are fewer nodes below a child than below its parent.
  let below (id : NodeId) : Finset Nat := (Finset.range t.size).filter fun i => t.Above id ⟨i⟩
  have key : ∀ n id, t.Has id → (below id).card = n → P id := by
    intro n
    induction n using Nat.strong_induction_on with
    | _ n ih =>
      rintro id hid rfl
      refine step id hid fun c hc => ih _ (Finset.card_lt_card ?_) c (h.has_child hc) rfl
      refine Finset.ssubset_iff_of_subset (fun i hi => ?_) |>.2 ⟨c.index, ?_, fun hmem => ?_⟩
      · rw [Finset.mem_filter] at hi ⊢
        exact ⟨hi.1, (h.above_child hc).trans hi.2⟩
      · exact Finset.mem_filter.2 ⟨Finset.mem_range.2 (h.has_child hc), h.above_child hc⟩
      · exact h.acyclic c (Finset.mem_filter.1 hmem).2
  exact fun id hid => key _ id hid rfl

/-! ## Operations on links -/

/-- A tree with the links of a well-formed one is well-formed. -/
theorem of_links (h : t.WellFormed) (hs : u.size = t.size) (hp : ∀ x, u.parentOf x = t.parentOf x)
    (hc : ∀ x, u.childrenOf x = t.childrenOf x) : u.WellFormed where
  bounded p c hm := hs ▸ h.bounded p c (hc p ▸ hm)
  linked p c := by rw [hc, hp]; exact h.linked p c
  nodup p := hc p ▸ h.nodup p
  acyclic a ha := h.acyclic a (ha.mono fun c p hcp => hp c ▸ hcp)

/-- **Detaching nodes keeps a tree well-formed.** -/
theorem of_detached {ids : List NodeId} (h : t.WellFormed)
    (hu : Relinked t u (t.parentsWithout ids) (t.childrenWithout ids)) : u.WellFormed where
  bounded p c hm := by
    rw [hu.children] at hm
    exact hu.has.2 (h.has_child (List.mem_of_mem_filter hm))
  linked p c := by
    rw [hu.children, hu.parent, childrenWithout, parentsWithout, List.mem_filter]
    split_ifs with hmem
    · simp [hmem]
    · simp [hmem, h.linked]
  nodup p := hu.children p ▸ (h.nodup p).filter _
  acyclic a ha := by
    refine h.acyclic a (ha.mono fun c p hcp => ?_)
    rw [hu.parent, parentsWithout] at hcp
    split_ifs at hcp
    exact hcp

/-- **Putting in detached nodes keeps a tree well-formed,** if the node that they
are put in is not within one of them. -/
theorem of_inserted {new : List NodeId} {before : Option NodeId} (h : t.WellFormed)
    (hnew : ∀ n ∈ new, t.Has n) (hfree : ∀ n ∈ new, t.parentOf n = none) (hn : new.Nodup)
    (hp : ∀ n ∈ new, ¬ t.Within n p)
    (hu : Relinked t u (t.parentsWith p new) (t.childrenWith p new before)) : u.WellFormed where
  bounded q c hm := by
    rw [hu.children, childrenWith] at hm
    refine hu.has.2 ?_
    split_ifs at hm with hq
    · rcases mem_splice.1 hm with hm | hm
      · exact hnew c hm
      · exact h.has_child hm
    · exact h.has_child hm
  linked q c := by
    rw [hu.children, hu.parent, childrenWith, parentsWith]
    by_cases hq : q = p
    · rw [if_pos hq, mem_splice, h.linked, hq]
      split_ifs with hmem <;> simp [hmem]
    · rw [if_neg hq, h.linked]
      split_ifs with hmem
      · simp [hfree c hmem, Ne.symm hq]
      · rfl
  nodup q := by
    rw [hu.children, childrenWith]
    split_ifs
    · refine (splice_perm ..).nodup_iff.2 (hn.append (h.nodup q) fun c hc hm => ?_)
      exact Option.some_ne_none q (((h.linked q c).1 hm).symm.trans (hfree c hc))
    · exact h.nodup q
  acyclic a ha := by
    -- A way up is an old one, or leads through one of the new links.
    have key : ∀ {x}, u.Above a x →
        t.Above a x ∨ ∃ n ∈ new, t.Within n x ∧ t.Within a p := by
      intro x hx
      have old : ∀ {c q}, u.parentOf c = some q → c ∉ new → t.parentOf c = some q := by
        intro c q hc hmem
        rwa [hu.parent, parentsWith, if_neg hmem] at hc
      have fresh : ∀ {c q}, u.parentOf c = some q → c ∈ new → q = p := by
        intro c q hc hmem
        rw [hu.parent, parentsWith, if_pos hmem] at hc
        exact (Option.some.inj hc).symm
      induction hx with
      | @parent b hb =>
        by_cases hmem : b ∈ new
        · exact .inr ⟨b, hmem, .self t b, fresh hb hmem ▸ .self t a⟩
        · exact .inl (.parent (old hb hmem))
      | @step b c _ hc ih =>
        by_cases hmem : c ∈ new
        · obtain rfl := fresh hc hmem
          refine .inr ⟨c, hmem, .self t c, ?_⟩
          rcases ih with ih | ⟨n, hn, hw, -⟩
          · exact ih.within
          · exact absurd hw (hp n hn)
        · rcases ih with ih | ⟨n, hn, hw, hap⟩
          · exact .inl (.step ih (old hc hmem))
          · exact .inr ⟨n, hn, (hw.above (old hc hmem)).within, hap⟩
    rcases key ha with ha | ⟨n, hn, hw, hap⟩
    · exact h.acyclic a ha
    · exact hp n hn (hw.trans hap)

end WellFormed
end Tree
end PageBinding
