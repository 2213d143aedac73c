/-
# What binding does not touch

Binding data into a node changes what is within the node and its place among the
children of its parent, and nothing else (`bindAt_touches_own_place`).  What stands in
the place afterwards is the node, nothing, or, for an element that is repeated over a
list, a new node for each item (`Stands`).  An element that is repeated without being
below another node has no place: nothing of its copies comes below a node that was there.

Comments are passed over wherever they are.  That is shown for the operations of a pass
one by one, whatever the depth of the recursion (`bindWithin_spares`), since what binding
replaces is described by what stands outside of it only.
-/

import PageBinding.Proofs.Template.Binding
import PageBinding.Proofs.Tree.Sparing

namespace PageBinding

open Html (Node Element)
open Json (Value)

namespace Template

open PageBinding.Tree (Spares Replaced)

variable {m : Markers} {context : Value} {p q : Pass} {t u : Tree} {id : NodeId}

/-! ## Comments -/

/-- Binding leaves comments alone. -/
def Sparing (bind : Pass → NodeId → Value → Except Fault Pass) : Prop :=
  ∀ p id context q, bind p id context = .ok q → Spares p.tree q.tree

variable {bind : Pass → NodeId → Value → Except Fault Pass}

/-- A change of the tree of a pass that succeeds is one of its tree. -/
theorem change_eq_ok {f : Tree → Except Fault Tree} (h : p.change f = .ok q) :
    f p.tree = .ok q.tree := by
  obtain ⟨t, notices⟩ := p
  rw [Pass.change] at h
  obtain ⟨u, hu, h⟩ := exists_of_bind_ok h
  rw [hu, ← Except.ok.inj h]

/-- Copying in a pass that succeeds copies in its tree. -/
theorem clone_eq_ok {copy : NodeId} (h : p.clone id = .ok (q, copy)) :
    p.tree.clone id = .ok (q.tree, copy) := by
  obtain ⟨t, notices⟩ := p
  rw [Pass.clone] at h
  obtain ⟨⟨u, c⟩, hu, h⟩ := exists_of_bind_ok h
  obtain ⟨rfl, rfl⟩ := Prod.mk.inj (Except.ok.inj h)
  exact hu

/-- A node that can be read is there. -/
theorem node?_of_node {s : LinkedNode} (h : t.node id = .ok s) : t.node? id = some s := by
  rw [Tree.node] at h
  split at h
  · rename_i s' hs
    rw [hs, Except.ok.inj h]
  · cases h

/-- A content that can be read is there. -/
theorem contentOf_of_content {n : Node} (h : t.content id = .ok n) : t.contentOf id = some n := by
  obtain ⟨s, hs, h⟩ := exists_of_bind_ok h
  rw [Tree.contentOf, node?_of_node hs, Option.map_some]
  exact congrArg some (Except.ok.inj h)

/-- An element that can be read is the content of its node. -/
theorem contentOf_of_element {e : Element} (h : t.element? id = .ok (some e)) :
    t.contentOf id = some (.element e) := by
  obtain ⟨s, hs, h⟩ := exists_of_bind_ok h
  rw [Tree.contentOf, node?_of_node hs, Option.map_some]
  have he : s.content.element? = some e := Except.ok.inj h
  cases hc : s.content <;> rw [hc] at he <;> cases he
  rfl

/-- A parent that can be read is the node's. -/
theorem parentOf_of_parent {q : Option NodeId} (h : t.parent id = .ok q) : t.parentOf id = q := by
  obtain ⟨s, hs, h⟩ := exists_of_bind_ok h
  rw [Tree.parentOf, node?_of_node hs, Option.bind_some]
  exact Except.ok.inj h

/-- A content that was set is there. -/
theorem contentOf_setContent {n : Node} (h : t.setContent id n = .ok u) :
    u.contentOf id = some n := by
  obtain ⟨v, hv, -, hn, -⟩ := Tree.setContent_ok (Tree.has_of_modify h) n
  rw [← Except.ok.inj (hv.symm.trans h), hn, if_pos rfl]

/-- Copies are new nodes. -/
theorem bindCopies_spares (hb : Sparing bind) {model : NodeId} :
    ∀ (items : List Value) (p q : Pass) (copies : List NodeId),
      bindCopies bind model p items = .ok (q, copies) →
        Spares p.tree q.tree ∧ ∀ c ∈ copies, ¬ p.tree.Has c := by
  intro items
  induction items with
  | nil =>
    intro p q copies h
    obtain ⟨rfl, rfl⟩ := Prod.mk.inj (Except.ok.inj h)
    exact ⟨.refl _, nofun⟩
  | cons item items ih =>
    intro p q copies h
    rw [bindCopies] at h
    obtain ⟨⟨p₁, copy⟩, h₁, h⟩ := exists_of_bind_ok h
    obtain ⟨p₂, h₂, h⟩ := exists_of_bind_ok h
    obtain ⟨⟨p₃, rest⟩, h₃, h⟩ := exists_of_bind_ok h
    obtain ⟨rfl, rfl⟩ := Prod.mk.inj (Except.ok.inj h)
    obtain ⟨hs₁, -, hcopy⟩ := Tree.spares_of_clone (clone_eq_ok h₁)
    have hs₂ := hs₁.trans (hb _ _ _ _ h₂)
    obtain ⟨hs₃, hrest⟩ := ih _ _ _ h₃
    refine ⟨hs₂.trans hs₃, fun c hc hct => ?_⟩
    rcases List.mem_cons.1 hc with rfl | hc
    · exact hcopy hct
    · exact hrest c hc (hs₂.has hct)

/-- The model is a new node, and the old ones keep their contents. -/
theorem modelOf_spares {model : NodeId} (h : modelOf m p id = .ok (q, model)) :
    Spares p.tree q.tree ∧ ∀ x, p.tree.Has x → q.tree.contentOf x = p.tree.contentOf x := by
  rw [modelOf] at h
  obtain ⟨⟨p₁, copy⟩, h₁, h⟩ := exists_of_bind_ok h
  obtain ⟨hs₁, hg, hcopy⟩ := Tree.spares_of_clone (clone_eq_ok h₁)
  obtain ⟨e?, he, h⟩ := exists_of_bind_ok h
  cases e? with
  | none =>
    obtain ⟨rfl, rfl⟩ := Prod.mk.inj (Except.ok.inj h)
    exact ⟨hs₁, fun x hx => hg.contentOf hx⟩
  | some e =>
    obtain ⟨p₂, h₂, h⟩ := exists_of_bind_ok h
    have hset := change_eq_ok h₂
    have hq : q.tree = p₂.tree := by
      split at h <;> obtain ⟨rfl, -⟩ := Prod.mk.inj (Except.ok.inj h) <;> rfl
    have hcon := contentOf_of_element he
    have hs₂ : Spares p₁.tree p₂.tree := Tree.spares_of_setContent
      (fun s hs => by rw [hcon] at hs; cases hs) hset
    obtain ⟨v, hv, -, hn, -⟩ := Tree.setContent_ok (Tree.has_of_modify hset)
      (.element ((e.remove m.each).remove m.condition))
    obtain rfl := Except.ok.inj (hv.symm.trans hset)
    rw [hq]
    refine ⟨hs₁.trans hs₂, fun x hx => ?_⟩
    rw [hn, if_neg, hg.contentOf hx]
    rintro rfl
    exact hcopy hx

/-- A repetition leaves comments alone: what is repeated is an element, and its copies come
below its parent. -/
theorem repeatOver_spares (hb : Sparing bind) {items : List Value} {e : Element}
    (hn : p.tree.contentOf id = some (.element e)) (h : repeatOver m bind p id items = .ok q) :
    Spares p.tree q.tree := by
  rw [repeatOver] at h
  obtain ⟨⟨p₁, model⟩, h₁, h⟩ := exists_of_bind_ok h
  obtain ⟨parent?, hparent, h⟩ := exists_of_bind_ok h
  obtain ⟨next?, -, h⟩ := exists_of_bind_ok h
  obtain ⟨p₂, h₂, h⟩ := exists_of_bind_ok h
  obtain ⟨hs₁, hcon⟩ := modelOf_spares h₁
  have hid : p.tree.Has id := Tree.has_iff_contentOf.2 ⟨_, hn⟩
  have hs₂ : Spares p.tree p₂.tree := hs₁.trans (Tree.spares_of_detach
    (fun s hs => by rw [hcon id hid, hn] at hs; cases hs) (change_eq_ok h₂))
  cases parent? with
  | none => exact Except.ok.inj h ▸ hs₂
  | some parent =>
    obtain ⟨⟨p₃, copies⟩, h₃, h⟩ := exists_of_bind_ok h
    obtain ⟨hs₃, hcopies⟩ := bindCopies_spares hb _ _ _ _ h₃
    exact (hs₂.trans hs₃).insertAllBefore
      (fun hp => hs₁.below id parent hp (parentOf_of_parent hparent))
      (fun c hc hct => hcopies c hc (hs₂.has hct)) (change_eq_ok h)

/-- If binding leaves comments alone, so does binding to several nodes in a row. -/
theorem foldlM_spares (hb : Sparing bind) (context : Value) : ∀ (ids : List NodeId) (p q : Pass),
    ids.foldlM (fun p child => bind p child context) p = .ok q → Spares p.tree q.tree := by
  intro ids
  induction ids with
  | nil => exact fun p q h => Except.ok.inj h ▸ .refl _
  | cons id ids ih =>
    intro p q h
    rw [List.foldlM_cons] at h
    obtain ⟨p₁, h₁, h⟩ := exists_of_bind_ok h
    exact (hb _ _ _ _ h₁).trans (ih _ _ h)

/-- A comment is filled with itself. -/
theorem checkContent_comment (m : Markers) (context : Value) (s : String) :
    checkContent m context (fillContent context (.comment s)) = (.comment s, true) := rfl

/-- Only an element has a condition. -/
theorem element_of_unmet {n : Node} (h : (checkContent m context n).2 ≠ true) :
    ∃ e, (checkContent m context n).1 = .element e := by
  cases n with
  | element e =>
    rw [checkContent]
    split <;> exact ⟨_, rfl⟩
  | _ => exact absurd rfl h

/-- **Binding leaves comments alone,** however deep it goes. -/
theorem bindWithin_spares (m : Markers) : ∀ depth, Sparing (bindWithin m depth) := by
  intro depth
  induction depth with
  | zero => exact fun p id context q h => by cases h
  | succ depth ih =>
    intro p id context q h
    rw [bindWithin] at h
    obtain ⟨n, hn, h⟩ := exists_of_bind_ok h
    have hcon := contentOf_of_content hn
    cases hrep : repetition? m n with
    | some path =>
      rw [hrep] at h
      obtain ⟨e, rfl⟩ : ∃ e, n = .element e := by
        cases n with
        | element e => exact ⟨e, rfl⟩
        | _ => cases hrep
      dsimp only at h
      split at h
      · exact repeatOver_spares ih hcon h
      · exact Tree.spares_of_detach (fun s hs => by rw [hcon] at hs; cases hs) (change_eq_ok h)
    | none =>
      rw [hrep] at h
      dsimp only at h
      obtain ⟨p₁, h₁, h⟩ := exists_of_bind_ok h
      have hcomment : ∀ s, p.tree.contentOf id = some (.comment s) → n = .comment s := fun s hs =>
        Option.some.inj (hcon.symm.trans hs)
      have hs₁ : Spares p.tree p₁.tree := Tree.spares_of_setContent (fun s hs => by
        rw [hcomment s hs, checkContent_comment]) (change_eq_ok h₁)
      split_ifs at h with hh
      · obtain ⟨ids, -, h⟩ := exists_of_bind_ok h
        exact hs₁.trans (foldlM_spares ih context ids _ _ h)
      · obtain ⟨e, he⟩ := element_of_unmet hh
        refine hs₁.trans (Tree.spares_of_detach (fun s hs => ?_) (change_eq_ok h))
        rw [contentOf_setContent (change_eq_ok h₁), he] at hs
        cases hs

/-- Binding at a node leaves the comments of the tree alone. -/
theorem bindAt_spares {notices : Array Notice} (h : bindAt t id context m = .ok (u, notices)) :
    Spares t u := by
  obtain ⟨q, hq, h⟩ := exists_of_bind_ok h
  exact (Prod.mk.inj (Except.ok.inj h)).1 ▸ bindWithin_spares m _ _ _ _ _ hq

/-! ## Places -/

/-- What is replaced below a parent makes room for what replaces it, among the children of
the parent only. -/
theorem children_of_replaced {a : Numbered} {outs : List Numbered} {p : NodeId}
    (h : Replaced t u a outs) (hw : t.WellFormed) (ha : t.Holds a) (hp : t.parentOf a.top = some p) :
    (∃ pre post, t.childrenOf p = pre ++ a.top :: post ∧
      u.childrenOf p = pre ++ outs.map Numbered.top ++ post) ∧
    ∀ x, t.Has x → x ∉ a.ids → x ≠ p → u.childrenOf x = t.childrenOf x := by
  have hmem := (hw.linked p a.top).2 hp
  refine ⟨?_, fun x hx hout hne => ?_⟩
  · obtain ⟨pre, post, hc, hpre, hpost⟩ := Tree.split_of_nodup (hw.nodup p) hmem
    have hout : p ∉ a.ids := fun hin => hw.not_within_parent hp ((ha.mem_ids hw).1 hin)
    exact ⟨pre, post, hc, by
      rw [h.children p (hw.has_parent hp) hout, hc, Tree.exchange_split hpre hpost]⟩
  · rw [h.children x hx hout, Tree.exchange_of_notMem]
    exact fun hc => hne (Option.some.inj (((hw.linked x _).1 hc).symm.trans hp))

/-- **An element that is repeated without a place** leaves what was there as it was. -/
theorem bindAt_growsTo (hw : t.WellFormed) {n : Node} {path : String}
    (hn : t.contentOf id = some n) (hp : t.parentOf id = none) (hrep : repetition? m n = some path)
    (context : Value) : ∃ u notices, bindAt t id context m = .ok (u, notices) ∧ u.WellFormed ∧
      t.GrowsTo u := by
  have hid : t.Has id := Tree.has_iff_contentOf.2 ⟨n, hn⟩
  rw [bindAt, bindWithin, Tree.content_ok hn, ok_bind, hrep]
  dsimp only
  split
  · obtain ⟨a, rfl, ha⟩ := hw.exists_holds hid
    obtain rfl := Option.some.inj (ha.content.symm.trans hn)
    obtain ⟨⟨v, notices⟩, c, hq, hwv, hg, -⟩ :=
      modelOf_grown (p := ⟨t, #[]⟩) (P := fun _ => True) hw ha hrep
    have hpv : v.parentOf a.top = none := (hg.parentOf hid).trans hp
    have hnext : v.nextSibling a.top = .ok none := by
      rw [hwv.nextSibling_ok (hg.has hid), hpv]
      rfl
    refine ⟨v, notices, ?_, hwv, hg⟩
    rw [repeatOver, hq, ok_bind]
    dsimp only
    rw [Tree.parent_ok (hg.has hid), hpv, ok_bind, hnext, ok_bind, Pass.change]
    dsimp only
    rw [Tree.detach_of_detached (hg.has hid) hpv]
    rfl
  · rw [Pass.report, Pass.change]
    dsimp only
    rw [Tree.detach_of_detached hid hp]
    exact ⟨t, _, rfl, hw, .refl t⟩

/-- **Binding touches its own place only.**  Data can be bound into every node of a well-formed
tree, and the tree stays well-formed.  If the node has a parent, what stands in its place
among the children of that are new nodes, as many as a list has items that the node is
repeated over, or otherwise the node or nothing.  What is not within the node keeps its
content, its parent and, but for the parent of the node, its children; and a comment keeps
its text and its parent wherever it is, and comes to no children.  A repeated element without
a parent leaves all that was there as it was, and nothing comes below that. -/
theorem bindAt_touches_own_place (hw : t.WellFormed) {n : Node} (hn : t.contentOf id = some n)
    (context : Value) (m : Markers) :
    (∀ p, t.parentOf id = some p → ∃ u notices pre post outs,
      bindAt t id context m = .ok (u, notices) ∧ u.WellFormed ∧
      t.childrenOf p = pre ++ id :: post ∧ u.childrenOf p = pre ++ outs ++ post ∧
      Stands m context t id n outs ∧
      (∀ x, t.Has x → ¬ t.Within id x → u.contentOf x = t.contentOf x ∧
        u.parentOf x = t.parentOf x ∧ (x ≠ p → u.childrenOf x = t.childrenOf x)) ∧
      ∀ x s, t.contentOf x = some (.comment s) → u.contentOf x = some (.comment s) ∧
        u.parentOf x = t.parentOf x ∧ (t.childrenOf x = [] → u.childrenOf x = [])) ∧
    (t.parentOf id = none → repetition? m n ≠ none → ∃ u notices,
      bindAt t id context m = .ok (u, notices) ∧ u.WellFormed ∧
      (∀ x, t.Has x → u.contentOf x = t.contentOf x ∧ u.parentOf x = t.parentOf x ∧
        u.childrenOf x = t.childrenOf x) ∧
      ∀ c x, t.Has x → u.parentOf c = some x → t.parentOf c = some x) := by
  refine ⟨fun p hp => ?_, fun hp hrep => ?_⟩
  · obtain ⟨a, rfl, ha⟩ := hw.exists_holds (Tree.has_iff_contentOf.2 ⟨n, hn⟩)
    obtain rfl := Option.some.inj (ha.content.symm.trans hn)
    obtain ⟨u, notices, outs, hu, hb⟩ := bindAt_bound hw ha context m fun _ => True
    obtain ⟨⟨pre, post, ht, hc⟩, hother⟩ := children_of_replaced hb.toReplaced hw ha hp
    have hspares := bindAt_spares hu
    refine ⟨u, notices, pre, post, outs.map Numbered.top, hu, hb.wellFormed, ht, hc,
      hb.stands (.inl (hp ▸ Option.some_ne_none p)), fun x hx hout => ?_, fun x s hs => ?_⟩
    · have hids : x ∉ a.ids := fun hm => hout ((ha.mem_ids hw).1 hm)
      exact ⟨hb.content x hx hids, hb.parent x hx hids, hother x hx hids⟩
    · exact ⟨hspares.content x s hs, hspares.parent x s hs,
        hspares.children hw hb.wellFormed (Tree.has_iff_contentOf.2 ⟨_, hs⟩)⟩
  · obtain ⟨path, hpath⟩ := Option.ne_none_iff_exists'.1 hrep
    obtain ⟨u, notices, hu, hwu, hg⟩ := bindAt_growsTo hw hn hp hpath context
    refine ⟨u, notices, hu, hwu, fun x hx =>
      ⟨hg.contentOf hx, hg.parentOf hx, hg.childrenOf hx⟩, fun c x hx hc => ?_⟩
    exact (hw.linked x c).1 (hg.childrenOf hx ▸ (hwu.linked x c).2 hc)

/-- An item between two others is repeated twice, and a comment in it stays. -/
theorem bindAt_touches_own_place_of_item :
    let item : Html.Document := .node (.element ⟨"li", [("jx-each", "names")]⟩)
      [.node (.comment "\x7b\x7b.\x7d\x7d") []]
    let t := Tree.ofDocuments [.node (.element ⟨"ul", []⟩)
      [.node (.text "before") [], item, .node (.text "after") []]]
    let context := Value.object [("names", .array [.string "a", .string "b"])]
    t.WellFormed ∧ t.contentOf ⟨3⟩ = some (.element ⟨"li", [("jx-each", "names")]⟩) ∧
      t.parentOf ⟨3⟩ = some ⟨1⟩ ∧ ∃ u notices pre post x y,
        bindAt t ⟨3⟩ context .standard = .ok (u, notices) ∧ u.WellFormed ∧
        t.childrenOf ⟨1⟩ = pre ++ ⟨3⟩ :: post ∧ u.childrenOf ⟨1⟩ = pre ++ [x, y] ++ post ∧
        u.contentOf ⟨4⟩ = some (.comment "\x7b\x7b.\x7d\x7d") ∧ u.parentOf ⟨4⟩ = some ⟨3⟩ := by
  intro item t context
  have hn : t.contentOf ⟨3⟩ = some (.element ⟨"li", [("jx-each", "names")]⟩) := by decide +kernel
  have hp : t.parentOf ⟨3⟩ = some ⟨1⟩ := by decide +kernel
  have hcomment : t.contentOf ⟨4⟩ = some (.comment "\x7b\x7b.\x7d\x7d") := by decide +kernel
  have hbelow : t.parentOf ⟨4⟩ = some ⟨3⟩ := by decide +kernel
  have hw : t.WellFormed := Tree.ofDocuments_wellFormed _
  obtain ⟨⟨u, notices, pre, post, outs, hu, hwu, ht, hc, hstands, -, hkept⟩, -⟩ :=
    (bindAt_touches_own_place hw hn context .standard).imp_left fun h => h ⟨1⟩ hp
  obtain ⟨hlen, -⟩ := hstands
  obtain ⟨x, y, rfl⟩ := List.length_eq_two.1 hlen
  obtain ⟨hx, hxp, -⟩ := hkept ⟨4⟩ _ hcomment
  exact ⟨hw, hn, hp, u, notices, pre, post, x, y, hu, hwu, ht, hc, hx, hxp.trans hbelow⟩

end Template
end PageBinding
