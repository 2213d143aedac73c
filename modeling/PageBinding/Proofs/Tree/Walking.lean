/-
# What walks visit

In a well-formed tree a walk down from a node visits what is held there, in
document order (`descendants_ok`), and a walk up visits the nodes that it is
within (`ancestorsOrSelf_ok`); neither runs out of steps.  So looking for the
element of an `id` is looking through what is held at the root
(`findById?_ok`), and the texts below a node are those of the document held there
(`textContent_ok`).
-/

import PageBinding.Proofs.Tree.Numbered
import PageBinding.Tree.Walk

namespace PageBinding

open Html (Node Document)
open Numbered (idsAll documents)

/-- A content is an element with the given `id` attribute. -/
def Html.Node.hasId (name : String) (n : Node) : Bool :=
  n.element?.any fun e => e.get? "id" = some name

mutual

/-- The texts of a document, one after the other. -/
def Html.Document.text : Document → String
  | .node n ds => n.text?.getD "" ++ Html.Document.textAll ds

/-- The texts of some documents, one after the other. -/
def Html.Document.textAll : List Document → String
  | [] => ""
  | d :: ds => d.text ++ Html.Document.textAll ds

end

namespace Tree

variable {t : Tree} {a : Numbered} {id x : NodeId}

/-- **Walking down** visits what is held, in document order. -/
theorem walk_ok : ∀ (steps : Nat) (as : List Numbered), (∀ a ∈ as, t.Holds a) →
    (idsAll as).length ≤ steps → t.walk steps (as.map Numbered.top) = .ok (idsAll as) := by
  intro steps
  induction steps with
  | zero =>
    rintro (_ | ⟨a, as⟩) _ hl
    · rfl
    · rw [idsAll, Numbered.ids_eq] at hl
      cases hl
  | succ steps ih =>
    rintro (_ | ⟨a, as⟩) h hl
    · rfl
    · obtain ⟨ha, has⟩ := List.forall_mem_cons.1 h
      rw [idsAll, Numbered.ids_eq, List.cons_append, ← Numbered.idsAll_append] at hl ⊢
      have hpending : ∀ b ∈ a.inside ++ as, t.Holds b := by
        intro b hb
        rcases List.mem_append.1 hb with hb | hb
        · exact ha.of_mem hb
        · exact has b hb
      rw [List.map_cons, walk, children_ok ha.has_top, ok_bind, ha.children, ← List.map_append,
        ih _ hpending (Nat.le_of_succ_le_succ hl)]
      rfl

/-- The nodes below the top of what is held are those inside, in document order. -/
theorem descendants_ok (hw : t.WellFormed) (ha : t.Holds a) :
    t.descendants a.top = .ok (idsAll a.inside) := by
  rw [descendants, children_ok ha.has_top, ok_bind, ha.children]
  refine walk_ok _ _ (fun b hb => ha.of_mem hb) ?_
  have := ha.length_ids_le hw
  rw [Numbered.ids_eq] at this
  exact Nat.le_of_succ_le this

/-- The live nodes are those that the root leads to. -/
theorem liveSize_ok (hw : t.WellFormed) (ha : t.Holds a) (htop : a.top = root) :
    t.liveSize = .ok a.ids.length := by
  rw [liveSize, ← htop, descendants_ok hw ha, Numbered.ids_eq]
  rfl

open Classical in
/-- **Walking up** visits the nodes that a node is within. -/
theorem ancestorsOrSelf_ok (hw : t.WellFormed) (hid : t.Has id) :
    ∃ ids, t.ancestorsOrSelf id = .ok ids ∧ ∀ x, x ∈ ids ↔ t.Within x id := by
  -- There are fewer nodes above a parent than above its child.
  let above (id : NodeId) : Finset Nat := (Finset.range t.size).filter fun i => t.Above ⟨i⟩ id
  have key : ∀ steps id, t.Has id → (above id).card < steps →
      ∃ ids, t.climb steps id = .ok ids ∧ ∀ x, x ∈ ids ↔ t.Within x id := by
    intro steps
    induction steps with
    | zero => exact fun _ _ h => absurd h (Nat.not_lt_zero _)
    | succ steps ih =>
      intro id hid hlt
      rw [climb, parent_ok hid, ok_bind]
      cases hp : t.parentOf id with
      | none =>
        refine ⟨[id], rfl, fun x => ?_⟩
        rw [List.mem_singleton]
        constructor
        · rintro rfl
          exact .self ..
        · rintro (rfl | h)
          · rfl
          · obtain ⟨p, hp', -⟩ := h.parent_within
            rw [hp] at hp'
            cases hp'
      | some p =>
        have hpt : t.Has p := hw.has_parent hp
        have hcard : (above p).card < (above id).card := by
          refine Finset.card_lt_card (Finset.ssubset_iff_of_subset (fun i hi => ?_) |>.2
            ⟨p.index, ?_, fun hmem => ?_⟩)
          · rw [Finset.mem_filter] at hi ⊢
            exact ⟨hi.1, .step hi.2 hp⟩
          · exact Finset.mem_filter.2 ⟨Finset.mem_range.2 hpt, .parent hp⟩
          · exact hw.acyclic p (Finset.mem_filter.1 hmem).2
        obtain ⟨ids, hids, hmem⟩ := ih p hpt (Nat.lt_of_lt_of_le hcard (Nat.le_of_lt_succ hlt))
        refine ⟨id :: ids, ?_, fun x => ?_⟩
        · dsimp only
          rw [hids]
          rfl
        · rw [List.mem_cons, hmem]
          constructor
          · rintro (rfl | h)
            · exact .self ..
            · exact (h.above hp).within
          · rintro (rfl | h)
            · exact .inl rfl
            · exact .inr (h.within_parent hp)
  refine key _ id hid (Nat.lt_succ_of_le ?_)
  exact (Finset.card_filter_le ..).trans (Finset.card_range t.size).le

/-- The nodes on the way up are at or above the first one, each above those before it. -/
theorem climb_within (hw : t.WellFormed) {steps : Nat} {ids : List NodeId} (hid : t.Has id)
    (h : t.climb steps id = .ok ids) :
    (∀ x ∈ ids, t.Within x id) ∧ ids.Pairwise fun x y => t.Above y x := by
  induction steps generalizing id ids with
  | zero => cases h
  | succ steps ih =>
    rw [climb, parent_ok hid, ok_bind] at h
    cases hp : t.parentOf id with
    | none =>
      rw [hp] at h
      obtain rfl := Except.ok.inj h
      exact ⟨fun x hx => List.mem_singleton.1 hx ▸ .self .., List.pairwise_singleton ..⟩
    | some p =>
      rw [hp] at h
      dsimp only at h
      cases hup : t.climb steps p with
      | error f => rw [hup] at h; cases h
      | ok above =>
        rw [hup] at h
        obtain rfl := Except.ok.inj h
        obtain ⟨hmem, hsorted⟩ := ih (hw.has_parent hp) hup
        have habove : ∀ x ∈ above, t.Above x id := fun x hx => (hmem x hx).above hp
        refine ⟨fun x hx => ?_, List.pairwise_cons.2 ⟨habove, hsorted⟩⟩
        rcases List.mem_cons.1 hx with rfl | hx
        · exact .self ..
        · exact (habove x hx).within

/-- **Walking up** visits each node before those above it. -/
theorem ancestorsOrSelf_sorted (hw : t.WellFormed) {ids : List NodeId} (hid : t.Has id)
    (h : t.ancestorsOrSelf id = .ok ids) : ids.Pairwise fun x y => t.Above y x :=
  (climb_within hw hid h).2

/-- Every node within a node of the tree is one of the tree. -/
theorem has_of_within (hw : t.WellFormed) (hid : t.Has id) (hx : t.Within x id) : t.Has x := by
  rcases hx with rfl | hx
  · exact hid
  · exact hx.has_left hw

/-! ## The texts below a node -/

/-- The text of a text node, and nothing for other nodes and where there is no node. -/
def textOf (t : Tree) (id : NodeId) : String := ((t.contentOf id).bind Node.text?).getD ""

/-- The own text of a node is read. -/
theorem ownText_ok (h : t.Has id) : t.ownText id = .ok (t.textOf id) := by
  obtain ⟨n, hn⟩ := has_iff_contentOf.1 h
  rw [ownText, content_ok hn, textOf, hn]
  rfl

/-- The texts of what is held stand in document order. -/
theorem Holds.join_texts (ha : t.Holds a) : String.join (a.ids.map t.textOf) = a.document.text := by
  induction a using Numbered.induction_up with
  | step id n bs ih =>
    have hown : t.textOf id = n.text?.getD "" := by
      rw [textOf, show t.contentOf id = some n from ha.content, Option.bind_some]
    have hall : ∀ cs ⊆ bs,
        String.join ((idsAll cs).map t.textOf) = Document.textAll (documents cs) := by
      intro cs
      induction cs with
      | nil => exact fun _ => rfl
      | cons c cs ihc =>
        intro h
        have hc := h (List.mem_cons_self ..)
        rw [idsAll, List.map_append, String.join_append, ih c hc (ha.of_mem hc),
          ihc fun d hd => h (List.mem_cons_of_mem _ hd), documents, Document.textAll]
    rw [Numbered.ids, List.map_cons, String.join_cons, hown, hall bs (List.Subset.refl _),
      Numbered.document, Document.text]

/-- **The texts in and below a node** are those of the document held there. -/
theorem textContent_ok (hw : t.WellFormed) (ha : t.Holds a) :
    t.textContent a.top = .ok a.document.text := by
  have hbelow : ∀ x ∈ idsAll a.inside, t.ownText x = .ok (t.textOf x) := fun x hx =>
    ownText_ok (ha.has (Numbered.ids_eq a ▸ List.mem_cons_of_mem _ hx))
  rw [textContent, ownText_ok ha.has_top, ok_bind, descendants_ok hw ha, ok_bind, mapM_ok hbelow,
    ok_bind, pure_eq_ok, ← ha.join_texts, Numbered.ids_eq, List.map_cons, String.join_cons]

/-! ## Looking for an element -/

/-- A test that succeeds on each node finds what the plain test finds. -/
theorem firstWith?_ok {p : NodeId → Except Fault Bool} {q : NodeId → Bool} {ids : List NodeId}
    (h : ∀ x ∈ ids, p x = .ok (q x)) : firstWith? p ids = .ok (ids.find? q) := by
  induction ids with
  | nil => rfl
  | cons x ids ih =>
    rw [firstWith?, h x (List.mem_cons_self ..), ok_bind, List.find?_cons]
    cases q x
    · exact ih fun y hy => h y (List.mem_cons_of_mem _ hy)
    · rfl

/-- Whether a node has an `id` is told by its content. -/
theorem hasId_ok {name : String} (h : t.Has id) :
    t.hasId name id = .ok ((t.contentOf id).any (Node.hasId name)) := by
  obtain ⟨n, hn⟩ := has_iff_contentOf.1 h
  rw [hasId, element?_ok hn, ok_bind, hn, Option.any_some, Node.hasId]
  cases n.element? <;> rfl

/-- **The element of an `id`** is the first one held at the root that has it. -/
theorem findById?_ok (hw : t.WellFormed) (ha : t.Holds a) (htop : a.top = root) (name : String) :
    t.findById? name =
      .ok ((idsAll a.inside).find? fun x => (t.contentOf x).any (Node.hasId name)) := by
  rw [findById?, ← htop, descendants_ok hw ha, ok_bind]
  refine firstWith?_ok fun x hx => hasId_ok (ha.has ?_)
  rw [Numbered.ids_eq]
  exact List.mem_cons_of_mem _ hx

/-- What is found has the `id`, and is below the root. -/
theorem findById?_eq_some (hw : t.WellFormed) (ha : t.Holds a) (htop : a.top = root)
    {name : String} (h : t.findById? name = .ok (some x)) :
    x ∈ idsAll a.inside ∧ ∃ n, t.contentOf x = some n ∧ n.hasId name = true := by
  rw [findById?_ok hw ha htop] at h
  have h := Except.ok.inj h
  refine ⟨List.mem_of_find?_eq_some h, ?_⟩
  have hid := List.find?_some h
  cases hn : t.contentOf x with
  | none => rw [hn] at hid; cases hid
  | some n => exact ⟨n, rfl, by rw [hn] at hid; exact hid⟩

end Tree
end PageBinding
