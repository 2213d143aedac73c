/-
# The walk with a stack is the recursive one

Document order is a recursion over the children (`Preordered`): each of them is followed by
what is below it.  The stack of a descent holds siblings of several levels, and what is left
of the order is that of the stack, read from its end, as if it were the children of one node
(`pending`).  The next node takes its place in that list and gives it up to its children
(`next_pending_cons`), and so a descent gives out the order and ends (`Preordered.yields`).

What goes through a descent goes through the list of the nodes that it gives out, up to where
it stops (`Descent.Yields.through_eq`).
-/

import PageBinding.Proofs.Tree.Editing
import PageBinding.Proofs.Tree.Walking
import PageBinding.Tree.Descent
import Mathlib.Data.Set.Card

namespace PageBinding
namespace Tree

open Html (Element)
open Numbered (idsAll)

variable {t : Tree} {a : Numbered} {id x : NodeId} {ids : List NodeId} {name : String} {d : Descent}

/-- The listed nodes and those below them, in document order: each node, then what is below
it, then the rest of the list with what is below that. -/
inductive Preordered (t : Tree) : List NodeId → List NodeId → Prop
  | nil : Preordered t [] []
  | cons {id : NodeId} {rest below after : List NodeId} :
      Preordered t (t.childrenOf id) below → Preordered t rest after →
        Preordered t (id :: rest) (id :: (below ++ after))

/-- The nodes below a node, in document order. -/
structure Descends (t : Tree) (id : NodeId) (ids : List NodeId) : Prop where
  preordered : t.Preordered (t.childrenOf id) ids
  mem : ∀ x, x ∈ ids ↔ t.Above id x
  nodup : ids.Nodup

/-- The descent gives out these nodes, one after the other, and then ends. -/
inductive Descent.Yields (t : Tree) : Descent → List NodeId → Prop
  | done {d : Descent} : d.next t = .ok none → Yields t d []
  | more {d rest : Descent} {id : NodeId} {ids : List NodeId} :
      d.next t = .ok (some (id, rest)) → Yields t rest ids → Yields t d (id :: ids)

/-- The node is an element with the given `id` attribute. -/
def Bears (t : Tree) (name : String) (x : NodeId) : Prop :=
  ∃ e : Element, t.contentOf x = some (.element e) ∧ e.get? "id" = some name

/-- What is found if the nodes are looked through for an `id` in their order.  The root, which
leads to all of them, is not looked at. -/
inductive FirstBearing (t : Tree) (name : String) (ids : List NodeId) : Option NodeId → Prop
  | found (before after : List NodeId) (x : NodeId) : ids = before ++ x :: after →
      t.Bears name x → (∀ y ∈ before, ¬ t.Bears name y) → FirstBearing t name ids (some x)
  | missing : (∀ x, t.Within root x → t.Bears name x → x = root) → FirstBearing t name ids none

/-! ## Document order -/

/-- Listed nodes in a row are listed, with what is below them, in a row. -/
theorem Preordered.append {as bs xs ys : List NodeId} (ha : t.Preordered as xs)
    (hb : t.Preordered bs ys) : t.Preordered (as ++ bs) (xs ++ ys) := by
  induction ha with
  | nil => exact hb
  | cons hbelow _ _ ih =>
    rw [List.cons_append, List.cons_append, List.append_assoc]
    exact .cons hbelow ih

/-- What is held is numbered in document order. -/
theorem Holds.preordered (ha : t.Holds a) : t.Preordered (t.childrenOf a.top) (idsAll a.inside) := by
  induction a using Numbered.induction_up with
  | step id n bs ih =>
    rw [ha.children]
    have key : ∀ cs ⊆ bs, t.Preordered (cs.map Numbered.top) (idsAll cs) := by
      intro cs
      induction cs with
      | nil => exact fun _ => .nil
      | cons c cs ihc =>
        intro h
        have hc := h (List.mem_cons_self ..)
        rw [List.map_cons, idsAll, Numbered.ids_eq, List.cons_append]
        exact .cons (ih c hc (ha.of_mem hc)) (ihc fun d hd => h (List.mem_cons_of_mem _ hd))
    exact key bs (List.Subset.refl _)

/-- Below the top of what a tree holds are the nodes inside, in document order. -/
theorem Holds.descends (ha : t.Holds a) (hw : t.WellFormed) :
    t.Descends a.top (idsAll a.inside) where
  preordered := ha.preordered
  mem _ := ha.mem_inside hw
  nodup := by
    have h := ha.ids_nodup hw
    rw [Numbered.ids_eq] at h
    exact h.of_cons

/-! ## The stack -/

namespace Descent

/-- The descent to the listed nodes and those below them, the first one next. -/
def pending (ids : List NodeId) : Descent := ⟨ids.reverse.toArray⟩

/-- A descent begins with the children of its node. -/
theorem below_ok (h : t.Has id) : below t id = .ok (pending (t.childrenOf id)) := by
  rw [below, children_ok h, ok_bind, pure_eq_ok, pending, List.reverse_toArray]

/-- A descent with nothing left ends. -/
theorem next_pending_nil : (pending []).next t = .ok none := rfl

/-- **The next node gives its place to its children.** -/
theorem next_pending_cons (h : t.Has id) : (pending (id :: ids)).next t =
    .ok (some (id, pending (t.childrenOf id ++ ids))) := by
  have hback : (pending (id :: ids)).stack.back? = some id := by simp [pending]
  have hpop : (pending (id :: ids)).stack.pop ++ (t.childrenOf id).reverse =
      (pending (t.childrenOf id ++ ids)).stack := by simp [pending]
  rw [next, hback]
  dsimp only
  rw [children_ok h, ok_bind, hpop]
  rfl

end Descent

/-- **A descent gives out the document order and ends.** -/
theorem Preordered.yields {pending : List NodeId} (h : t.Preordered pending ids)
    (hids : ∀ x ∈ ids, t.Has x) : (Descent.pending pending).Yields t ids := by
  induction ids generalizing pending with
  | nil =>
    cases h
    exact .done Descent.next_pending_nil
  | cons id ids ih =>
    obtain ⟨hid, hrest⟩ := List.forall_mem_cons.1 hids
    cases h with
    | cons hbelow hafter =>
      exact .more (Descent.next_pending_cons hid) (ih (hbelow.append hafter) hrest)

/-- **Going through a descent** is going through the nodes that it gives out. -/
theorem Descent.Yields.through_eq {σ : Type} {visit : NodeId → σ → Except Fault (ForInStep σ)}
    (h : d.Yields t ids) : ∀ (steps : Nat) (s : σ), ids.length ≤ steps →
      d.through t visit steps s = forIn ids s visit := by
  induction h with
  | done hn =>
    intro steps s _
    cases steps <;> rw [through, hn, ok_bind] <;> rfl
  | more hn _ ih =>
    rintro (_ | steps) s hl
    · cases hl
    · rw [through, hn, ok_bind, List.forIn_cons]
      refine bind_congr fun r => ?_
      cases r with
      | done s => rfl
      | yield s => exact ih steps s (Nat.le_of_succ_le_succ hl)

/-! ## Going through the nodes -/

/-- A loop that stops at the first node which passes a test finds that node. -/
theorem forIn_firstWith? (p : NodeId → Except Fault Bool) (ids : List NodeId) :
    forIn ids none (fun id found => do return if ← p id then .done (some id) else .yield found) =
      firstWith? p ids := by
  induction ids with
  | nil => rfl
  | cons id ids ih =>
    rw [List.forIn_cons, firstWith?, bind_assoc]
    refine bind_congr fun b => ?_
    cases b with
    | true => rfl
    | false => exact ih

/-- A loop over nodes of the tree joins their texts. -/
theorem forIn_ownText (h : ∀ x ∈ ids, t.Has x) (out : String) :
    forIn ids out (fun id out => do return .yield (out ++ (← t.ownText id))) =
      .ok (out ++ String.join (ids.map t.textOf)) := by
  induction ids generalizing out with
  | nil => simp
  | cons id ids ih =>
    obtain ⟨hid, hrest⟩ := List.forall_mem_cons.1 h
    rw [List.forIn_cons, ownText_ok hid, ok_bind, List.map_cons, String.join_cons,
      ← String.append_assoc]
    exact ih hrest (out ++ t.textOf id)

/-- A loop that counts nodes counts each of them. -/
theorem forIn_count (ids : List NodeId) (n : Nat) :
    forIn ids n (fun _ n => return .yield (n + 1)) = (.ok (n + ids.length) : Except Fault Nat) := by
  induction ids generalizing n with
  | nil => rfl
  | cons id ids ih =>
    rw [List.forIn_cons, List.length_cons, Nat.add_comm ids.length, ← Nat.add_assoc]
    exact ih (n + 1)

/-- A descent below what is held takes no more steps than there are nodes. -/
theorem Holds.through_below {σ : Type} (ha : t.Holds a) (hw : t.WellFormed)
    (visit : NodeId → σ → Except Fault (ForInStep σ)) (s : σ) :
    (do (← Descent.below t a.top).through t visit t.size s) = forIn (idsAll a.inside) s visit := by
  have hlength := ha.length_ids_le hw
  have hhas : ∀ x ∈ a.ids, t.Has x := fun _ hx => ha.has hx
  rw [Numbered.ids_eq] at hlength hhas
  rw [Descent.below_ok ha.has_top, ok_bind]
  exact (ha.preordered.yields (List.forall_mem_cons.1 hhas).2).through_eq _ s
    (Nat.le_of_succ_le hlength)

/-- The descent finds the same node for an `id` as the list of nodes does. -/
theorem Holds.findByIdOnDescent? (ha : t.Holds a) (hw : t.WellFormed) (htop : a.top = root)
    (name : String) : t.findByIdOnDescent? name = t.findById? name := by
  rw [Tree.findByIdOnDescent?, findById?, ← htop, ha.through_below hw, forIn_firstWith?,
    descendants_ok hw ha, ok_bind]

/-- The descent reads the texts of all nodes, in document order. -/
theorem Holds.textContentOnDescent (ha : t.Holds a) (hw : t.WellFormed) :
    t.textContentOnDescent a.top = .ok (String.join (a.ids.map t.textOf)) := by
  have hhas : ∀ x ∈ a.ids, t.Has x := fun _ hx => ha.has hx
  rw [Numbered.ids_eq] at hhas ⊢
  rw [Tree.textContentOnDescent, ownText_ok ha.has_top, ok_bind, ha.through_below hw,
    forIn_ownText (List.forall_mem_cons.1 hhas).2, List.map_cons, String.join_cons]

/-- The descent counts the nodes that the root leads to. -/
theorem Holds.liveSizeOnDescent (ha : t.Holds a) (hw : t.WellFormed) (htop : a.top = root) :
    t.liveSizeOnDescent = .ok a.ids.length := by
  have h := ha.through_below hw (fun _ n => return .yield (n + 1)) 0
  rw [forIn_count, htop] at h
  rw [Tree.liveSizeOnDescent, Numbered.ids_eq, List.length_cons]
  obtain ⟨d, hd, hthrough⟩ := exists_of_bind_ok h
  rw [hd, ok_bind, hthrough, ok_bind, pure_eq_ok, Nat.zero_add, Nat.add_comm]

/-- The nodes of what is held, counted, are the nodes within its top node. -/
theorem Holds.ncard_within (ha : t.Holds a) (hw : t.WellFormed) :
    {x | t.Within a.top x}.ncard = a.ids.length := by
  have hset : {x | t.Within a.top x} = (a.ids.toFinset : Set NodeId) := by
    ext x
    rw [Set.mem_ofPred_eq, ← ha.mem_ids hw, Finset.mem_coe, List.mem_toFinset]
  rw [hset, Set.ncard_coe_finset, List.toFinset_card_of_nodup (ha.ids_nodup hw)]

/-- A node has an `id` if its content does. -/
theorem hasId_iff_bears :
    (t.contentOf x).any (Html.Node.hasId name) = true ↔ t.Bears name x := by
  rw [Bears]
  cases t.contentOf x with
  | none => simp
  | some n => cases n <;> simp [Html.Node.hasId, Html.Node.element?]

/-- What is found for an `id` is the first node that has it. -/
theorem Holds.firstBearing (ha : t.Holds a) (hw : t.WellFormed) (htop : a.top = root)
    {found : Option NodeId} (h : t.findById? name = .ok found) :
    t.FirstBearing name (idsAll a.inside) found := by
  rw [findById?_ok hw ha htop] at h
  obtain rfl := Except.ok.inj h
  cases hfound : (idsAll a.inside).find? fun x => (t.contentOf x).any (Html.Node.hasId name) with
  | none =>
    refine .missing fun x hx hbears => ?_
    rcases hx with rfl | hx
    · rfl
    · have hmem := (ha.mem_inside hw).2 (htop ▸ hx)
      exact absurd (hasId_iff_bears.2 hbears) (List.find?_eq_none.1 hfound x hmem)
  | some x =>
    obtain ⟨hbears, before, after, hids, hbefore⟩ := List.find?_eq_some_iff_append.1 hfound
    refine .found before after x hids (hasId_iff_bears.1 hbears) fun y hy hby => ?_
    have := hbefore y hy
    rw [hasId_iff_bears.2 hby] at this
    cases this

/-- **A descent gives out the nodes below a node in document order and ends.**  Whatever node
of a well-formed tree it begins at, these are the nodes strictly below that, each once, and
each child stands before what is below it, which stands before the next child.  So the text of
a node is made of those of the nodes in and below it in this order, the element of an `id` is
the first one in the order of what is below the root, and the live nodes are as many as the
root leads to. -/
theorem descent_is_preorder (hw : t.WellFormed) (hid : t.Has id) :
    (∃ d ids, Descent.below t id = .ok d ∧ d.Yields t ids ∧ t.descendants id = .ok ids ∧
      t.Descends id ids ∧
      t.textContentOnDescent id = .ok (String.join ((id :: ids).map t.textOf)) ∧
      t.textContent id = .ok (String.join ((id :: ids).map t.textOf))) ∧
    (∃ live, t.descendants root = .ok live ∧ t.Descends root live ∧
      ∀ name, ∃ found, t.findByIdOnDescent? name = .ok found ∧ t.findById? name = .ok found ∧
        t.FirstBearing name live found) ∧
    t.liveSizeOnDescent = .ok {x | t.Within root x}.ncard ∧
    t.liveSize = .ok {x | t.Within root x}.ncard := by
  have hroot : t.Has root := Nat.zero_lt_of_lt hid
  obtain ⟨a, rfl, ha⟩ := hw.exists_holds hid
  obtain ⟨r, htop, hr⟩ := hw.exists_holds hroot
  have hhas : ∀ x ∈ a.ids, t.Has x := fun _ hx => ha.has hx
  rw [Numbered.ids_eq] at hhas
  refine ⟨⟨_, _, Descent.below_ok hid, ha.preordered.yields (List.forall_mem_cons.1 hhas).2,
    descendants_ok hw ha, ha.descends hw, ?_, ?_⟩, ⟨idsAll r.inside, ?_, ?_, fun name => ?_⟩, ?_, ?_⟩
  · rw [ha.textContentOnDescent hw, Numbered.ids_eq]
  · rw [textContent_ok hw ha, ← ha.join_texts, Numbered.ids_eq]
  · rw [← htop, descendants_ok hw hr]
  · exact htop ▸ hr.descends hw
  · have hfound := findById?_ok hw hr htop name
    exact ⟨_, (hr.findByIdOnDescent? hw htop name).trans hfound, hfound,
      hr.firstBearing hw htop hfound⟩
  · rw [hr.liveSizeOnDescent hw htop, ← htop, hr.ncard_within hw]
  · rw [liveSize_ok hw hr htop, ← htop, hr.ncard_within hw]

/-- A section that was made last is moved in front of a paragraph: it is visited first. -/
theorem descent_is_preorder_of_moved : ∃ t d, t.WellFormed ∧ t.Has ⟨1⟩ ∧
    Descent.below t ⟨1⟩ = .ok d ∧ d.Yields t [⟨4⟩, ⟨5⟩, ⟨2⟩, ⟨3⟩] ∧
      t.textContentOnDescent ⟨1⟩ = .ok "ba" ∧ t.FirstBearing "inner" [⟨1⟩, ⟨4⟩, ⟨5⟩, ⟨2⟩, ⟨3⟩] (some ⟨2⟩) ∧
        t.liveSizeOnDescent = .ok 6 := by
  let page : Tree := .ofDocuments [.node (.element ⟨"div", [("id", "outer")]⟩)
    [.node (.element ⟨"p", [("id", "inner")]⟩) [.node (.text "a") []],
      .node (.element ⟨"section", []⟩) [.node (.text "b") []]]]
  have hsize : page.size = 6 := by decide +kernel
  have hwp : page.WellFormed := ofDocuments_wellFormed _
  have hdiv : page.Has ⟨1⟩ := by rw [Has, hsize]; decide
  have hsection : page.Has ⟨4⟩ := by rw [Has, hsize]; decide
  have hup : page.ancestorsOrSelf ⟨1⟩ = .ok [⟨1⟩, ⟨0⟩] := by decide +kernel
  have hwithin : ¬ page.Within ⟨4⟩ ⟨1⟩ := by
    obtain ⟨ids, hids, hmem⟩ := ancestorsOrSelf_ok hwp hdiv
    obtain rfl := Except.ok.inj (hup.symm.trans hids)
    rw [← hmem]
    decide
  have hbelow : (page.insertBefore ⟨1⟩ ⟨4⟩ (some ⟨2⟩) >>= fun t => t.descendants ⟨1⟩) =
      .ok [⟨4⟩, ⟨5⟩, ⟨2⟩, ⟨3⟩] := by decide +kernel
  have hlive : (page.insertBefore ⟨1⟩ ⟨4⟩ (some ⟨2⟩) >>= fun t => t.descendants root) =
      .ok [⟨1⟩, ⟨4⟩, ⟨5⟩, ⟨2⟩, ⟨3⟩] := by decide +kernel
  have htext : (page.insertBefore ⟨1⟩ ⟨4⟩ (some ⟨2⟩) >>= fun t => t.textContent ⟨1⟩) = .ok "ba" := by
    decide +kernel
  have hfind : (page.insertBefore ⟨1⟩ ⟨4⟩ (some ⟨2⟩) >>= fun t => t.findById? "inner") =
      .ok (some ⟨2⟩) := by decide +kernel
  have hcount : (page.insertBefore ⟨1⟩ ⟨4⟩ (some ⟨2⟩) >>= liveSize) = .ok 6 := by decide +kernel
  obtain ⟨v, t, hv, -, ht, hw, hr⟩ := hwp.insertBefore_ok hdiv hsection hwithin (some ⟨2⟩)
  rw [ht, ok_bind] at hbelow hlive htext hfind hcount
  have hid : t.Has ⟨1⟩ := hr.has.2 (hv.has.2 hdiv)
  obtain ⟨⟨d, ids, hd, hyields, hids, -, hout, hcontent⟩, ⟨live, hl, -, hfirst⟩, hsizeOn, hsizes⟩ :=
    descent_is_preorder hw hid
  obtain rfl := Except.ok.inj (hids.symm.trans hbelow)
  obtain rfl := Except.ok.inj (hl.symm.trans hlive)
  obtain ⟨found, -, hfound, hbearing⟩ := hfirst "inner"
  obtain rfl := Except.ok.inj (hfound.symm.trans hfind)
  exact ⟨t, d, hw, hid, hd, hyields, hout.trans (hcontent.symm.trans htext), hbearing,
    hsizeOn.trans (hsizes.symm.trans hcount)⟩

end Tree
end PageBinding
