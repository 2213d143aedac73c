/-
# One node more

A tree grows by a new last child of a node (`Extended`), or by a longer text in a text
(`Rewritten`).  What each of the two does is said by what can be seen of the tree.

| invariant | kept, since |
| --- | --- |
| the contents by number (`contents`) | a new node has the next number |
| nothing is in leaves (`LeavesBare`) | the new node goes into a node that is none |
| no two texts stand side by side (`TextsApart`) | the new node is no text if the last child is one |
-/

import PageBinding.Proofs.Html.Writable
import PageBinding.Proofs.Tree.Editing
import PageBinding.Tree.Scaffold
import Mathlib.Data.List.Chain

namespace PageBinding
namespace Tree

open Html (Node)

variable {t u : Tree} {n : Node} {id spot x : NodeId}

/-- A tree with a new node as the last child of another one. -/
structure Extended (t u : Tree) (parent : NodeId) (n : Node) : Prop where
  wellFormed : u.WellFormed
  size : u.size = t.size + 1
  content : ∀ x, u.contentOf x = if x = ⟨t.size⟩ then some n else t.contentOf x
  children : ∀ x, u.childrenOf x =
    if x = parent then t.childrenOf x ++ [⟨t.size⟩] else t.childrenOf x

/-- A tree with another content of a node. -/
structure Rewritten (t u : Tree) (id : NodeId) (n : Node) : Prop where
  wellFormed : u.WellFormed
  size : u.size = t.size
  content : ∀ x, u.contentOf x = if x = id then some n else t.contentOf x
  children : ∀ x, u.childrenOf x = t.childrenOf x

/-- A number that no node has yet. -/
theorem not_has_size (t : Tree) : ¬ t.Has ⟨t.size⟩ := Nat.lt_irrefl _

/-- A new node is the only one more. -/
theorem has_push : (t.push n).1.Has x ↔ x = ⟨t.size⟩ ∨ t.Has x := by
  obtain ⟨i⟩ := x
  simp only [Has, size_push, NodeId.mk.injEq]
  omega

/-- A new node takes no other node's children. -/
theorem childrenOf_push (t : Tree) (n : Node) (x : NodeId) :
    (t.push n).1.childrenOf x = t.childrenOf x := by
  obtain ⟨hgrow, hnode⟩ := growsTo_push t ⟨n, none, []⟩
  by_cases hx : t.Has x
  · exact hgrow.childrenOf hx
  rw [childrenOf_eq_nil hx]
  by_cases hnew : x = ⟨t.size⟩
  · rw [hnew, childrenOf, push, hnode]
    rfl
  · exact childrenOf_eq_nil fun h => (has_push.1 h).elim hnew hx

/-- A new node has its content, and takes no other node's. -/
theorem contentOf_push (t : Tree) (n : Node) (x : NodeId) :
    (t.push n).1.contentOf x = if x = ⟨t.size⟩ then some n else t.contentOf x := by
  obtain ⟨hgrow, hnode⟩ := growsTo_push t ⟨n, none, []⟩
  split_ifs with hnew
  · rw [hnew, contentOf, push, hnode]
    rfl
  by_cases hx : t.Has x
  · exact hgrow.contentOf hx
  rw [contentOf_eq_none hx]
  exact contentOf_eq_none fun h => (has_push.1 h).elim hnew hx

/-- **A new child** can be put in at each node of a well-formed tree. -/
theorem WellFormed.newChild_extended (hw : t.WellFormed) (hp : t.Has spot) (n : Node) :
    ∃ u, t.newChild spot n = .ok (u, ⟨t.size⟩) ∧ Extended t u spot n := by
  obtain ⟨hgrow, hnode⟩ := growsTo_push t ⟨n, none, []⟩
  have hwv : (t.push n).1.WellFormed := hw.of_push n
  have hc : (t.push n).1.Has ⟨t.size⟩ := has_iff.2 ⟨_, hnode⟩
  have hfree : (t.push n).1.parentOf ⟨t.size⟩ = none := by
    rw [parentOf, push, hnode]
    rfl
  obtain ⟨v, u, -, hv, hu, hwu, hr⟩ := hwv.insertBefore_ok (hgrow.has hp) hc
    (hgrow.not_within hw t.not_has_size hp) none
  obtain rfl : (t.push n).1 = v := Except.ok.inj ((detach_of_detached hc hfree).symm.trans hv)
  refine ⟨u, ?_, hwu, ?_, fun x => (hr.content x).trans (contentOf_push t n x), fun x => ?_⟩
  · exact congrArg (· >>= fun w => pure (w, _)) hu
  · rw [hr.size, size_push]
  · rw [hr.children, childrenWith, childrenOf_push, splice]

/-- A node's content can be set, and nothing else changes. -/
theorem WellFormed.setContent_rewritten (hw : t.WellFormed) (hid : t.Has id) (n : Node) :
    ∃ u, t.setContent id n = .ok u ∧ Rewritten t u id n := by
  obtain ⟨u, hu, hs, hn, hp, hc⟩ := setContent_ok hid n
  exact ⟨u, hu, hw.of_links hs hp hc, hs, hn, hc⟩

/-- A new last child leaves the contents of other nodes. -/
theorem Extended.content_of_has (h : Extended t u spot n) (hx : t.Has x) :
    u.contentOf x = t.contentOf x := by
  rw [h.content, if_neg]
  rintro rfl
  exact t.not_has_size hx

/-! ## The last child -/

/-- The last child of a node and its text, if it is a text; none where there is no node. -/
def lastTextOf (t : Tree) (parent : NodeId) : Option (NodeId × String) :=
  (t.childrenOf parent).getLast?.bind fun last =>
    ((t.contentOf last).bind Node.text?).map fun s => (last, s)

/-- The last text of a node can be read. -/
theorem WellFormed.lastText?_ok (hw : t.WellFormed) (h : t.Has spot) :
    t.lastText? spot = .ok (t.lastTextOf spot) := by
  rw [lastText?, children_ok h, ok_bind, lastTextOf]
  cases hlast : (t.childrenOf spot).getLast? with
  | none => rfl
  | some last =>
    obtain ⟨n, hn⟩ := has_iff_contentOf.1 (hw.has_child (List.mem_of_getLast? hlast))
    dsimp only
    rw [content_ok hn, ok_bind, Option.bind_some, hn]
    rfl

/-- The last text of a node is its last child, if that is a text. -/
theorem lastTextOf_eq_some {s : String} : t.lastTextOf spot = some (id, s) ↔
    (t.childrenOf spot).getLast? = some id ∧ t.contentOf id = some (.text s) := by
  rw [lastTextOf, Option.bind_eq_some_iff]
  constructor
  · rintro ⟨last, hlast, hs⟩
    obtain ⟨w, hw, hpair⟩ := Option.map_eq_some_iff.1 hs
    obtain ⟨rfl, rfl⟩ := Prod.mk.inj hpair
    obtain ⟨n, hn, htext⟩ := Option.bind_eq_some_iff.1 hw
    refine ⟨hlast, hn.trans ?_⟩
    cases n <;> simp_all [Node.text?]
  · rintro ⟨hlast, hn⟩
    exact ⟨id, hlast, by rw [hn]; rfl⟩

/-! ## Contents by number -/

/-- The contents of all nodes, by number. -/
def contents (t : Tree) : List Node := t.nodes.toList.map LinkedNode.content

/-- The contents by number are the contents of the nodes. -/
theorem getElem?_contents (t : Tree) (i : Nat) : t.contents[i]? = t.contentOf ⟨i⟩ := by
  rw [contents, List.getElem?_map, Array.getElem?_toList]
  rfl

/-- There are as many contents as nodes. -/
theorem length_contents (t : Tree) : t.contents.length = t.size := by
  rw [contents, List.length_map, Array.length_toList, size]

/-- A new node comes last. -/
theorem Extended.contents (h : Extended t u spot n) : u.contents = t.contents ++ [n] := by
  refine List.ext_getElem? fun i => ?_
  rw [getElem?_contents, h.content]
  rcases Nat.lt_trichotomy i t.size with hi | rfl | hi
  · rw [if_neg (by simpa using hi.ne), ← getElem?_contents,
      List.getElem?_append_left (by rwa [length_contents])]
  · rw [if_pos rfl, ← length_contents, List.getElem?_concat_length]
  · rw [if_neg (by simpa using hi.ne'), contentOf_eq_none (Nat.not_lt_of_gt hi),
      List.getElem?_eq_none]
    rwa [List.length_append, length_contents]

/-- The contents with one of them set. -/
theorem Rewritten.contents (h : Rewritten t u id n) :
    u.contents = t.contents.set id.index n := by
  refine List.ext_getElem? fun i => ?_
  rw [getElem?_contents, h.content, List.getElem?_set, length_contents]
  by_cases hi : id.index = i
  · subst hi
    have hid : id.index < t.size := by
      rw [← h.size]
      exact has_iff_contentOf.2 ⟨n, by rw [h.content, if_pos rfl]⟩
    rw [if_pos rfl, if_pos rfl, if_pos hid]
  · rw [if_neg fun he => hi (by rw [← he]), if_neg hi, getElem?_contents]

/-- The newest node is the last one. -/
theorem Rewritten.contents_newest {old : Node} (h : Rewritten t u id n)
    (hold : t.contentOf id = some old) (hnewest : id.index + 1 = t.size) :
    ∃ before, t.contents = before ++ [old] ∧ u.contents = before ++ [n] := by
  have hlen := length_contents t
  rcases List.eq_nil_or_concat t.contents with hnil | ⟨before, last, hsplit⟩
  · rw [hnil, List.length_nil] at hlen
    omega
  rw [List.concat_eq_append] at hsplit
  have hlength : before.length = id.index := by
    rw [hsplit, List.length_append, List.length_singleton] at hlen
    omega
  have hlast := (getElem?_contents t id.index).trans hold
  rw [hsplit, ← hlength, List.getElem?_concat_length] at hlast
  obtain rfl := Option.some.inj hlast
  refine ⟨before, hsplit, ?_⟩
  rw [h.contents, hsplit, ← hlength, List.set_append_right _ _ le_rfl, Nat.sub_self]
  rfl

/-- What is read at all the nodes from a number on. -/
theorem mapM_content (t : Tree) (k : Nat) :
    ((List.range' k (t.size - k)).map NodeId.mk).mapM t.content = .ok (t.contents.drop k) := by
  have hread : ∀ x ∈ (List.range' k (t.size - k)).map NodeId.mk,
      t.content x = .ok ((t.contentOf x).getD .fragment) := by
    intro x hx
    obtain ⟨i, hi, rfl⟩ := List.mem_map.1 hx
    have hlt : i < t.size := by
      have := List.mem_range'_1.1 hi
      omega
    obtain ⟨n, hn⟩ := has_iff_contentOf.1 (show t.Has ⟨i⟩ from hlt)
    rw [content_ok hn, hn]
    rfl
  rw [mapM_ok hread]
  refine congrArg _ (List.ext_getElem? fun i => ?_)
  rw [List.map_map, List.getElem?_map, List.getElem?_drop, getElem?_contents]
  by_cases hi : i < t.size - k
  · obtain ⟨n, hn⟩ := has_iff_contentOf.1 (show t.Has ⟨k + i⟩ by rw [Has]; dsimp only; omega)
    rw [List.getElem?_range' hi, hn, Option.map_some, Function.comp_apply, Nat.one_mul, hn]
    rfl
  · rw [contentOf_eq_none (by rw [Has]; dsimp only; omega),
      List.getElem?_eq_none (by rw [List.length_range']; omega)]
    rfl

/-! ## Texts and leaves -/

/-- A node is a text. -/
def IsTextAt (t : Tree) (id : NodeId) : Prop := ∃ s, t.contentOf id = some (.text s)

/-- No two texts stand side by side. -/
def TextsApart (t : Tree) : Prop :=
  ∀ p, (t.childrenOf p).IsChain fun a b => ¬ (t.IsTextAt a ∧ t.IsTextAt b)

/-- Nothing is in a node that nothing can be in. -/
def LeavesBare (t : Tree) : Prop := ∀ x n, t.contentOf x = some n → n.IsLeaf → t.childrenOf x = []

/-- No two texts stand side by side with a new last child, unless it is a text behind another
one. -/
theorem Extended.textsApart (h : Extended t u spot n) (hw : t.WellFormed) (ht : t.TextsApart)
    (hlast : n.text?.isSome → t.lastTextOf spot = none) : u.TextsApart := by
  intro p
  have hsame : ∀ c ∈ t.childrenOf p, (u.IsTextAt c ↔ t.IsTextAt c) := fun c hc => by
    rw [IsTextAt, IsTextAt, h.content_of_has (hw.has_child hc)]
  have hold : (t.childrenOf p).IsChain fun a b => ¬ (u.IsTextAt a ∧ u.IsTextAt b) :=
    (ht p).imp_of_mem_imp fun a b ha hb hab => by rwa [hsame a ha, hsame b hb]
  rw [h.children]
  split_ifs with hp
  · refine List.isChain_append.2 ⟨hold, List.isChain_singleton _, fun a ha b hb => ?_⟩
    -- A text is put in only if the last child before is none.
    obtain rfl : ⟨t.size⟩ = b := Option.some.inj hb
    rintro ⟨hta, w, hw'⟩
    rw [h.content, if_pos rfl, Option.some.injEq] at hw'
    obtain ⟨v, hv⟩ := (hsame a (List.mem_of_getLast? ha)).1 hta
    have := lastTextOf_eq_some.2 ⟨hp ▸ ha, hv⟩
    rw [hlast (by rw [hw']; rfl)] at this
    cases this
  · exact hold

/-- No two texts stand side by side when one of them changes. -/
theorem Rewritten.textsApart {w : String} (h : Rewritten t u id (.text w)) (hid : t.IsTextAt id)
    (ht : t.TextsApart) : u.TextsApart := by
  have hsame : ∀ c, u.IsTextAt c ↔ t.IsTextAt c := fun c => by
    rw [IsTextAt, h.content]
    split_ifs with hc
    · rw [hc]
      exact iff_of_true ⟨w, rfl⟩ hid
    · rfl
  intro p
  rw [h.children]
  simpa only [hsame] using ht p

/-- Nothing gets into a node that nothing can be in when a new child goes into another one. -/
theorem Extended.leavesBare (h : Extended t u spot n) (hspot : t.Has spot)
    (hroom : ∀ n, t.contentOf spot = some n → ¬ n.IsLeaf) (ht : t.LeavesBare) : u.LeavesBare := by
  intro x m hm hleaf
  rw [h.content] at hm
  rw [h.children]
  split_ifs at hm with hx
  · rw [if_neg, hx, childrenOf_eq_nil t.not_has_size]
    rintro rfl
    exact t.not_has_size (hx ▸ hspot)
  · rw [if_neg, ht x m hm hleaf]
    rintro rfl
    exact hroom m hm hleaf

/-- Nothing gets into a node that nothing can be in when a text changes. -/
theorem Rewritten.leavesBare {w : String} (h : Rewritten t u id (.text w)) (hid : t.IsTextAt id)
    (ht : t.LeavesBare) : u.LeavesBare := by
  intro x m hm hleaf
  rw [h.content] at hm
  rw [h.children]
  split_ifs at hm with hx
  · obtain ⟨v, hv⟩ := hid
    rw [hx]
    exact ht id _ hv trivial
  · exact ht x m hm hleaf

end Tree
end PageBinding
