/-
# Others in the place of a member

`exchange` puts others in the place of a member of a list.  With none it takes
the member away (`exchange_nil`).  In a list without repetitions it is the same to
take the member away and to put in the others before what followed it
(`splice_follower?`), which is how a node of a tree is replaced.
-/

import PageBinding.Proofs.Tree.Order

namespace PageBinding
namespace Tree

variable {id c : NodeId} {new cs ds pre post : List NodeId}

/-- The list with others in the place of a member. -/
def exchange (id : NodeId) (new cs : List NodeId) : List NodeId :=
  cs.flatMap fun c => if c = id then new else [c]

/-- An exchange in lists in a row is one in both. -/
theorem exchange_append : exchange id new (cs ++ ds) = exchange id new cs ++ exchange id new ds :=
  List.flatMap_append

/-- An exchange for what is not in the list changes nothing. -/
theorem exchange_of_notMem (h : id ∉ cs) : exchange id new cs = cs := by
  rw [exchange]
  induction cs with
  | nil => rfl
  | cons c cs ih =>
    rw [List.mem_cons, not_or] at h
    rw [List.flatMap_cons, if_neg (Ne.symm h.1), ih h.2]
    rfl

/-- A member that occurs once. -/
theorem exchange_split (hpre : id ∉ pre) (hpost : id ∉ post) :
    exchange id new (pre ++ id :: post) = pre ++ new ++ post := by
  rw [exchange_append, exchange_of_notMem hpre, exchange, List.flatMap_cons, if_pos rfl, ← exchange,
    exchange_of_notMem hpost, List.append_assoc]

/-- A member in its own place changes nothing. -/
theorem exchange_self (id : NodeId) (cs : List NodeId) : exchange id [id] cs = cs := by
  rw [exchange]
  induction cs with
  | nil => rfl
  | cons c cs ih =>
    rw [List.flatMap_cons, ih]
    split_ifs with h
    · rw [h]; rfl
    · rfl

/-- Nothing in the place of a member takes it out. -/
theorem exchange_nil (id : NodeId) (cs : List NodeId) :
    exchange id [] cs = cs.filter (· ∉ [id]) := by
  rw [exchange]
  induction cs with
  | nil => rfl
  | cons c cs ih =>
    rw [List.flatMap_cons, ih, List.filter_cons]
    by_cases h : c = id <;> simp [h]

/-- The two parts of a list around a member that occurs once. -/
theorem split_of_nodup (hn : cs.Nodup) (h : id ∈ cs) :
    ∃ pre post, cs = pre ++ id :: post ∧ id ∉ pre ∧ id ∉ post := by
  obtain ⟨pre, post, rfl⟩ := List.append_of_mem h
  rw [List.nodup_append'] at hn
  exact ⟨pre, post, rfl, fun hm => hn.2.2 hm (List.mem_cons_self ..), (List.nodup_cons.1 hn.2.1).1⟩

/-- What follows a member is the first one behind it. -/
theorem follower?_split (h : id ∉ pre) : follower? id (pre ++ id :: post) = post.head? := by
  have hd : (pre ++ id :: post).dropWhile (· ≠ id) = id :: post := by
    rw [List.dropWhile_append_of_pos fun c hc => decide_eq_true (by rintro rfl; exact h hc)]
    simp
  rw [follower?, hd, List.getElem?_cons_succ, List.head?_eq_getElem?]

/-- Before the first member of the second part is between the parts. -/
theorem splice_head? (hd : ∀ c ∈ pre, c ∉ post) :
    splice post.head? new (pre ++ post) = pre ++ new ++ post := by
  cases post with
  | nil => rw [List.head?_nil, splice, List.append_nil, List.append_nil]
  | cons q post =>
    have hq : ∀ c ∈ pre, decide (c ≠ q) = true := fun c hc =>
      decide_eq_true fun he => hd c hc (he ▸ List.mem_cons_self ..)
    rw [List.head?_cons, splice, List.takeWhile_append_of_pos hq, List.dropWhile_append_of_pos hq]
    simp

/-- Before a member is as far from the end as what begins with it is long. -/
theorem splice_some (q : NodeId) (new cs : List NodeId) :
    splice (some q) new cs = cs.take (cs.length - (cs.dropWhile (· ≠ q)).length) ++ new ++
      cs.drop (cs.length - (cs.dropWhile (· ≠ q)).length) := by
  have key : ∀ as bs : List NodeId, as ++ new ++ bs =
      (as ++ bs).take ((as ++ bs).length - bs.length) ++ new ++
        (as ++ bs).drop ((as ++ bs).length - bs.length) := by
    intro as bs
    have hl : (as ++ bs).length - bs.length = as.length := by
      rw [List.length_append, Nat.add_sub_cancel]
    rw [hl, List.take_left, List.drop_left]
  have h := key (cs.takeWhile (· ≠ q)) (cs.dropWhile (· ≠ q))
  rwa [List.takeWhile_append_dropWhile] at h

/-- **Taking a member away and putting in others before what followed it is
putting them in its place.** -/
theorem splice_follower? (hn : cs.Nodup) (h : id ∈ cs) :
    splice (follower? id cs) new (exchange id [] cs) = exchange id new cs := by
  obtain ⟨pre, post, rfl, hpre, hpost⟩ := split_of_nodup hn h
  rw [follower?_split hpre, exchange_split hpre hpost, exchange_split hpre hpost, List.append_nil]
  refine splice_head? fun c hc hm => ?_
  rw [List.nodup_append'] at hn
  exact hn.2.2 hc (List.mem_cons_of_mem _ hm)

/-- The sibling that follows a node, if it has one. -/
def following (t : Tree) (id : NodeId) : Option NodeId :=
  (t.parentOf id).bind fun p => follower? id (t.childrenOf p)

/-- What follows a member is one too. -/
theorem mem_of_follower? {id x : NodeId} {cs : List NodeId} (h : follower? id cs = some x) :
    x ∈ cs := by
  have hx := List.mem_of_getElem? h
  exact (List.dropWhile_suffix _).subset hx

/-- What follows a node is a node of the tree. -/
theorem WellFormed.has_following {t : Tree} {id x : NodeId} (hw : t.WellFormed)
    (h : t.following id = some x) : t.Has x := by
  obtain ⟨p, _, hx⟩ := Option.bind_eq_some_iff.1 h
  exact hw.has_child (mem_of_follower? hx)

/-- The next sibling is what follows the node among the children of its parent. -/
theorem WellFormed.nextSibling_ok {t : Tree} (h : t.WellFormed) (hid : t.Has id) :
    t.nextSibling id = .ok ((t.parentOf id).bind fun p => follower? id (t.childrenOf p)) := by
  rw [nextSibling, parent_ok hid, ok_bind]
  cases hp : t.parentOf id with
  | none => rfl
  | some p =>
    dsimp only
    rw [children_ok (h.has_parent hp)]
    rfl

end Tree
end PageBinding
