/-
# Binding replaces a node by what it means

Binding data into a node of a well-formed tree succeeds, whatever the data, and
replaces the node (`bindWithin_binds`).  If no attribute name occurs twice in an
element, what stands in its place then is what the document at the node means.

The two ways of going on, to the copies of a repeated node and to the children of
another one, are followed separately, for any `bind` that does this to documents
of less weight (`Binds`): `bindCopies_copied` and `foldlM_bind_midway`.  Copies
stay detached until all of them are bound, so binding one of them changes nothing
else.

The number of nodes and attributes of a tree bounds the weight of every document
in it (`weight_le`), so the recursion never reaches its depth.
-/

import PageBinding.Proofs.Template.Meaning
import PageBinding.Proofs.Tree.Replacing
import Mathlib.Algebra.Order.BigOperators.Group.List
import Mathlib.Algebra.Order.Ring.Nat

namespace PageBinding

open Html (Node Element Document)
open Json (Value)
open Numbered (idsAll)

namespace Template

open Html.Document (weight weightAll Every)
open PageBinding.Tree (Replaced Beside Midway Inserted Everywhere)

/-- What can stand in the place of a node: as many new nodes as a list has items, if the
node is repeated over it, and otherwise the node or nothing. -/
def Stands (m : Markers) (context : Value) (t : Tree) (id : NodeId) (n : Node)
    (outs : List NodeId) : Prop :=
  match repetition? m n with
  | some path =>
    match context.resolve? path with
    | some (.array items) => outs.length = items.length ∧ ∀ x ∈ outs, ¬ t.Has x
    | _ => outs = []
  | none => outs = if (checkContent m context (fillContent context n)).2 then [id] else []

/-- **What binding data into a node leaves:** the node is replaced, by what its
document means if no name of an attribute occurs twice. -/
structure Bound (m : Markers) (P : Node → Prop) (context : Value) (t u : Tree) (a : Numbered)
    (outs : List Numbered) : Prop extends Replaced t u a outs where
  meaning : a.document.Every Distinct → (t.parentOf a.top ≠ none ∨ repetition? m a.content = none) →
    outs.map Numbered.document = meaning m context a.document
  stands : (t.parentOf a.top ≠ none ∨ repetition? m a.content = none) →
    Stands m context t a.top a.content (outs.map Numbered.top)
  everywhere : Lasting m P → t.Everywhere P → u.Everywhere P

/-- Data can be bound into what is held in a well-formed tree, up to a weight. -/
def Binds (m : Markers) (P : Node → Prop) (limit : Nat)
    (bind : Pass → NodeId → Value → Except Fault Pass) : Prop :=
  ∀ (p : Pass) (a : Numbered) (context : Value), p.tree.WellFormed → p.tree.Holds a →
    weight a.document ≤ limit → ∃ q outs, bind p a.top context = .ok q ∧
      Bound m P context p.tree q.tree a outs

/-- Copies of a node, each bound to an item. -/
structure Copied (t u : Tree) (outs : List Numbered) : Prop where
  wellFormed : u.WellFormed
  growsTo : t.GrowsTo u
  holds : ∀ b ∈ outs, u.Holds b
  detached : ∀ b ∈ outs, u.parentOf b.top = none
  nodup : (outs.map Numbered.top).Nodup
  fresh : ∀ x ∈ idsAll outs, ¬ t.Has x

variable {m : Markers} {P : Node → Prop} {limit : Nat} {context : Value}
  {bind : Pass → NodeId → Value → Except Fault Pass} {a : Numbered} {t u v : Tree}

/-- A node that is not repeated stays, or goes if its condition fails. -/
theorem stands_single {n : Node} {id : NodeId} {outs : List NodeId} (h : repetition? m n = none) :
    Stands m context t id n outs ↔
      outs = if (checkContent m context (fillContent context n)).2 then [id] else [] := by
  rw [Stands, h]

/-- A tree that has grown by a document of it. -/
theorem everywhere_of_grown (hg : Tree.Grown t u [a.document]) (h : t.Everywhere P)
    (ha : t.Holds a) : u.Everywhere P :=
  hg.everywhere h ⟨h.every ha, trivial⟩

/-- A property of all contents that can be reached is kept as long as no content changes. -/
theorem contents_stay (h : ∀ x, u.contentOf x = t.contentOf x) (ht : t.Everywhere P) :
    u.Everywhere P :=
  fun x n hn => ht x n (h x ▸ hn)

/-! ## Copies -/

/-- A new detached node that is replaced leaves the old ones as they are. -/
theorem growsTo_of_replaced {c : Numbered} {outs : List Numbered} (hg : t.GrowsTo u)
    (hw : t.WellFormed) (hf : ∀ x ∈ c.ids, ¬ t.Has x) (hr : Replaced u v c outs) :
    t.GrowsTo v := by
  have hout : ∀ {x}, t.Has x → x ∉ c.ids := fun hx hm => hf _ hm hx
  refine .of_views (Nat.le_trans hg.size_le hr.size_le) (fun x hx => ?_) (fun x hx => ?_)
    fun x hx => ?_
  · rw [hr.content x (hg.has hx) (hout hx), hg.contentOf hx]
  · rw [hr.parent x (hg.has hx) (hout hx), hg.parentOf hx]
  · rw [hr.children x (hg.has hx) (hout hx), hg.childrenOf hx, Tree.exchange_of_notMem]
    exact fun hc => hf _ c.top_mem_ids (hw.has_child hc)

/-- One copy bound before others. -/
theorem Copied.cons {b : Numbered} {outs : List Numbered} (hg : t.GrowsTo v) (hw : t.WellFormed)
    (hv : v.WellFormed) (hb : v.Holds b) (hd : v.parentOf b.top = none) (hf : ¬ t.Has b.top)
    (h : Copied v u outs) : Copied t u (b :: outs) := by
  refine ⟨h.wellFormed, hg.trans h.growsTo, fun c hc => ?_, fun c hc => ?_, ?_, fun x hx ht => ?_⟩
  · rcases List.mem_cons.1 hc with rfl | hc
    · exact h.growsTo.holds hb
    · exact h.holds c hc
  · rcases List.mem_cons.1 hc with rfl | hc
    · exact (h.growsTo.parentOf hb.has_top).trans hd
    · exact h.detached c hc
  · refine List.nodup_cons.2 ⟨fun hm => ?_, h.nodup⟩
    obtain ⟨c, hc, he⟩ := List.mem_map.1 hm
    exact h.fresh _ (Numbered.mem_idsAll.2 ⟨c, hc, c.top_mem_ids⟩) (he ▸ hb.has_top)
  · rw [idsAll, List.mem_append] at hx
    rcases hx with hx | hx
    · exact hg.not_within hw hf ht ((hb.mem_ids hv).1 hx)
    · exact h.fresh x hx (hg.has ht)

/-- **Copies of a node are bound one after the other,** each to its item. -/
theorem bindCopies_copied (hbind : Binds m P limit bind) (hl : weight a.document ≤ limit) :
    ∀ (items : List Value) (p : Pass), p.tree.WellFormed → p.tree.Holds a →
      ∃ q outs, bindCopies bind a.top p items = .ok (q, outs.map Numbered.top) ∧
        Copied p.tree q.tree outs ∧ outs.length = items.length ∧
        (a.document.Every Distinct → repetition? m a.content = none →
          (∀ context, (checkContent m context (fillContent context a.content)).2 = true) →
            outs.map Numbered.document = items.flatMap fun item => meaning m item a.document) ∧
        (Lasting m P → p.tree.Everywhere P → q.tree.Everywhere P) := by
  intro items
  induction items with
  | nil =>
    intro p hw _
    exact ⟨p, [], rfl, ⟨hw, .refl _, nofun, nofun, List.nodup_nil, nofun⟩, rfl, fun _ _ _ => rfl,
      fun _ h => h⟩
  | cons item items ih =>
    rintro ⟨t, notices⟩ hw ha
    obtain ⟨v, hv, hg⟩ := hw.clone_grown ha
    -- The copy holds the document of the node, and is new.
    let c := Numbered.numberFrom t.size a.document
    have hc : v.Holds c := hg.holds.1
    have hdoc : c.document = a.document := Numbered.document_numberFrom ..
    have htop : c.top = ⟨t.size⟩ := Numbered.top_numberFrom ..
    have hcon : c.content = a.content := by
      have h := hdoc
      rw [Numbered.document_eq, Numbered.document_eq a] at h
      exact (Document.node.inj h).1
    have hdet : v.parentOf c.top = none := hg.detached c (List.mem_cons_self ..)
    have hnew : ∀ x ∈ c.ids, ¬ t.Has x := fun x hx =>
      Nat.not_lt_of_le (Numbered.mem_ids_numberFrom.1 hx).1
    obtain ⟨q, first, hq, hb⟩ := hbind ⟨v, notices⟩ c item hg.wellFormed hc (hdoc.symm ▸ hl)
    have hgq : t.GrowsTo q.tree := growsTo_of_replaced hg.growsTo hw hnew hb.toReplaced
    have hcq : q.tree.Has c.top := Nat.lt_of_lt_of_le hc.has_top hb.size_le
    obtain ⟨b, hbt, hbh⟩ := hb.wellFormed.exists_holds hcq
    obtain ⟨r, rest, hr, hcopied, hlen, hmean, hevery⟩ := ih q hb.wellFormed (hgq.holds ha)
    refine ⟨r, b :: rest, ?_, .cons hgq hw hb.wellFormed hbh (hbt ▸ hb.detached hdet)
      (hbt ▸ hnew _ c.top_mem_ids) hcopied, congrArg Nat.succ hlen, fun hd hrep hcond => ?_,
      fun hP ht => ?_⟩
    · rw [bindCopies, Pass.clone, hv, ok_bind]
      dsimp only
      rw [pure_eq_ok, ok_bind]
      dsimp only
      rw [htop] at hq hbt
      rw [hq, ok_bind, hr, ok_bind, List.map_cons, hbt]
      rfl
    · have hs := (stands_single (hcon.symm ▸ hrep)).1 (hb.stands (.inr (hcon.symm ▸ hrep)))
      rw [hcon, hcond item, if_pos rfl] at hs
      obtain ⟨b', rfl, hb'⟩ := List.map_eq_singleton_iff.1 hs
      obtain rfl := (hb.holds b' (List.mem_singleton_self _)).unique hbh (hb'.trans hbt.symm)
      have h₁ := hb.meaning (hdoc.symm ▸ hd) (.inr (hcon.symm ▸ hrep))
      rw [hdoc] at h₁
      rw [List.map_cons, hmean hd hrep hcond, List.flatMap_cons, ← h₁]
      rfl
    · exact hevery hP (hb.everywhere hP (everywhere_of_grown hg ht ha))

/-! ## Those inside a node -/

/-- **Those inside a node are bound one after the other.** -/
theorem foldlM_bind_midway (context : Value) (hbind : Binds m P limit bind) {n : Node} :
    ∀ (todo done : List Numbered) (p : Pass), Midway t p.tree a n done todo →
      (∀ b ∈ todo, weight b.document ≤ limit) →
        ∃ q outs, (todo.map Numbered.top).foldlM (fun p child => bind p child context) p = .ok q ∧
          Midway t q.tree a n (done ++ outs) [] ∧
          ((∀ b ∈ todo, b.document.Every Distinct) →
            outs.map Numbered.document =
              (todo.map Numbered.document).flatMap (meaning m context)) ∧
          (Lasting m P → p.tree.Everywhere P → q.tree.Everywhere P) := by
  intro todo
  induction todo with
  | nil =>
    intro done p h _
    exact ⟨p, [], rfl, (List.append_nil done).symm ▸ h, fun _ => rfl, fun _ h => h⟩
  | cons b todo ih =>
    intro done p h hl
    have hmem : b ∈ done ++ b :: todo := List.mem_append_right _ (List.mem_cons_self ..)
    have hp : p.tree.parentOf b.top = some a.top :=
      (h.wellFormed.linked _ _).1 (h.holds.mem_children hmem)
    obtain ⟨q, first, hq, hb⟩ := hbind p b context h.wellFormed (h.holds.of_mem hmem)
      (hl b (List.mem_cons_self ..))
    obtain ⟨r, rest, hr, hmid, hmean, hevery⟩ := ih (done ++ first) q (h.step hb.toReplaced)
      fun c hc => hl c (List.mem_cons_of_mem _ hc)
    refine ⟨r, first ++ rest, ?_, ?_, fun hd => ?_, fun hP ht => hevery hP (hb.everywhere hP ht)⟩
    · rw [List.map_cons, List.foldlM_cons, hq, ok_bind, hr]
    · rw [← List.append_assoc]
      exact hmid
    · rw [List.map_append, List.map_cons, List.flatMap_cons,
        hb.meaning (hd b (List.mem_cons_self ..)) (.inl (hp ▸ Option.some_ne_none _)),
        hmean fun c hc => hd c (List.mem_cons_of_mem _ hc)]

/-! ## Repetition -/

/-- **The model of the copies:** a new detached node that holds what is repeated,
once. -/
theorem modelOf_grown {p : Pass} {path : String} (hw : p.tree.WellFormed) (ha : p.tree.Holds a)
    (hrep : repetition? m a.content = some path) :
    ∃ q c, modelOf m p a.top = .ok (q, c.top) ∧ q.tree.WellFormed ∧ p.tree.GrowsTo q.tree ∧
      q.tree.Holds c ∧
      c.document = .node (singleContent m a.content) (a.inside.map Numbered.document) ∧
      (∀ x ∈ c.ids, ¬ p.tree.Has x) ∧
      (Lasting m P → p.tree.Everywhere P → q.tree.Everywhere P) := by
  obtain ⟨t, notices⟩ := p
  obtain ⟨v, hv, hg⟩ := hw.clone_grown ha
  let c := Numbered.numberFrom t.size a.document
  have hc : v.Holds c := hg.holds.1
  have htop : c.top = ⟨t.size⟩ := Numbered.top_numberFrom ..
  have hdoc : c.document = a.document := Numbered.document_numberFrom ..
  have hnew : ∀ x ∈ c.ids, ¬ t.Has x := fun x hx =>
    Nat.not_lt_of_le (Numbered.mem_ids_numberFrom.1 hx).1
  rw [Numbered.document_eq, Numbered.document_eq a, Document.node.injEq] at hdoc
  obtain ⟨e, he⟩ : ∃ e, a.content = .element e := by
    cases hn : a.content with
    | element e => exact ⟨e, rfl⟩
    | _ => rw [hn] at hrep; cases hrep
  obtain ⟨u, hu, hb, hn⟩ := hc.setContent_beside hg.wellFormed (.element (single m e))
  have hgu : t.GrowsTo u := hb.growsTo hg.growsTo hnew
  have hmid := hb.midway hc hg.wellFormed hn
  have hcon : v.element? ⟨t.size⟩ = .ok (some e) := by
    rw [← htop, Tree.element?_ok hc.content, hdoc.1, he]
    rfl
  rw [htop] at hu
  have hq : ∃ notices', modelOf m ⟨t, notices⟩ a.top = .ok (⟨u, notices'⟩, ⟨t.size⟩) := by
    rw [modelOf, Pass.clone, hv, ok_bind]
    dsimp only
    rw [pure_eq_ok, ok_bind]
    dsimp only
    rw [hcon, ok_bind]
    dsimp only
    rw [Pass.change, ← single, hu]
    cases (e.remove m.each).get? m.condition
    · exact ⟨_, rfl⟩
    · exact ⟨_, rfl⟩
  obtain ⟨notices', hq⟩ := hq
  refine ⟨⟨u, notices'⟩, .node c.top (.element (single m e)) c.inside, ?_, hb.wellFormed, hgu,
    hmid.holds, ?_, fun x hx => ?_, fun hP ht => ?_⟩
  · rw [hq, ← htop]
    rfl
  · rw [Numbered.document, Numbered.documents_eq_map, hdoc.2, he]
    rfl
  · refine hnew x ?_
    rw [Numbered.ids_eq]
    exact hx
  · intro x n hx
    rw [hn] at hx
    split_ifs at hx
    · obtain rfl := Option.some.inj hx
      have := hP.single _ (ht _ _ ha.content)
      rwa [he] at this
    · exact everywhere_of_grown hg ht ha x n hx

/-- What is held does not change when a node that is no child in it is detached. -/
theorem holds_of_detached {c : Numbered} {id : NodeId} (hc : t.Holds c)
    (hn : ∀ x, u.contentOf x = t.contentOf x)
    (hch : ∀ x, u.childrenOf x = t.childrenWithout [id] x) (hid : id ∉ c.ids) : u.Holds c := by
  refine hc.frame (fun x _ => hn x) fun x hx => ?_
  rw [hch, Tree.childrenWithout, List.filter_eq_self]
  intro y hy
  have hne : y ≠ id := by
    rintro rfl
    exact hid (hc.child_mem hx hy)
  simpa using hne

/-- **A repeated node is replaced by its copies.** -/
theorem repeatOver_replaced {p : Pass} {path : String} (hbind : Binds m P limit bind)
    (hw : p.tree.WellFormed) (ha : p.tree.Holds a) (hrep : repetition? m a.content = some path)
    (hl : weight a.document ≤ limit + 1) (items : List Value) :
    ∃ q outs, repeatOver m bind p a.top items = .ok q ∧ Replaced p.tree q.tree a outs ∧
      (p.tree.parentOf a.top ≠ none → outs.length = items.length ∧
        ∀ b ∈ outs, ¬ p.tree.Has b.top) ∧
      (a.document.Every Distinct → p.tree.parentOf a.top ≠ none →
        outs.map Numbered.document = items.flatMap fun item =>
          meaning m item (.node (singleContent m a.content) (a.inside.map Numbered.document))) ∧
      (Lasting m P → p.tree.Everywhere P → q.tree.Everywhere P) := by
  obtain ⟨q, c, hq, hqw, hg, hc, hdoc, hnew, hevery⟩ := modelOf_grown (P := P) hw ha hrep
  obtain ⟨v, notices⟩ := q
  obtain ⟨w, hd, hr, hsize, hcon, hch⟩ := (hg.beside hqw a).detach_replaced ha
  have hpar : v.parent a.top = .ok (p.tree.parentOf a.top) := by
    rw [Tree.parent_ok (hg.has ha.has_top), hg.parentOf ha.has_top]
  have hnext := hqw.nextSibling_ok (hg.has ha.has_top)
  rw [hg.parentOf ha.has_top] at hnext
  have hcw : w.Holds c := holds_of_detached hc hcon hch fun hm => hnew _ hm ha.has_top
  have hew : Lasting m P → p.tree.Everywhere P → w.Everywhere P := fun hP ht =>
    contents_stay hcon (hevery hP ht)
  rw [repeatOver, hq, ok_bind]
  dsimp only
  rw [hpar, ok_bind, hnext, ok_bind, Pass.change]
  dsimp only
  rw [hd, ok_bind, pure_eq_ok, ok_bind]
  cases hp : p.tree.parentOf a.top with
  | none => exact ⟨_, [], rfl, hr, fun h => absurd rfl h, fun _ h => absurd rfl h, hew⟩
  | some parent =>
    have hcl : weight c.document ≤ limit := by
      have : weight (.node (singleContent m a.content) (a.inside.map Numbered.document)) <
          weight (.node a.content (a.inside.map Numbered.document)) := weight_singleContent_lt hrep
      rw [Numbered.document_eq] at hl
      rw [hdoc]
      omega
    obtain ⟨r, outs, hr', hcopied, hlen, hmean, hevery'⟩ := bindCopies_copied hbind hcl items
      ⟨w, notices⟩ hr.wellFormed hcw
    have hpt : p.tree.Has parent := hw.has_parent hp
    have hpw : w.Has parent := Nat.lt_of_lt_of_le hpt hr.size_le
    obtain ⟨s, hs, hi, hsc⟩ := hcopied.growsTo.inserted hr.wellFormed hcopied.wellFormed
      hcopied.holds hcopied.detached hcopied.nodup hcopied.fresh hpw
      (Tree.follower? a.top (p.tree.childrenOf parent))
    obtain ⟨x, notices'⟩ := r
    refine ⟨⟨s, notices'⟩, outs, ?_, hr.insert hw hp hi, fun _ => ⟨hlen, fun b hb hpb => ?_⟩,
      fun hdist _ => ?_, fun hP ht => contents_stay hsc (hevery' hP (hew hP ht))⟩
    · dsimp only at hr' hs ⊢
      rw [hr', ok_bind, Option.bind_some, hg.childrenOf hpt]
      dsimp only
      rw [Pass.change, hs]
      rfl
    · exact hcopied.fresh _ (Numbered.mem_idsAll.2 ⟨b, hb, b.top_mem_ids⟩)
        (Nat.lt_of_lt_of_le hpb hr.size_le)
    · rw [Numbered.document_eq] at hdist
      obtain ⟨hn, hins⟩ := Document.every_node.1 hdist
      have hcn : c.content = singleContent m a.content := by
        rw [Numbered.document_eq c] at hdoc
        exact (Document.node.inj hdoc).1
      rw [← hdoc]
      refine hmean ?_ ?_ fun context => ?_
      · rw [hdoc]
        exact Document.every_node.2 ⟨(lasting_distinct m).single _ hn, hins⟩
      · rw [hcn]
        exact repetition?_singleContent hn
      · rw [hcn]
        exact checkContent_singleContent hn context

/-! ## Every node -/

/-- A node that is detached, with what is to be reported. -/
theorem detach_bound {p : Pass} (hv : Beside p.tree v a) (ha : p.tree.Holds a)
    (notices : Array Notice) : ∃ u, Pass.change ⟨v, notices⟩ (·.detach a.top) = .ok ⟨u, notices⟩ ∧
      Replaced p.tree u a [] ∧ (v.Everywhere P → u.Everywhere P) := by
  obtain ⟨u, hu, hr, -, hcon, -⟩ := hv.detach_replaced ha
  exact ⟨u, by rw [Pass.change, hu]; rfl, hr, contents_stay hcon⟩

/-- A repeated node is replaced by what its copies mean, or by nothing. -/
theorem bindWithin_repeated {depth : Nat} {p : Pass} {path : String}
    (ih : Binds m P depth (bindWithin m depth)) (hw : p.tree.WellFormed) (ha : p.tree.Holds a)
    (hl : weight a.document ≤ depth + 1) (hrep : repetition? m a.content = some path) :
    ∃ q outs, bindWithin m (depth + 1) p a.top context = .ok q ∧
      Bound m P context p.tree q.tree a outs := by
  rw [bindWithin, Tree.content_ok ha.content, ok_bind, hrep]
  dsimp only
  split
  · rename_i items hi
    obtain ⟨q, outs, hq, hr, hnew, hmean, hevery⟩ := repeatOver_replaced ih hw ha hrep hl items
    have hattached : (p.tree.parentOf a.top ≠ none ∨ repetition? m a.content = none) →
        p.tree.parentOf a.top ≠ none := fun hor => hor.resolve_right (by rw [hrep]; exact nofun)
    refine ⟨q, outs, hq, hr, fun hd hor => ?_, fun hor => ?_, hevery⟩
    · rw [hmean hd (hattached hor), Numbered.document_eq, meaning_repeated_array hrep hi]
    · obtain ⟨hlen, hfresh⟩ := hnew (hattached hor)
      rw [Stands, hrep]
      dsimp only
      rw [hi]
      exact ⟨by rw [List.length_map, hlen], List.forall_mem_map.2 hfresh⟩
  · rename_i found hfound
    obtain ⟨u, hu, hr, hevery⟩ := detach_bound (P := P) (hw.beside a) ha
      (p.report (.nothingToRepeat m.each path (noListAt path (context.resolve? path)))).notices
    refine ⟨_, [], hu, hr, fun _ _ => ?_, fun _ => ?_, fun _ => hevery⟩
    · rw [Numbered.document_eq, meaning_repeated_other hrep hfound]
      rfl
    · rw [Stands, hrep]
      dsimp only
      split
      · rename_i items hi
        exact absurd hi (hfound items)
      · rfl

/-- Another node is filled before anything else happens to it. -/
theorem bindWithin_filled (context : Value) (depth : Nat) {p : Pass} (hw : p.tree.WellFormed)
    (ha : p.tree.Holds a) (hrep : repetition? m a.content = none) :
    let checked := checkContent m context (fillContent context a.content)
    ∃ v, Beside p.tree v a ∧
      (∀ x, v.contentOf x = if x = a.top then some checked.1 else p.tree.contentOf x) ∧
      (Lasting m P → p.tree.Everywhere P → v.Everywhere P) ∧
      bindWithin m (depth + 1) p a.top context =
        if checked.2 = true then (do
          (← v.children a.top).foldlM (fun p child => bindWithin m depth p child context)
            ⟨v, p.notices⟩)
        else (⟨v, p.notices⟩ : Pass).change (·.detach a.top) := by
  intro checked
  obtain ⟨v, hv, hb, hn⟩ := ha.setContent_beside hw checked.1
  refine ⟨v, hb, hn, fun hP ht x n hx => ?_, ?_⟩
  · rw [hn] at hx
    split_ifs at hx
    · exact Option.some.inj hx ▸ hP.check _ _ (hP.fill _ _ (ht _ _ ha.content))
    · exact ht x n hx
  · have hc : p.change (·.setContent a.top checked.1) = .ok ⟨v, p.notices⟩ := by
      rw [Pass.change, hv]
      rfl
    rw [bindWithin, Tree.content_ok ha.content, ok_bind, hrep]
    dsimp only
    rw [hc, ok_bind]

/-- A node whose condition holds keeps its place, with its children bound. -/
theorem bindWithin_kept {depth : Nat} {p : Pass} (ih : Binds m P depth (bindWithin m depth))
    (hw : p.tree.WellFormed) (ha : p.tree.Holds a) (hl : weight a.document ≤ depth + 1)
    (hrep : repetition? m a.content = none)
    (hh : (checkContent m context (fillContent context a.content)).2 = true) :
    ∃ q outs, bindWithin m (depth + 1) p a.top context = .ok q ∧
      Midway p.tree q.tree a (checkContent m context (fillContent context a.content)).1 outs [] ∧
      ((∀ b ∈ a.inside, b.document.Every Distinct) → outs.map Numbered.document =
        (a.inside.map Numbered.document).flatMap (meaning m context)) ∧
      (Lasting m P → p.tree.Everywhere P → q.tree.Everywhere P) := by
  obtain ⟨v, hb, hn, hev, heq⟩ := bindWithin_filled (P := P) context depth hw ha hrep
  have hch : v.children a.top = .ok (a.inside.map Numbered.top) := by
    rw [Tree.children_ok (Nat.lt_of_lt_of_le ha.has_top hb.size_le),
      hb.children _ ha.has_top, ha.children]
  have hlb : ∀ b ∈ a.inside, weight b.document ≤ depth := fun b hb => by
    have := Document.weight_le_of_mem (List.mem_map_of_mem (f := Numbered.document) hb)
    rw [Numbered.document_eq, weight] at hl
    omega
  obtain ⟨q, outs, hq, hmid, hmean, hevery⟩ := foldlM_bind_midway context ih
    a.inside [] ⟨v, p.notices⟩ (hb.midway ha hw hn) hlb
  refine ⟨q, outs, ?_, hmid, hmean, fun hP ht => hevery hP (hev hP ht)⟩
  rw [heq, if_pos hh, hch, ok_bind, hq]

/-- Another node is filled and keeps its place, with its children bound, or is left out. -/
theorem bindWithin_single {depth : Nat} {p : Pass} (ih : Binds m P depth (bindWithin m depth))
    (hw : p.tree.WellFormed) (ha : p.tree.Holds a) (hl : weight a.document ≤ depth + 1)
    (hrep : repetition? m a.content = none) :
    ∃ q outs, bindWithin m (depth + 1) p a.top context = .ok q ∧
      Bound m P context p.tree q.tree a outs := by
  cases hh : (checkContent m context (fillContent context a.content)).2 with
  | true =>
    obtain ⟨q, outs, hq, hmid, hmean, hevery⟩ := bindWithin_kept ih hw ha hl hrep hh
    refine ⟨q, _, hq, hmid.replaced, fun hd _ => ?_,
      fun _ => (stands_single hrep).2 (by rw [if_pos hh]; rfl), hevery⟩
    rw [Numbered.document_eq, meaning_single hrep, if_pos hh, List.map_singleton,
      Numbered.document, Numbered.documents_eq_map, hmean]
    intro b hb
    rw [Numbered.document_eq] at hd
    exact (Document.every_node.1 hd).2 _ (List.mem_map_of_mem hb)
  | false =>
    obtain ⟨v, hb, -, hev, heq⟩ := bindWithin_filled (P := P) context depth hw ha hrep
    obtain ⟨u, hu, hr, hevery⟩ := detach_bound (P := P) hb ha p.notices
    refine ⟨⟨u, p.notices⟩, [], ?_, hr, fun _ _ => ?_,
      fun _ => (stands_single hrep).2 (by rw [hh]; rfl), fun hP ht => hevery (hev hP ht)⟩
    · rw [heq, hh, if_neg Bool.false_ne_true, hu]
    · rw [Numbered.document_eq, meaning_single hrep, hh]
      rfl

/-- **Binding data into a node replaces it by what it means,** in a recursion as
deep as the node is heavy. -/
theorem bindWithin_binds (m : Markers) (P : Node → Prop) :
    ∀ depth, Binds m P depth (bindWithin m depth) := by
  intro depth
  induction depth with
  | zero =>
    intro p a _ _ _ hl
    exact absurd (Document.weight_pos a.document) (Nat.not_lt_of_le hl)
  | succ depth ih =>
    intro p a context hw ha hl
    cases hrep : repetition? m a.content with
    | some path => exact bindWithin_repeated ih hw ha hl hrep
    | none => exact bindWithin_single ih hw ha hl hrep

/-! ## Enough depth -/

/-- The nodes and attributes that a content counts for. -/
def contentWeight (n : Option Node) : Nat := 1 + (n.map Node.attributeCount).getD 0

/-- The weight of a document is the sum of the weights of its nodes. -/
theorem weight_eq_sum (ha : t.Holds a) :
    weight a.document = (a.ids.map fun x => contentWeight (t.contentOf x)).sum := by
  induction a using Numbered.induction_up with
  | step id n bs ih =>
    have key : ∀ cs : List Numbered, (∀ c ∈ cs, weight c.document =
        (c.ids.map fun x => contentWeight (t.contentOf x)).sum) →
          weightAll (cs.map Numbered.document) =
            ((idsAll cs).map fun x => contentWeight (t.contentOf x)).sum := by
      intro cs
      induction cs with
      | nil => exact fun _ => rfl
      | cons c cs ihc =>
        intro h
        rw [List.map_cons, weightAll, h c (List.mem_cons_self ..),
          ihc fun d hd => h d (List.mem_cons_of_mem _ hd), idsAll, List.map_append, List.sum_append]
    have htop : t.contentOf id = some n := ha.content
    rw [Numbered.document_eq, weight, Numbered.ids, List.map_cons, List.sum_cons,
      ← key bs fun b hb => ih b hb (ha.of_mem hb), htop]
    simp only [contentWeight, Numbered.inside, Numbered.content, Option.map_some, Option.getD_some]
    omega

/-- The weight of a tree is the sum of the weights of its slots, and one. -/
theorem tree_weight_eq_sum (t : Tree) :
    t.weight = 1 + ((List.range t.size).map fun i => contentWeight (t.contentOf ⟨i⟩)).sum := by
  have key : ∀ (l : List LinkedNode) (k : Nat), l.foldl (fun n s =>
      n + 1 + ((s.content.element?.map fun e => e.attributes.length).getD 0)) k =
        k + (l.map fun s => contentWeight (some s.content)).sum := by
    intro l
    induction l with
    | nil => exact fun _ => rfl
    | cons s l ih =>
      intro k
      rw [List.foldl_cons, ih, List.map_cons, List.sum_cons, contentWeight]
      simp only [Node.attributeCount, Option.map_some, Option.getD_some]
      omega
  rw [Tree.weight, ← Array.foldl_toList, key]
  congr 2
  refine List.ext_getElem (by simp [Tree.size]) fun i h₁ h₂ => ?_
  have hi : i < t.nodes.size := by simpa using h₁
  simp [Tree.contentOf, Tree.node?, hi]

/-- **A tree is as heavy as any document in it,** at least. -/
theorem weight_le (hw : t.WellFormed) (ha : t.Holds a) : weight a.document ≤ t.weight := by
  rw [weight_eq_sum ha, tree_weight_eq_sum]
  have hn : (a.ids.map NodeId.index).Nodup :=
    (ha.ids_nodup hw).map fun x y hxy => by cases x; cases y; simpa using hxy
  have hs : a.ids.map NodeId.index ⊆ List.range t.size := by
    intro i hi
    obtain ⟨x, hx, rfl⟩ := List.mem_map.1 hi
    exact List.mem_range.2 (ha.has hx)
  obtain ⟨l, hperm, hsub⟩ := hn.subperm hs
  have he : (a.ids.map fun x => contentWeight (t.contentOf x)).sum =
      (l.map fun i => contentWeight (t.contentOf ⟨i⟩)).sum := by
    rw [(hperm.map _).sum_eq, List.map_map]
    rfl
  rw [he]
  exact Nat.le_trans ((hsub.map _).sum_le_sum fun _ _ => Nat.zero_le _) (Nat.le_add_left ..)

/-- **Data can be bound into every node of a well-formed tree.** -/
theorem bindAt_bound (hw : t.WellFormed) (ha : t.Holds a) (context : Value) (m : Markers)
    (P : Node → Prop) : ∃ u notices outs, bindAt t a.top context m = .ok (u, notices) ∧
      Bound m P context t u a outs := by
  obtain ⟨q, outs, hq, hb⟩ := bindWithin_binds m P (t.weight + 1) ⟨t, #[]⟩ a context hw ha
    (Nat.le_succ_of_le (weight_le hw ha))
  exact ⟨q.tree, q.notices, outs, by rw [bindAt, hq]; rfl, hb⟩

/-- Data bound into a fragment leaves a fragment. -/
theorem bindAt_holds (hw : t.WellFormed) (ha : t.Holds a) (hn : a.content = .fragment)
    (context : Value) (m : Markers) :
    ∃ u notices outs, bindAt t a.top context m = .ok (u, notices) ∧ u.WellFormed ∧
      u.Holds (.node a.top .fragment outs) ∧
      ((∀ b ∈ a.inside, b.document.Every Distinct) → outs.map Numbered.document =
        (a.inside.map Numbered.document).flatMap (meaning m context)) := by
  have hrep : repetition? m a.content = none := by rw [hn]; rfl
  have hh : (checkContent m context (fillContent context a.content)).2 = true := by rw [hn]; rfl
  obtain ⟨q, outs, hq, hmid, hmean, -⟩ := bindWithin_kept
    (bindWithin_binds m (fun _ => True) t.weight) (p := ⟨t, #[]⟩) hw ha
    (Nat.le_succ_of_le (weight_le hw ha)) hrep hh
  have hholds := hmid.holds
  rw [hn, List.append_nil] at hholds
  exact ⟨q.tree, q.notices, outs, by rw [bindAt, hq]; rfl, hmid.wellFormed, hholds, hmean⟩

/-- Data bound into a fragment leaves a fragment of what the documents in it mean. -/
theorem bindAt_fragment (hw : t.WellFormed) (ha : t.Holds a) (hn : a.content = .fragment)
    (hd : a.document.Every Distinct) (context : Value) (m : Markers) :
    ∃ u notices b, bindAt t a.top context m = .ok (u, notices) ∧ u.WellFormed ∧ u.Holds b ∧
      b.top = a.top ∧ b.document =
        .node .fragment ((a.inside.map Numbered.document).flatMap (meaning m context)) := by
  obtain ⟨u, notices, outs, hu, hwu, hh, hmean⟩ := bindAt_holds hw ha hn context m
  rw [Numbered.document_eq] at hd
  refine ⟨u, notices, _, hu, hwu, hh, rfl, ?_⟩
  rw [Numbered.document_eq, Numbered.inside, hmean fun b hb =>
    (Document.every_node.1 hd).2 _ (List.mem_map_of_mem hb)]
  rfl

/-- A well-formed template can be rendered, and the output has a root. -/
theorem render_rooted {template : Tree} (hw : template.WellFormed) (hr : template.Has Tree.root)
    (context : Value) (m : Markers) : ∃ out notices r,
      render template context m = .ok (out, notices) ∧ out.WellFormed ∧ out.Holds r ∧
        r.top = Tree.root := by
  obtain ⟨a, htop, ha⟩ := hw.exists_holds hr
  obtain ⟨out, notices, outs, hout, hb⟩ := bindAt_bound hw ha context m fun _ => True
  have hro : out.Has Tree.root := Nat.lt_of_lt_of_le hr hb.size_le
  obtain ⟨r, hrtop, hrh⟩ := hb.wellFormed.exists_holds hro
  exact ⟨out, notices, r, by rw [render, ← htop, hout], hb.wellFormed, hrh, hrtop⟩

end Template
end PageBinding
