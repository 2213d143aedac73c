/-
# Trees in which some children are renewed

Some children of a node that stand side by side are detached, and others are put in where they
were.  A node stays (`Stays`) if the root leads to it and it is in none of the detached ones.
`Renewed` says what is left, up to other numbers: what stays is as it was, but for the children
of the one node, and nothing else is there but what is new.

| what | why |
| --- | --- |
| renewing twice is renewing once, by what came last | `Renewed.trans` |
| compaction renews children by themselves | `CompactsTo.renewed` |
| what is read afterwards depends on what was there and on what the new nodes read | `Renewed.read_eq` |

So it does not matter how often children have been renewed, nor whether the tree has been
compacted in between.
-/

import PageBinding.Proofs.Tree.Renamed

namespace PageBinding
namespace Tree

open Html (Document)
open Numbered (documents)

variable {t u v : Tree} {f g : NodeId → NodeId} {spot x y p : NodeId}
  {pre old post nodes nodes' : List NodeId} {ds es : List Document} {a b : Numbered}
  {new : Renumbering}

/-! ## Nodes that stay -/

/-- **A node stays** if the root leads to it, and it is in none of the nodes that are detached. -/
def Stays (t : Tree) (old : List NodeId) (x : NodeId) : Prop :=
  t.Within root x ∧ ∀ y ∈ old, ¬ t.Within y x

/-- A node that stays is none of the old ones. -/
theorem Stays.notMem (h : t.Stays old x) : x ∉ old := fun hx => h.2 x hx (.self ..)

/-- The children of a node that stays stay if they are not detached. -/
theorem Stays.child (h : t.Stays old p) (ht : t.Rooted) (hx : x ∈ t.childrenOf p) (hn : x ∉ old) :
    t.Stays old x := by
  refine ⟨ht.within_child h.1 hx, fun y hy hyx => ?_⟩
  rcases hyx with rfl | habove
  · exact hn hy
  · exact h.2 y hy (habove.within_parent ((ht.wellFormed.linked p x).1 hx))

/-- The parent of a node that stays stays. -/
theorem Stays.parent (h : t.Stays old x) (ht : t.Rooted) (hp : t.parentOf x = some p) :
    t.Stays old p :=
  ⟨(ht.within_parent_iff hp).1 h.1, fun y hy hyp => h.2 y hy (hyp.above hp).within⟩

section
variable (ht : t.Rooted) (hspot : t.Within root spot)
  (hsplit : t.childrenOf spot = pre ++ old ++ post)
include hsplit

/-- The old nodes are children. -/
theorem mem_children_of_old (hx : x ∈ old) : x ∈ t.childrenOf spot := by
  rw [hsplit]
  exact List.mem_append_left _ (List.mem_append_right _ hx)

/-- The nodes beside the old ones are children. -/
theorem mem_children_of_beside (hx : x ∈ pre ∨ x ∈ post) : x ∈ t.childrenOf spot := by
  rw [hsplit]
  rcases hx with hx | hx
  · exact List.mem_append_left _ (List.mem_append_left _ hx)
  · exact List.mem_append_right _ hx

include ht

/-- Only children of the one node are detached. -/
theorem notMem_old (hp : p ≠ spot) (hx : x ∈ t.childrenOf p) : x ∉ old := fun hm => by
  have hspot := (ht.wellFormed.linked _ _).1 (mem_children_of_old hsplit hm)
  exact hp (Option.some.inj (((ht.wellFormed.linked _ _).1 hx).symm.trans hspot))

/-- What stands before and behind the detached nodes is none of them. -/
theorem notMem_old_of_beside (hx : x ∈ pre ∨ x ∈ post) : x ∉ old := by
  have hn := ht.wellFormed.nodup spot
  rw [hsplit, List.append_assoc, List.nodup_append', List.nodup_append'] at hn
  obtain ⟨-, ⟨-, -, hpost⟩, hpre⟩ := hn
  intro hm
  rcases hx with hx | hx
  · exact hpre hx (List.mem_append_left _ hm)
  · exact hpost hm hx

/-- What is in a node before or behind the detached ones is no way up to these. -/
theorem not_within_spot (hx : x ∈ pre ∨ x ∈ post) (hy : t.Within x y) : y ≠ spot := by
  rintro rfl
  exact ht.wellFormed.not_within_parent
    ((ht.wellFormed.linked _ _).1 (mem_children_of_beside hsplit hx)) hy

include hspot

/-- The node whose children are detached stays. -/
theorem stays_spot : t.Stays old spot :=
  ⟨hspot, fun _ hy => ht.wellFormed.not_within_parent
    ((ht.wellFormed.linked _ _).1 (mem_children_of_old hsplit hy))⟩

/-- The root stays. -/
theorem stays_root : t.Stays old root :=
  ⟨.self .., fun y hy hyr => (stays_spot ht hspot hsplit).2 y hy (hyr.trans hspot)⟩

/-- What is in a node before or behind the detached ones stays. -/
theorem stays_beside (hx : x ∈ pre ∨ x ∈ post) (hy : t.Within x y) : t.Stays old y := by
  have hxs := mem_children_of_beside hsplit hx
  refine ⟨(ht.within_child hspot hxs).trans hy, fun z hz hzy => ?_⟩
  have hzx := ht.wellFormed.eq_of_within_children (mem_children_of_old hsplit hz) hxs hzy hy
  exact notMem_old_of_beside ht hsplit hx (hzx ▸ hz)

end

/-! ## Children that are renewed -/

/-- **A tree with some children renewed,** under other numbers. -/
structure Renewed (f : NodeId → NodeId) (t u : Tree) (spot : NodeId)
    (pre old post nodes : List NodeId) (ds : List Document) : Prop where
  live : t.Within root spot
  split : t.childrenOf spot = pre ++ old ++ post
  fixed : f root = root
  within : ∀ x, t.Stays old x → u.Within root (f x)
  inj : ∀ x y, t.Stays old x → t.Stays old y → f x = f y → x = y
  content : ∀ x, t.Stays old x → u.contentOf (f x) = t.contentOf x
  parent : ∀ x, t.Stays old x → u.parentOf (f x) = (t.parentOf x).map f
  children : ∀ x, t.Stays old x → x ≠ spot → u.childrenOf (f x) = (t.childrenOf x).map f
  renewed : u.childrenOf (f spot) = pre.map f ++ nodes ++ post.map f
  /-- What stays is in none of the new nodes. -/
  fresh : ∀ x ∈ nodes, ∀ y, t.Stays old y → ¬ u.Within x (f y)
  /-- The root leads to nothing but what stays and what is new. -/
  only : ∀ y, u.Within root y → (∃ x, t.Stays old x ∧ f x = y) ∨ ∃ x ∈ nodes, u.Within x y
  /-- What is read at the new nodes. -/
  read : nodes.mapM u.read = .ok ds

namespace Renewed

/-- What stayed stays if the new nodes are detached. -/
theorem stays (h : Renewed f t u spot pre old post nodes ds) (hx : t.Stays old x) :
    u.Stays nodes (f x) :=
  ⟨h.within x hx, fun y hy => h.fresh y hy x hx⟩

/-- **Renewing twice is renewing once.** -/
theorem trans (h : Renewed f t u spot pre old post nodes ds) (ht : t.Rooted)
    (h' : Renewed g u v (f spot) (pre.map f) nodes (post.map f) nodes' es) :
    Renewed (g ∘ f) t v spot pre old post nodes' es where
  live := h.live
  split := h.split
  fixed := (congrArg g h.fixed).trans h'.fixed
  within x hx := h'.within _ (h.stays hx)
  inj x y hx hy he := h.inj x y hx hy (h'.inj _ _ (h.stays hx) (h.stays hy) he)
  content x hx := (h'.content _ (h.stays hx)).trans (h.content x hx)
  parent x hx := by
    rw [Function.comp_apply, h'.parent _ (h.stays hx), h.parent x hx, Option.map_map]
  children x hx hne := by
    have hspot := stays_spot ht h.live h.split
    rw [Function.comp_apply, h'.children _ (h.stays hx) fun he => hne (h.inj _ _ hx hspot he),
      h.children x hx hne, List.map_map]
  renewed := by
    rw [Function.comp_apply, h'.renewed, List.map_map, List.map_map]
  fresh x hx y hy := h'.fresh x hx _ (h.stays hy)
  only y hy := by
    rcases h'.only y hy with ⟨z, hz, rfl⟩ | hnew
    · rcases h.only z hz.1 with ⟨x, hx, rfl⟩ | ⟨n, hn, hnz⟩
      · exact .inl ⟨x, hx, rfl⟩
      · exact absurd hnz (hz.2 n hn)
    · exact .inr hnew
  read := h'.read

/-! ## What is read afterwards -/

/-- What stays with everything in it is held under the new numbers. -/
theorem holds (h : Renewed f t u spot pre old post nodes ds) (hb : t.Holds b)
    (hstays : ∀ x ∈ b.ids, t.Stays old x ∧ x ≠ spot) : u.Holds (b.renumber f) := by
  induction b using Numbered.induction_up with
  | step id n bs ih =>
    obtain ⟨hid, hne⟩ := hstays _ (Numbered.top_mem_ids _)
    refine holds_iff.2 ⟨?_, ?_, fun c hc => ?_⟩
    · rw [Numbered.top_renumber, h.content _ hid, Numbered.content_renumber]
      exact hb.content
    · rw [Numbered.top_renumber, h.children _ hid hne, hb.children, Numbered.inside_renumber,
        List.map_map, List.map_map]
      exact List.map_congr_left fun c _ => (Numbered.top_renumber (a := c)).symm
    · rw [Numbered.inside_renumber] at hc
      obtain ⟨d, hd, rfl⟩ := List.mem_map.1 hc
      exact ih d hd (hb.of_mem hd) fun x hx => hstays x (Numbered.ids_subset_of_mem hd hx)

/-- The nodes before and behind the new ones read as before. -/
theorem read_beside (h : Renewed f t u spot pre old post nodes ds) (ht : t.Rooted) (hu : u.Rooted)
    (hx : x ∈ pre ∨ x ∈ post) : u.read (f x) = t.read x := by
  obtain ⟨b, rfl, hb⟩ := ht.wellFormed.exists_holds
    (ht.wellFormed.has_child (mem_children_of_beside h.split hx))
  have hheld := h.holds hb fun y hy => by
    have hy := (hb.mem_ids ht.wellFormed).1 hy
    exact ⟨stays_beside ht h.live h.split hx hy, not_within_spot ht h.split hx hy⟩
  rw [← Numbered.top_renumber (f := f) (a := b), hheld.read hu.wellFormed,
    Numbered.document_renumber, hb.read ht.wellFormed]

/-- What the children read among which some are renewed. -/
theorem mapM_read_children (h : Renewed f t u spot pre old post nodes ds) (ht : t.Rooted)
    (hu : u.Rooted) :
    (u.childrenOf (f spot)).mapM u.read =
      (do return (← pre.mapM t.read) ++ ds ++ (← post.mapM t.read)) := by
  rw [h.renewed, List.mapM_append, List.mapM_append, h.read,
    mapM_map_congr fun x hx => h.read_beside ht hu (.inl hx),
    mapM_map_congr fun x hx => h.read_beside ht hu (.inr hx)]
  cases pre.mapM t.read <;> rfl

/-- Documents are the same, one by one, if they are at the new numbers of the same nodes. -/
theorem map_document_eq (as : List Numbered) {bs cs : List Numbered}
    (hb : bs.map Numbered.top = as.map (f ·.top)) (hc : cs.map Numbered.top = as.map (g ·.top))
    (h : ∀ a ∈ as, ∀ b ∈ bs, ∀ c ∈ cs, b.top = f a.top → c.top = g a.top →
      b.document = c.document) : documents bs = documents cs := by
  induction as generalizing bs cs with
  | nil => rw [List.map_eq_nil_iff.1 hb, List.map_eq_nil_iff.1 hc]
  | cons a as ih =>
    obtain ⟨b, bs, rfl, htop, hbs⟩ := List.map_eq_cons_iff.1 hb
    obtain ⟨c, cs, rfl, htop', hcs⟩ := List.map_eq_cons_iff.1 hc
    rw [documents, documents, h a (List.mem_cons_self ..) b (List.mem_cons_self ..) c
      (List.mem_cons_self ..) htop htop', ih hbs hcs fun a ha b hb c hc =>
        h a (List.mem_cons_of_mem _ ha) b (List.mem_cons_of_mem _ hb) c (List.mem_cons_of_mem _ hc)]

section
variable (h : Renewed f t u spot pre old post nodes ds)
  (h' : Renewed g t v spot pre old post nodes' ds) (ht : t.Rooted) (hu : u.Rooted) (hv : v.Rooted)
include h h' ht hu hv

/-- Trees that are renewed with what reads the same have the same document at what stays. -/
theorem document_eq (ha : t.Holds a) (hstays : t.Stays old a.top) :
    ∀ b c, u.Holds b → v.Holds c → b.top = f a.top → c.top = g a.top →
      b.document = c.document := by
  induction a using Numbered.induction_up with
  | step id n as ih =>
    intro b c hb hc htop htop'
    have hcontent : b.content = c.content := by
      refine Option.some.inj (hb.content.symm.trans (Eq.trans ?_ hc.content))
      rw [htop, htop', h.content _ hstays, h'.content _ hstays]
    have hinside : documents b.inside = documents c.inside := by
      by_cases hid : id = spot
      · -- The new nodes stand between nodes that read as before.
        have hread := h.mapM_read_children ht hu
        rw [← h'.mapM_read_children ht hv, ← hid, ← show b.top = f id from htop,
          ← show c.top = g id from htop', hb.children, hc.children,
          mapM_read hu.wellFormed fun d hd => hb.of_mem hd,
          mapM_read hv.wellFormed fun d hd => hc.of_mem hd] at hread
        exact Except.ok.inj hread
      · have hchildren : t.childrenOf id = as.map Numbered.top := ha.children
        refine map_document_eq as (f := f) (g := g) ?_ ?_ fun d hd => ?_
        · rw [← hb.children, htop, h.children _ hstays hid]
          exact (congrArg (List.map f) hchildren).trans (List.map_map ..)
        · rw [← hc.children, htop', h'.children _ hstays hid]
          exact (congrArg (List.map g) hchildren).trans (List.map_map ..)
        · have hdt : d.top ∈ t.childrenOf id := ha.mem_children hd
          exact fun b' hb' c' hc' => ih d hd (ha.of_mem hd)
            (hstays.child ht hdt (notMem_old ht h.split hid hdt)) b' c' (hb.of_mem hb')
            (hc.of_mem hc')
    rw [Numbered.document_eq, Numbered.document_eq c, hcontent, ← Numbered.documents_eq_map,
      ← Numbered.documents_eq_map, hinside]

/-- **Trees that are renewed with what reads the same read the same.** -/
theorem read_eq : u.read root = v.read root := by
  obtain ⟨a, htop, ha⟩ := ht.exists_holds
  obtain ⟨b, hbtop, hb⟩ := hu.exists_holds
  obtain ⟨c, hctop, hc⟩ := hv.exists_holds
  have hstays : t.Stays old a.top := htop ▸ stays_root ht h.live h.split
  have hdoc := document_eq h h' ht hu hv ha hstays b c hb hc
    (by rw [hbtop, htop, h.fixed]) (by rw [hctop, htop, h'.fixed])
  rw [← hbtop, hb.read hu.wellFormed, hdoc, ← hc.read hv.wellFormed, hctop, hbtop]

/-- **Trees that are renewed with what reads the same have the same text.** -/
theorem html_eq : ∃ s, u.html = .ok s ∧ v.html = .ok s := by
  obtain ⟨d, hread⟩ := hu.wellFormed.exists_read hu.has
  refine ⟨d.render, ?_, ?_⟩
  · rw [html, htmlAt, hread]
    rfl
  · rw [html, htmlAt, ← read_eq h h' ht hu hv, hread]
    rfl

end
end Renewed

/-! ## Compaction -/

/-- A node reads the same under its new number. -/
theorem Renamed.read_eq (h : Renamed g t u) (ht : t.Rooted) (hu : u.Rooted)
    (hx : t.Within root x) : u.read (g x) = t.read x := by
  obtain ⟨b, rfl, hb⟩ := ht.wellFormed.exists_holds (ht.within_has hx)
  rw [← Numbered.top_renumber (f := g) (a := b), (h.holds ht hb hx).read hu.wellFormed,
    Numbered.document_renumber, hb.read ht.wellFormed]

/-- **Compaction renews children by themselves.** -/
theorem CompactsTo.renewed (h : CompactsTo t u a new) (hspot : t.Within root spot)
    (hsplit : t.childrenOf spot = pre ++ nodes ++ post) (hread : nodes.mapM t.read = .ok ds) :
    Renewed (placeIn a) t u spot pre nodes post (nodes.map (placeIn a)) ds := by
  have ht := h.rooted
  have hu := h.compacted_rooted
  have hnodes : ∀ x ∈ nodes, t.Within root x := fun x hx =>
    ht.within_child hspot (mem_children_of_old hsplit hx)
  refine ⟨hspot, hsplit, h.renamed.fixed, fun x hx => h.within hx.1, fun x y hx hy =>
    h.renamed.inj x y hx.1 hy.1, fun x hx => h.renamed.content x hx.1,
    fun x hx => h.renamed.parentOf ht hu hx.1, fun x hx _ => h.renamed.children x hx.1, ?_,
    fun x hx y hy hxy => ?_, fun y hy => ?_, ?_⟩
  · rw [h.renamed.children _ hspot, hsplit, List.map_append, List.map_append]
  · obtain ⟨z, hz, rfl⟩ := List.mem_map.1 hx
    exact hy.2 z hz ((h.renamed.within_iff ht hu (hnodes z hz) hy.1).1 hxy)
  · obtain ⟨x, hx, rfl⟩ := h.renamed.exists_within ht hu hy
    by_cases hnew : ∃ n ∈ nodes, t.Within n x
    · obtain ⟨n, hn, hnx⟩ := hnew
      exact .inr ⟨_, List.mem_map_of_mem hn,
        (h.renamed.within_iff ht hu (hnodes n hn) hx).2 hnx⟩
    · exact .inl ⟨x, ⟨hx, fun n hn hnx => hnew ⟨n, hn, hnx⟩⟩, rfl⟩
  · rw [mapM_map_congr fun x hx => h.renamed.read_eq ht hu (hnodes x hx)]
    exact hread

end Tree
end PageBinding
