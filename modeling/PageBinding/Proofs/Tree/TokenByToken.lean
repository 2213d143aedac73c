/-
# Trees built token by token

A tree that is built in place holds what its tokens say, each in its place, and nothing
else, whatever the tokens are (`Scaffold.build_keeps_tokens`).  No text, tag or comment
gets lost, and none appears twice, also if end tags are missing, cross each other or
close nothing.

Each clause is an invariant of the tree that one token keeps (`Scaffold.Accounts`), and
there are three cases of it (`Scaffold.Step.tree_cases`): a new last child of the innermost
open node, another text in its last child, and no change.

| invariant | kept, since |
| --- | --- |
| the contents by number are those of the tokens | a new node has the next number, and a text that grows is the newest node |
| leaves have no children | a leaf is not opened |
| no two texts stand side by side | a text behind a text is joined with it |
| elements that are not open stay as they are | only what is open gets children, and only texts grow |
-/

import PageBinding.Proofs.Tree.Scaffolding
import PageBinding.Proofs.Tree.Walking

namespace PageBinding

open Html (Node Document Element Token isVoid)
open Html.Document (count countAll)

namespace Html.Token

/-- The content of the node that a token may make. -/
def content? : Token → Option Node
  | .startTag e _ => some (.element e)
  | .text s => some (.text s)
  | .comment s => some (.comment s)
  | _ => none

/-- The element or the comment that a token tells. -/
def node? : Token → Option Node
  | .startTag e _ => some (.element e)
  | .comment s => some (.comment s)
  | _ => none

/-- The text that a token tells, and nothing for other tokens. -/
def words : Token → String
  | .text s => s
  | _ => ""

variable {k : Token} {n : Node}

/-- The content that a token makes is its element, its comment or its words. -/
theorem of_content (h : k.content? = some n) :
    [k].filterMap node? = [n].filter (·.text?.isNone) ∧ k.words = n.text?.getD "" := by
  cases k <;> cases h <;> exact ⟨rfl, rfl⟩

/-- A token that makes no content has neither a node nor words. -/
theorem of_content_none (h : k.content? = none) : [k].filterMap node? = [] ∧ k.words = "" := by
  cases k <;> first | exact ⟨rfl, rfl⟩ | cases h

end Html.Token

namespace Tree

variable {t u : Tree} {n : Node} {id spot x : NodeId}

/-- **In a tree of documents** document order is the order of the numbers. -/
theorem descendants_ofDocuments (ds : List Document) : (ofDocuments ds).descendants root =
    .ok ((List.range' 1 ((ofDocuments ds).size - 1)).map NodeId.mk) := by
  have hsize : (ofDocuments ds).size - 1 = countAll ds := by
    rw [(ofDocuments_grown ds).size]
    simp [countAll, count, size]
  rw [hsize, ← Numbered.idsAll_numberAllFrom]
  exact descendants_ok (ofDocuments_wellFormed ds) (ofDocuments_holds ds)

/-! ## Cases of a step -/

namespace Scaffold

variable {s s' : Scaffold} {g : Growing} {k : Token} {ks : List Token}

/-- **What a token does to the tree:** it makes a last child of the innermost open node,
it makes the text in the last child longer, or it does nothing. -/
theorem Step.tree_cases (h : Step s k s') :
    (∃ spot ∈ s.opened, ∃ n, k.content? = some n ∧
      (n.text?.isSome → s.tree.lastTextOf spot = none) ∧ Extended s.tree s'.tree spot n) ∨
    (∃ spot ∈ s.opened, ∃ last before w, k = .text w ∧
      s.tree.lastTextOf spot = some (last, before) ∧
      (s.tree.childrenOf last = [] → last.index + 1 = s.tree.size) ∧
      Rewritten s.tree s'.tree last (.text (before ++ w))) ∨
    s'.tree = s.tree ∧ k.content? = none := by
  cases h with
  | element opened new =>
    exact .inl ⟨_, opened ▸ List.mem_cons_self .., _, rfl, nofun, new⟩
  | comment opened new =>
    exact .inl ⟨_, opened ▸ List.mem_cons_self .., _, rfl, nofun, new⟩
  | text opened apart new =>
    exact .inl ⟨_, opened ▸ List.mem_cons_self .., _, rfl, fun _ => apart, new⟩
  | joined opened last_text newest rewritten =>
    exact .inr (.inl ⟨_, opened ▸ List.mem_cons_self .., _, _, _, rfl, last_text, newest,
      rewritten⟩)
  | unmatched unnamed => exact .inr (.inr ⟨by split <;> rfl, rfl⟩)
  | _ => exact .inr (.inr ⟨rfl, rfl⟩)

/-- What is open was open, or is new and can have something inside. -/
theorem Step.opened (h : Step s k s') (hid : id ∈ s'.opened) :
    id ∈ s.opened ∨ id = ⟨s.tree.size⟩ ∧
      ∃ e, k = .startTag e false ∧ isVoid e.tag = false := by
  cases h with
  | element opened new =>
    rename_i e selfClosing
    dsimp only at hid
    split at hid
    · exact .inl hid
    · next hopen =>
      rw [Bool.or_eq_true, not_or, Bool.not_eq_true, Bool.not_eq_true] at hopen
      obtain ⟨hvoid, rfl⟩ := hopen
      exact (List.mem_cons.1 hid).symm.imp_right fun he => ⟨he, e, rfl, hvoid⟩
  | closed opened named innermost =>
    exact .inl (opened ▸ List.mem_append_right _ (List.mem_cons_of_mem _ hid))
  | unmatched unnamed => exact .inl (by split at hid <;> exact hid)
  | _ => exact .inl hid

/-! ## What is kept -/

/-- **The tree accounts for its tokens:** each of them is there, in its order. -/
structure Accounts (ks : List Token) (s : Scaffold) : Prop where
  /-- Something can be in what is open. -/
  roomy : ∀ x ∈ s.opened, ∀ n, s.tree.contentOf x = some n → ¬ n.IsLeaf
  leavesBare : s.tree.LeavesBare
  textsApart : s.tree.TextsApart
  nodes : s.tree.contents.filter (·.text?.isNone) = .fragment :: ks.filterMap Token.node?
  words : String.join (s.tree.contents.map (·.text?.getD "")) = String.join (ks.map Token.words)

namespace Accounts

/-- The first tree accounts for no tokens. -/
theorem start : Accounts [] .start where
  roomy := by
    rintro x hx n hn
    obtain rfl := List.mem_singleton.1 hx
    obtain rfl : Node.fragment = n := Option.some.inj hn
    exact id
  leavesBare := by
    rintro ⟨_ | i⟩ n hn hleaf
    · rfl
    · cases hn
  textsApart := by
    rintro ⟨_ | i⟩
    · exact List.isChain_nil
    · exact List.isChain_nil
  nodes := rfl
  words := rfl

/-- After a token there is room in all nodes that are open. -/
theorem roomy_step (h : Accounts ks s) (hm : s.Mirrors g) (hs : Step s k s') :
    ∀ x ∈ s'.opened, ∀ n, s'.tree.contentOf x = some n → ¬ n.IsLeaf := by
  intro x hx n hn
  rcases hs.opened hx with ho | ⟨rfl, e, rfl, hvoid⟩
  · rcases hs.tree_cases with ⟨spot, -, m, -, -, he⟩ | ⟨spot, -, last, before, w, -, hlast, -, hr⟩ |
      ⟨ht, -⟩
    · exact h.roomy x ho n (he.content_of_has (hm.has ho) ▸ hn)
    · refine h.roomy x ho n ?_
      rwa [hr.content, if_neg] at hn
      rintro rfl
      exact h.roomy x ho _ (lastTextOf_eq_some.1 hlast).2 trivial
    · exact h.roomy x ho n (ht ▸ hn)
  · rcases hs.tree_cases with ⟨spot, -, m, hk, -, he⟩ | ⟨_, -, _, _, _, hk, -⟩ | ⟨-, hk⟩
    · rw [he.content, if_pos rfl, ← hk] at hn
      obtain rfl := Option.some.inj hn
      simpa [Node.IsLeaf] using hvoid
    · cases hk
    · cases hk

/-- **One token more** is accounted for. -/
theorem step (h : Accounts ks s) (hm : s.Mirrors g) (hs : Step s k s') :
    Accounts (ks ++ [k]) s' := by
  have hroomy := h.roomy_step hm hs
  rcases hs.tree_cases with ⟨spot, hspot, n, hk, hlast, he⟩ |
    ⟨spot, -, last, before, w, rfl, hlast, hnewest, hr⟩ | ⟨ht, hk⟩
  · refine ⟨hroomy, he.leavesBare (hm.has hspot) (h.roomy spot hspot) h.leavesBare,
      he.textsApart hm.wellFormed h.textsApart hlast, ?_, ?_⟩
    · rw [he.contents, List.filter_append, h.nodes, List.filterMap_append, (Token.of_content hk).1,
        List.cons_append]
    · rw [he.contents, List.map_append, String.join_append, h.words]
      simp [(Token.of_content hk).2]
  · obtain ⟨-, hold⟩ := lastTextOf_eq_some.1 hlast
    have htext : s.tree.IsTextAt last := ⟨before, hold⟩
    obtain ⟨front, hcontents, hcontents'⟩ := hr.contents_newest hold
      (hnewest (h.leavesBare last _ hold trivial))
    have hnodes := h.nodes
    have hwords := h.words
    rw [hcontents, List.filter_append] at hnodes
    rw [hcontents, List.map_append, String.join_append] at hwords
    refine ⟨hroomy, hr.leavesBare htext h.leavesBare, hr.textsApart htext h.textsApart, ?_, ?_⟩
    · rw [hcontents', List.filter_append, List.filterMap_append]
      refine (hnodes : _ ++ [] = _).trans ?_
      rw [show [Token.text w].filterMap Token.node? = [] from rfl, List.append_nil]
    · rw [hcontents', List.map_append, String.join_append, List.map_append, String.join_append,
        ← hwords]
      simp [Token.words, Node.text?, String.append_assoc]
  · refine ⟨hroomy, ht ▸ h.leavesBare, ht ▸ h.textsApart, ?_, ?_⟩
    · rw [ht, h.nodes, List.filterMap_append, (Token.of_content_none hk).1, List.append_nil]
    · rw [ht, h.words]
      simp [(Token.of_content_none hk).2]

end Accounts

/-- **An element that is not open** and has nothing inside. -/
structure Settled (e : Element) (id : NodeId) (s : Scaffold) : Prop where
  notOpen : id ∉ s.opened
  content : s.tree.contentOf id = some (.element e)
  children : s.tree.childrenOf id = []

/-- It stays as it is. -/
theorem Settled.step {e : Element} (h : Settled e id s) (hs : Step s k s') : Settled e id s' := by
  have hid : s.tree.Has id := has_iff_contentOf.2 ⟨_, h.content⟩
  have hopen : id ∉ s'.opened := by
    intro ho
    rcases hs.opened ho with ho | ⟨rfl, -⟩
    · exact h.notOpen ho
    · exact s.tree.not_has_size hid
  rcases hs.tree_cases with ⟨spot, hspot, n, -, -, he⟩ |
    ⟨spot, -, last, before, w, rfl, hlast, -, hr⟩ | ⟨ht, -⟩
  · refine ⟨hopen, (he.content_of_has hid).trans h.content, ?_⟩
    rw [he.children, if_neg, h.children]
    rintro rfl
    exact h.notOpen hspot
  · refine ⟨hopen, ?_, (hr.children id).trans h.children⟩
    rw [hr.content, if_neg, h.content]
    rintro rfl
    cases h.content.symm.trans (lastTextOf_eq_some.1 hlast).2
  · exact ⟨hopen, ht ▸ h.content, ht ▸ h.children⟩

/-! ## What is open -/

end Scaffold

section

variable {fs : List Frame} {more : List NodeId}

/-- Each open node is the last child of the one around it. -/
theorem Raises.isChain_ids (h : t.Raises more fs) :
    (Frame.ids fs).IsChain fun inner outer => (t.childrenOf outer).getLast? = some inner := by
  induction fs generalizing more with
  | nil => exact List.isChain_nil
  | cons f outer ih =>
    cases outer with
    | nil => exact List.isChain_singleton _
    | cons p around => exact List.isChain_cons_cons.2 ⟨h.getLast?, ih h.2.2.2⟩

/-- The innermost frames are elements, and the outermost one is the root. -/
theorem Raises.ids_framesOf {top : List Document} {os : List OpenElement}
    (h : t.Raises more (Growing.framesOf top os)) :
    ∃ inside, Frame.ids (Growing.framesOf top os) = inside ++ [root] ∧
      ∀ x ∈ inside, ∃ e, t.contentOf x = some (.element e) := by
  induction os generalizing more with
  | nil => exact ⟨[], rfl, nofun⟩
  | cons o os ih =>
    obtain ⟨inside, hids, hinside⟩ := ih h.2.2.2
    refine ⟨⟨Frame.count (Growing.framesOf top os)⟩ :: inside, ?_, ?_⟩
    · rw [Growing.framesOf, Frame.ids, hids, List.cons_append]
    · exact List.forall_mem_cons.2 ⟨⟨o.element, h.1⟩, hinside⟩

end

namespace Scaffold

variable {s s' : Scaffold} {g : Growing} {k : Token} {ks : List Token}

/-- **What is open:** the root, and in it elements that are not void, each the last child
of the one around it. -/
structure Upright (s : Scaffold) : Prop where
  root_outermost : ∃ inside, s.opened = inside ++ [root] ∧
    ∀ x ∈ inside, ∃ e, s.tree.contentOf x = some (.element e) ∧ isVoid e.tag = false
  lastChild : s.opened.IsChain fun inner outer => (s.tree.childrenOf outer).getLast? = some inner

/-- What is open in a tree that accounts for its tokens is upright. -/
theorem Mirrors.upright (hm : s.Mirrors g) (h : Accounts ks s) : s.Upright where
  root_outermost := by
    obtain ⟨inside, hids, hinside⟩ := Raises.ids_framesOf hm.raises
    have hopened : s.opened = inside ++ [root] := hm.opened.trans hids
    refine ⟨inside, hopened, fun x hx => ?_⟩
    obtain ⟨e, he⟩ := hinside x hx
    have := h.roomy x (hopened ▸ List.mem_append_left _ hx) _ he
    exact ⟨e, he, by simpa [Node.IsLeaf] using this⟩
  lastChild := hm.opened ▸ hm.raises.isChain_ids

/-- An open node is above those that are more inside. -/
theorem Upright.above (h : s.Upright) (hw : s.tree.WellFormed) :
    s.opened.Pairwise fun inner outer => s.tree.Above outer inner := by
  have hchain : s.opened.IsChain fun inner outer => s.tree.Above outer inner :=
    h.lastChild.imp fun inner outer hlast => hw.above_child (List.mem_of_getLast? hlast)
  have : Trans (fun inner outer => s.tree.Above outer inner)
      (fun inner outer => s.tree.Above outer inner)
      fun inner outer => s.tree.Above outer inner := ⟨fun hab hbc => hbc.trans hab⟩
  exact hchain.pairwise

/-- What stays open once an element is closed is what is not in it. -/
theorem Upright.mem_outer {inner outer : List NodeId} (h : s.Upright) (hw : s.tree.WellFormed)
    (hopened : s.opened = inner ++ id :: outer) (hx : x ∈ s.opened) :
    x ∈ outer ↔ ¬ s.tree.Within id x := by
  have habove := h.above hw
  rw [hopened, List.pairwise_append, List.pairwise_cons] at habove
  obtain ⟨-, ⟨houter, -⟩, hinner⟩ := habove
  constructor
  · rintro hmem (rfl | ha)
    · exact hw.acyclic x (houter x hmem)
    · exact hw.acyclic x ((houter x hmem).trans ha)
  · intro hnot
    rw [hopened, List.mem_append, List.mem_cons] at hx
    rcases hx with hx | rfl | hx
    · exact absurd (hinner x hx id (List.mem_cons_self ..)).within hnot
    · exact absurd (.self ..) hnot
    · exact hx

/-! ## All tokens -/

/-- Building succeeds, and the tree accounts for all tokens. -/
theorem build_accounts (ks : List Token) : ∃ s, build ks = .ok s ∧
    s.Mirrors (ks.foldl Growing.add .start) ∧ Accounts ks s :=
  Mirrors.start.run (P := Accounts) (fun hm hs h => h.step hm hs) [] ks .start

/-- The tokens after some others are taken where these have led to. -/
theorem build_append {pre post : List Token} (h : build (pre ++ post) = .ok s) :
    ∃ m, build pre = .ok m ∧ m.Mirrors (pre.foldl Growing.add .start) ∧ Accounts pre m ∧
      post.foldlM Scaffold.add m = .ok s := by
  obtain ⟨m, hm, hmirrors, haccounts⟩ := build_accounts pre
  refine ⟨m, hm, hmirrors, haccounts, ?_⟩
  rw [build] at hm
  rwa [build, List.foldlM_append, hm, ok_bind] at h

/-- **Elements that nothing is to be in** stay empty, whatever comes after them. -/
theorem build_settled {pre post : List Token} {e : Element} {selfClosing : Bool}
    (h : build (pre ++ .startTag e selfClosing :: post) = .ok s)
    (hleaf : (isVoid e.tag || selfClosing) = true) :
    ∃ m, build pre = .ok m ∧ Settled e ⟨m.tree.size⟩ s := by
  obtain ⟨m, hm, hmirrors, -, hpost⟩ := build_append h
  obtain ⟨v, hv, hstep, hmirrors'⟩ := hmirrors.add_ok (.startTag e selfClosing)
  have hsettled : Settled e ⟨m.tree.size⟩ v := by
    cases hstep with
    | element opened new =>
      have hopen : ∀ x ∈ m.opened, x ≠ ⟨m.tree.size⟩ := by
        rintro x hx rfl
        exact m.tree.not_has_size (hmirrors.has hx)
      refine ⟨fun hmem => ?_, ?_, ?_⟩
      · rw [if_pos hleaf] at hmem
        exact hopen _ hmem rfl
      · rw [new.content, if_pos rfl]
      · rw [new.children, if_neg, childrenOf_eq_nil m.tree.not_has_size]
        exact (hopen _ (opened ▸ List.mem_cons_self ..)).symm
  obtain ⟨s', hs', -, hkept⟩ := hmirrors'.run (P := fun _ => Settled e ⟨m.tree.size⟩)
    (fun _ hs h => h.step hs) [] post hsettled
  rw [List.foldlM_cons, hv, ok_bind, hs'] at hpost
  exact ⟨m, hm, Except.ok.inj hpost ▸ hkept⟩

/-- **What is read** in the tree of some tokens, in document order. -/
theorem Accounts.read (h : Accounts ks s) (hm : s.Mirrors g) :
    ∃ ids ns, s.tree.descendants root = .ok ids ∧
      ids = (List.range' 1 (s.tree.size - 1)).map NodeId.mk ∧ ids.mapM s.tree.content = .ok ns ∧
      ns.filter (·.text?.isNone) = ks.filterMap Token.node? ∧
      s.tree.textContent root = .ok (String.join (ks.map Token.words)) := by
  have hdescendants := descendants_ofDocuments g.finish
  rw [← hm.tree_eq] at hdescendants
  have hread := s.tree.mapM_content 1
  have hroot : s.tree.contentOf root = some .fragment :=
    hm.tree_eq ▸ contentOf_ofDocuments g.finish
  have hcontents : s.tree.contents = .fragment :: s.tree.contents.drop 1 := by
    have hfirst := (getElem?_contents s.tree 0).trans hroot
    cases hc : s.tree.contents with
    | nil => rw [hc] at hfirst; cases hfirst
    | cons n ns =>
      rw [hc] at hfirst
      rw [Option.some.inj hfirst, List.drop_one, List.tail_cons]
  have hnodes := h.nodes
  have hwords := h.words
  rw [hcontents] at hnodes hwords
  refine ⟨_, _, hdescendants, rfl, hread, List.cons.inj hnodes |>.2, ?_⟩
  have hown : s.tree.ownText root = .ok "" := by rw [ownText, content_ok hroot]; rfl
  rw [textContent, hown, ok_bind, hdescendants, ok_bind, ← hwords]
  have hbelow : ((List.range' 1 (s.tree.size - 1)).map NodeId.mk).mapM s.tree.ownText =
      .ok ((s.tree.contents.drop 1).map (·.text?.getD "")) :=
    mapM_return_of_mapM (fun n : Node => n.text?.getD "") hread
  rw [hbelow, ok_bind, List.map_cons, String.join_cons]
  rfl

/-- **An end tag** closes the innermost open element of its name and what is open in it;
without such an element it is reported at most. -/
theorem Mirrors.endTag (hm : s.Mirrors g) (hup : s.Upright) (tag : String) :
    (∃ inner x outer, s.opened = inner ++ x :: outer ∧ s.tree.IsNamed tag x ∧
      (∀ y ∈ inner, ¬ s.tree.IsNamed tag y) ∧
      s.add (.endTag tag) = .ok { s with opened := outer } ∧
      ∀ y ∈ s.opened, y ∈ outer ↔ ¬ s.tree.Within x y) ∨
    (∀ y ∈ s.opened, ¬ s.tree.IsNamed tag y) ∧ s.add (.endTag tag) =
      .ok (if isVoid tag then s else s.report (.unmatchedEndTag tag)) := by
  obtain ⟨s', hs', hstep, -⟩ := hm.add_ok (.endTag tag)
  cases hstep with
  | closed opened named innermost =>
    exact .inl ⟨_, _, _, opened, named, innermost, hs', fun y hy =>
      hup.mem_outer hm.wellFormed opened hy⟩
  | unmatched unnamed => exact .inr ⟨unnamed, hs'⟩

/-- **Building a tree from tokens loses nothing and invents nothing,** whatever the tokens
are.  The tree is the one of `ofTokens`, and it is well-formed.  Its nodes are numbered in
document order, and none is detached; the elements and comments are those that the tokens
tell, in their order, and the text is that of all text tokens.  No two texts stand side by
side, and nothing is in an element that is void or closes itself.  At every moment what is
open is the root and in it elements that are not void, each the last child of the one
around it; and an end tag closes the innermost of its name with all that is in it, or leaves
everything as it is but for a warning. -/
theorem build_keeps_tokens (ks : List Token) : ∃ s, build ks = .ok s ∧
    (s.tree, s.notices) = ofTokens ks ∧ s.tree.WellFormed ∧
    (∃ ids ns, s.tree.descendants root = .ok ids ∧
      ids = (List.range' 1 (s.tree.size - 1)).map NodeId.mk ∧ ids.mapM s.tree.content = .ok ns ∧
      ns.filter (·.text?.isNone) = ks.filterMap Token.node? ∧
      s.tree.textContent root = .ok (String.join (ks.map Token.words))) ∧
    (∀ p, (s.tree.childrenOf p).IsChain fun a b => ¬ (s.tree.IsTextAt a ∧ s.tree.IsTextAt b)) ∧
    (∀ x e, s.tree.contentOf x = some (.element e) → isVoid e.tag → s.tree.childrenOf x = []) ∧
    (∀ pre e selfClosing post, ks = pre ++ .startTag e selfClosing :: post →
      (isVoid e.tag || selfClosing) = true → ∃ m, build pre = .ok m ∧
        s.tree.contentOf ⟨m.tree.size⟩ = some (.element e) ∧
        s.tree.childrenOf ⟨m.tree.size⟩ = []) ∧
    ∀ pre post, ks = pre ++ post → ∃ m, build pre = .ok m ∧ post.foldlM Scaffold.add m = .ok s ∧
      m.Upright ∧ ∀ tag,
        (∃ inner x outer, m.opened = inner ++ x :: outer ∧ m.tree.IsNamed tag x ∧
          (∀ y ∈ inner, ¬ m.tree.IsNamed tag y) ∧
          m.add (.endTag tag) = .ok { m with opened := outer } ∧
          ∀ y ∈ m.opened, y ∈ outer ↔ ¬ m.tree.Within x y) ∨
        (∀ y ∈ m.opened, ¬ m.tree.IsNamed tag y) ∧ m.add (.endTag tag) =
          .ok (if isVoid tag then m else m.report (.unmatchedEndTag tag)) := by
  obtain ⟨s, hs, hm, ha⟩ := build_accounts ks
  refine ⟨s, hs, hm.eq_ofTokens, hm.wellFormed, ha.read hm, ha.textsApart,
    fun x e hx hvoid => ?_, ?_, ?_⟩
  · exact ha.leavesBare x _ hx hvoid
  · rintro pre e selfClosing post rfl hleaf
    obtain ⟨m, hmb, hsettled⟩ := build_settled hs hleaf
    exact ⟨m, hmb, hsettled.content, hsettled.children⟩
  · rintro pre post rfl
    obtain ⟨m, hmb, hmirrors, haccounts, hpost⟩ := build_append hs
    have hup := hmirrors.upright haccounts
    exact ⟨m, hmb, hpost, hup, fun tag => hmirrors.endTag hup tag⟩

/-- An item is closed with its list, and a stray end tag is reported. -/
example : (build [.startTag ⟨"ul", []⟩ false, .startTag ⟨"li", []⟩ false, .text "a",
      .endTag "ul", .text "b", .endTag "p"]).map (fun s =>
        (s.tree.childrenOf root, s.tree.childrenOf ⟨1⟩, s.opened, s.notices)) =
    .ok ([⟨1⟩, ⟨4⟩], [⟨2⟩], [root], #[.unmatchedEndTag "p"]) := by decide +kernel

end Scaffold
end Tree
end PageBinding
