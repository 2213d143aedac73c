/-
# The tree built in place is the tree of the documents

A tree that is built in place and a document in the making take the same tokens.  At
every moment the one mirrors the other (`Scaffold.Mirrors`): the tree raises the frames
of what is open, and the open nodes are the numbers of these.  So no token is refused
(`Scaffold.Mirrors.add_ok`), and closing what is still open gives the documents that the
tree is of (`Scaffold.Mirrors.eq_ofTokens`).

What a token does to the tree is told by `Scaffold.Step`, which is what other facts
about these trees are proved from.
-/

import PageBinding.Proofs.Tree.Building
import PageBinding.Proofs.Tree.Raising

namespace PageBinding
namespace Tree

open Html (Node Document Element Token isVoid)
open Numbered (numberAllFrom)

variable {t u : Tree} {n : Node} {id spot : NodeId}

/-! ## What the steps look at -/

/-- A node is an element of a name. -/
def IsNamed (t : Tree) (tag : String) (id : NodeId) : Prop :=
  ∃ e, t.contentOf id = some (.element e) ∧ e.tag = tag

/-- The first element of a name in a list is closed, and what is before it. -/
theorem outside?_ok (tag : String) {ids : List NodeId} (h : ∀ x ∈ ids, t.Has x) :
    (∃ inner x outer, ids = inner ++ x :: outer ∧ t.IsNamed tag x ∧
      (∀ y ∈ inner, ¬ t.IsNamed tag y) ∧ t.outside? tag ids = .ok (some outer)) ∨
    (∀ y ∈ ids, ¬ t.IsNamed tag y) ∧ t.outside? tag ids = .ok none := by
  induction ids with
  | nil => exact .inr ⟨nofun, rfl⟩
  | cons x ids ih =>
    obtain ⟨hx, hids⟩ := List.forall_mem_cons.1 h
    obtain ⟨n, hn⟩ := has_iff_contentOf.1 hx
    have hnamed : n.element?.any (·.tag = tag) = true ↔ t.IsNamed tag x := by
      rw [IsNamed, hn]
      cases n <;> simp [Node.element?]
    rw [outside?, element?_ok hn, ok_bind]
    by_cases htag : t.IsNamed tag x
    · exact .inl ⟨[], x, ids, rfl, htag, nofun, by rw [if_pos (hnamed.2 htag)]; rfl⟩
    · rw [if_neg fun hf => htag (hnamed.1 hf)]
      rcases ih hids with ⟨inner, y, outer, rfl, hy, hinner, hout⟩ | ⟨hnone, hout⟩
      · exact .inl ⟨x :: inner, y, outer, rfl, hy, List.forall_mem_cons.2 ⟨htag, hinner⟩, hout⟩
      · exact .inr ⟨List.forall_mem_cons.2 ⟨htag, hnone⟩, hout⟩

/-! ## Steps -/

namespace Scaffold

/-- **What a token does** to a tree in the making. -/
inductive Step (s : Scaffold) : Token → Scaffold → Prop
  /-- A start tag makes an element, which is open unless nothing can be in it. -/
  | element {spot outer u e selfClosing} (opened : s.opened = spot :: outer)
      (new : Extended s.tree u spot (.element e)) :
      Step s (.startTag e selfClosing) { s with
        tree := u
        opened := if isVoid e.tag || selfClosing then s.opened else ⟨s.tree.size⟩ :: s.opened }
  | comment {spot outer u w} (opened : s.opened = spot :: outer)
      (new : Extended s.tree u spot (.comment w)) : Step s (.comment w) { s with tree := u }
  /-- A text makes a node if it does not stand behind a text. -/
  | text {spot outer u w} (opened : s.opened = spot :: outer)
      (apart : s.tree.lastTextOf spot = none) (new : Extended s.tree u spot (.text w)) :
      Step s (.text w) { s with tree := u }
  /-- A text is joined with the text before it, which is the newest node if nothing is in it. -/
  | joined {spot outer last before u w} (opened : s.opened = spot :: outer)
      (last_text : s.tree.lastTextOf spot = some (last, before))
      (newest : s.tree.childrenOf last = [] → last.index + 1 = s.tree.size)
      (rewritten : Rewritten s.tree u last (.text (before ++ w))) :
      Step s (.text w) { s with tree := u }
  /-- An end tag closes the innermost element of its name and all that are inside it. -/
  | closed {inner id outer tag} (opened : s.opened = inner ++ id :: outer)
      (named : s.tree.IsNamed tag id) (innermost : ∀ x ∈ inner, ¬ s.tree.IsNamed tag x) :
      Step s (.endTag tag) { s with opened := outer }
  /-- An end tag without an element is reported, unless it names a void one. -/
  | unmatched {tag} (unnamed : ∀ x ∈ s.opened, ¬ s.tree.IsNamed tag x) :
      Step s (.endTag tag) (if isVoid tag then s else s.report (.unmatchedEndTag tag))
  | doctype : Step s .doctype s
  | mistake {words} : Step s (.mistake words) (s.report (.malformed words))

end Scaffold

/-! ## Frames of a document in the making -/

/-- The open element as an open node. -/
def OpenElement.frame (o : OpenElement) : Frame := ⟨.element o.element, o.inside⟩

namespace Growing

variable {g : Growing}

/-- Some open elements as open nodes, and the root with what stands at the top. -/
def framesOf (top : List Document) : List OpenElement → List Frame
  | [] => [⟨.fragment, top⟩]
  | o :: outer => o.frame :: framesOf top outer

/-- The open elements as open nodes, and the root. -/
def frames (g : Growing) : List Frame := framesOf g.top g.openElements

/-- The innermost open node of a document in the making, and those around it. -/
structure Innermost (g : Growing) (f : Frame) (outer : List Frame) : Prop where
  frames : g.frames = f :: outer
  change : ∀ h, (g.change h).frames = ⟨f.content, h f.inside⟩ :: outer

/-- In a document in the making there is always an innermost open node, if only the root. -/
theorem exists_innermost (g : Growing) : ∃ f outer, g.Innermost f outer := by
  obtain ⟨top, _ | ⟨o, outer⟩, notices⟩ := g
  · exact ⟨_, _, rfl, fun _ => rfl⟩
  · exact ⟨_, _, rfl, fun _ => rfl⟩

/-- A change of what is innermost makes no notices. -/
theorem notices_change (f : List Document → List Document) (g : Growing) :
    (g.change f).notices = g.notices := by
  obtain ⟨top, _ | ⟨o, outer⟩, notices⟩ := g <;> rfl

/-- Adding a document opens no element. -/
theorem openElements_append_length (g : Growing) (d : Document) :
    (g.append d).openElements.length = g.openElements.length := by
  obtain ⟨top, _ | ⟨o, outer⟩, notices⟩ := g <;> rfl

end Growing

namespace Scaffold

variable {s : Scaffold} {g : Growing} {f : Frame} {outer : List Frame}

/-- A tree in the making is what a document in the making tells. -/
structure Mirrors (s : Scaffold) (g : Growing) : Prop where
  wellFormed : s.tree.WellFormed
  size : s.tree.size = Frame.count g.frames
  raises : s.tree.Raises [] g.frames
  opened : s.opened = Frame.ids g.frames
  notices : s.notices = g.notices

namespace Mirrors

/-- The first tree in the making is what the first document tells. -/
theorem start : Mirrors .start .start where
  wellFormed := wellFormed_empty
  size := rfl
  raises := ⟨rfl, rfl, trivial, trivial⟩
  opened := rfl
  notices := rfl

/-- The innermost node has just been closed. -/
theorem of_closed {p : Frame} (hw : s.tree.WellFormed)
    (hframes : g.frames = ⟨p.content, f.closed :: p.inside⟩ :: outer)
    (hs : s.tree.size = Frame.count (f :: p :: outer)) (hr : s.tree.Raises [] (f :: p :: outer))
    (ho : s.opened = Frame.ids (p :: outer)) (hn : s.notices = g.notices) : s.Mirrors g where
  wellFormed := hw
  size := by rw [hframes, count_close, hs]
  raises := by rw [hframes, raises_close]; exact hr
  opened := by rw [hframes]; exact ho
  notices := hn

/-- The tree has the open nodes. -/
theorem has (h : s.Mirrors g) (hid : id ∈ s.opened) : s.tree.Has id := by
  rw [Has, h.size]
  exact Frame.index_lt_count (h.opened ▸ hid)

section

variable {put : List Document → List Document} (h : s.Mirrors g) (hf : g.Innermost f outer)

include h hf

/-- The open nodes by number: the innermost one came last, and then the others. -/
theorem opened_eq : s.opened = ⟨Frame.count outer⟩ :: Frame.ids outer := by
  rw [h.opened, hf.frames, Frame.ids]

/-- The current node is the innermost open one. -/
theorem current_eq : s.current = .ok ⟨Frame.count outer⟩ := by
  rw [current, h.opened_eq hf]
  rfl

/-- The tree has the current node. -/
theorem has_current : s.tree.Has ⟨Frame.count outer⟩ :=
  h.has (h.opened_eq hf ▸ List.mem_cons_self ..)

/-- The tree has as many nodes as are open and in them. -/
theorem size_eq : s.tree.size = Frame.count (f :: outer) := hf.frames ▸ h.size

/-- The tree has the open nodes, each inside the next one. -/
theorem raises_eq : s.tree.Raises [] (f :: outer) := hf.frames ▸ h.raises

/-- **A new node** can be put in, and is open at first. -/
theorem exists_newChild (n : Node) :
    ∃ u, s.tree.newChild ⟨Frame.count outer⟩ n = .ok (u, ⟨s.tree.size⟩) ∧
      Extended s.tree u ⟨Frame.count outer⟩ n :=
  h.wellFormed.newChild_extended (h.has_current hf) n

/-- A new last child of the innermost node that is opened is the innermost one. -/
theorem open_new (he : Extended s.tree u ⟨Frame.count outer⟩ n) :
    u.size = Frame.count (⟨n, []⟩ :: f :: outer) ∧ u.Raises [] (⟨n, []⟩ :: f :: outer) := by
  refine ⟨?_, he.open (h.size_eq hf) (h.raises_eq hf)⟩
  rw [he.size, h.size_eq hf]
  rfl

/-- A new node is closed at once if nothing is to be in it. -/
theorem close_new (he : Extended s.tree u ⟨Frame.count outer⟩ n)
    (hput : put f.inside = .node n [] :: f.inside) :
    Mirrors { s with tree := u } (g.change put) := by
  obtain ⟨hs, hr⟩ := h.open_new hf he
  have hframes : (g.change put).frames =
      ⟨f.content, Frame.closed ⟨n, []⟩ :: f.inside⟩ :: outer := by rw [hf.change, hput]; rfl
  exact .of_closed he.wellFormed hframes hs hr (h.opened_eq hf)
    (h.notices.trans (Growing.notices_change ..).symm)

end

end Mirrors
end Scaffold

/-! ## Texts -/

section

variable {f p : Frame} {outer : List Frame} {more : List NodeId}

/-- Each open node is the last child of the next one. -/
theorem Raises.getLast? (hr : t.Raises more (f :: p :: outer)) :
    (t.childrenOf ⟨Frame.count outer⟩).getLast? = some ⟨Frame.count (p :: outer)⟩ := by
  rw [hr.2.2.2.2.1, List.getLast?_append, List.getLast?_singleton]
  rfl

/-- A text is the last child of the innermost node just if it stands last in it. -/
theorem Raises.lastTextOf_cases (hr : t.Raises [] (f :: outer)) :
    (t.lastTextOf ⟨Frame.count outer⟩ = none ∧ ∀ d ∈ f.inside.head?, ¬ d.IsText) ∨
      ∃ before below rest, f.inside = .node (.text before) below :: rest ∧
        t.lastTextOf ⟨Frame.count outer⟩ =
          some (⟨Frame.count (⟨f.content, rest⟩ :: outer)⟩, before) := by
  cases hins : f.inside with
  | nil =>
    have hc := hr.2.1
    rw [hins] at hc
    exact .inl ⟨by rw [lastTextOf, hc]; rfl, nofun⟩
  | cons d rest =>
    obtain ⟨n, below⟩ := d
    have hopen := Raises.reopen hins hr
    have hlast : t.lastTextOf ⟨Frame.count outer⟩ =
        n.text?.map fun s => (⟨Frame.count (⟨f.content, rest⟩ :: outer)⟩, s) := by
      rw [lastTextOf, hopen.getLast?, Option.bind_some, hopen.1, Option.bind_some]
    cases n with
    | text before => exact .inr ⟨before, below, rest, rfl, hlast⟩
    | _ => exact .inl ⟨hlast, by simp [Html.Document.IsText, Html.Document.content, Node.text?]⟩

end

namespace Scaffold
namespace Mirrors

variable {s : Scaffold} {g : Growing} {f : Frame} {outer : List Frame}

/-- A text that is joined with the one before it. -/
theorem join {w before : String} {below rest : List Document} (h : s.Mirrors g)
    (hf : g.Innermost f outer) (hins : f.inside = .node (.text before) below :: rest)
    (hu : Rewritten s.tree u ⟨Frame.count (⟨f.content, rest⟩ :: outer)⟩ (.text (before ++ w))) :
    Mirrors { s with tree := u } (g.change (withText w)) := by
  have hframes : (g.change (withText w)).frames = ⟨f.content,
      Frame.closed ⟨.text (before ++ w), below.reverse⟩ :: rest⟩ :: outer := by
    rw [hf.change, hins, Frame.closed, List.reverse_reverse]
    rfl
  exact .of_closed (f := ⟨.text (before ++ w), below.reverse⟩) hu.wellFormed hframes
    (hu.size.trans ((h.size_eq hf).trans (count_reopen hins).symm))
    (hu.raises (.reopen hins (h.raises_eq hf))) (h.opened_eq hf)
    (h.notices.trans (Growing.notices_change ..).symm)

/-- A text is added to both. -/
theorem add_text (h : s.Mirrors g) (w : String) :
    ∃ s', s.add (.text w) = .ok s' ∧ Step s (.text w) s' ∧ Mirrors s' (g.add (.text w)) := by
  obtain ⟨f, outer, hf⟩ := g.exists_innermost
  have hr := h.raises_eq hf
  rw [add, h.current_eq hf, ok_bind]
  dsimp only
  rw [pushText, h.wellFormed.lastText?_ok (h.has_current hf), ok_bind]
  rcases hr.lastTextOf_cases with ⟨hlast, hins⟩ | ⟨before, below, rest, hins, hlast⟩
  · obtain ⟨u, hu, he⟩ := h.exists_newChild hf (.text w)
    refine ⟨{ s with tree := u }, ?_, .text (h.opened_eq hf) hlast he,
      h.close_new hf he (Growing.withText_of_not_isText hins)⟩
    rw [hlast]
    dsimp only
    rw [hu]
    rfl
  · have hopen := Raises.reopen hins hr
    obtain ⟨u, hu, he⟩ := h.wellFormed.setContent_rewritten
      (has_iff_contentOf.2 ⟨_, hopen.1⟩) (.text (before ++ w))
    refine ⟨{ s with tree := u }, ?_, .joined (h.opened_eq hf) hlast (fun hnil => ?_) he,
      h.join hf hins he⟩
    · rw [hlast]
      dsimp only
      rw [hu]
      rfl
    · -- The nodes after the text are those in it.
      have hbelow : below = [] := by
        have := hopen.2.1
        rw [hnil, List.reverse_reverse, List.append_nil] at this
        cases below with
        | nil => rfl
        | cons d ds => rw [numberAllFrom] at this; cases this
      rw [h.size_eq hf, ← count_reopen hins, hbelow]
      rfl

/-! ## Elements that are closed -/

/-- **Closing** some elements leaves the tree, and the others open. -/
theorem close (h : s.Mirrors g) (k : Nat) (hk : k ≤ g.openElements.length) :
    Mirrors { s with opened := s.opened.drop k } (g.close k) := by
  induction k generalizing s g with
  | zero => exact h
  | succ k ih =>
    obtain ⟨top, _ | ⟨o, outer⟩, notices⟩ := g
    · cases hk
    obtain ⟨p, around, hp⟩ := (Growing.mk top outer notices).exists_innermost
    have hframes : (Growing.mk top (o :: outer) notices).frames = o.frame :: p :: around :=
      congrArg (o.frame :: ·) hp.frames
    have hclosed : ((Growing.mk top outer notices).append o.closed).frames =
        ⟨p.content, o.frame.closed :: p.inside⟩ :: around := hp.change _
    have hone : Mirrors { s with opened := s.opened.drop 1 }
        ((Growing.mk top outer notices).append o.closed) := by
      refine .of_closed h.wellFormed hclosed (hframes ▸ h.size) (hframes ▸ h.raises) ?_ ?_
      · rw [h.opened, hframes]
        rfl
      · rw [Growing.append, Growing.notices_change]
        exact h.notices
    have := ih hone (by rw [Growing.openElements_append_length]; exact Nat.le_of_succ_le_succ hk)
    rwa [List.drop_drop, Nat.add_comm] at this

/-- Looking for an open element of a name gives the same on both sides. -/
theorem outside?_eq (h : s.Mirrors g) (tag : String) :
    s.tree.outside? tag s.opened =
      .ok ((g.openElements.findIdx? (·.element.tag = tag)).map fun i => s.opened.drop (i + 1)) := by
  have key : ∀ (top : List Document) (os : List OpenElement) (more : List NodeId),
      s.tree.Raises more (Growing.framesOf top os) →
        s.tree.outside? tag (Frame.ids (Growing.framesOf top os)) =
          .ok ((os.findIdx? (·.element.tag = tag)).map fun i =>
            (Frame.ids (Growing.framesOf top os)).drop (i + 1)) := by
    intro top os
    induction os with
    | nil =>
      intro more hr
      rw [Growing.framesOf, Frame.ids, outside?, element?_ok hr.1]
      rfl
    | cons o os ih =>
      intro more hr
      rw [Growing.framesOf, Frame.ids, outside?, element?_ok hr.1, ok_bind, List.findIdx?_cons]
      by_cases htag : o.element.tag = tag
      · simp [OpenElement.frame, Node.element?, htag]
      · rw [ih _ hr.2.2.2]
        simp only [OpenElement.frame, Node.element?]
        cases os.findIdx? (·.element.tag = tag) <;> simp [htag]
  rw [h.opened]
  exact key g.top g.openElements [] h.raises

/-- A notice is added to both. -/
theorem report (h : s.Mirrors g) (n : Notice) :
    Mirrors (s.report n) { g with notices := g.notices.push n } :=
  ⟨h.wellFormed, h.size, h.raises, h.opened, congrArg (fun ns => ns.push n) h.notices⟩

/-- An end tag closes the same in both. -/
theorem add_endTag (h : s.Mirrors g) (tag : String) :
    ∃ s', s.add (.endTag tag) = .ok s' ∧ Step s (.endTag tag) s' ∧
      Mirrors s' (g.add (.endTag tag)) := by
  obtain ⟨f, outer, hf⟩ := g.exists_innermost
  have houtside := h.outside?_eq tag
  rw [add, h.current_eq hf, ok_bind, Growing.add]
  dsimp only
  rcases outside?_ok tag fun x hx => h.has hx with
    ⟨inner, x, rest, hsplit, hx, hinner, hout⟩ | ⟨hnone, hout⟩ <;> rw [hout] at houtside ⊢
  · refine ⟨{ s with opened := rest }, rfl, .closed hsplit hx hinner, ?_⟩
    cases hi : g.openElements.findIdx? (·.element.tag = tag) with
    | none => rw [hi] at houtside; cases houtside
    | some i =>
      rw [hi] at houtside
      obtain rfl : rest = s.opened.drop (i + 1) := Option.some.inj (Except.ok.inj houtside)
      obtain ⟨hlt, -⟩ := List.findIdx?_eq_some_iff_getElem.1 hi
      exact h.close (i + 1) hlt
  · refine ⟨_, rfl, .unmatched hnone, ?_⟩
    cases hi : g.openElements.findIdx? (·.element.tag = tag) with
    | some i => rw [hi] at houtside; cases houtside
    | none =>
      dsimp only
      split
      · exact h
      · exact h.report _

/-- A start tag opens, or adds, the same in both. -/
theorem add_startTag (h : s.Mirrors g) (e : Element) (selfClosing : Bool) :
    ∃ s', s.add (.startTag e selfClosing) = .ok s' ∧ Step s (.startTag e selfClosing) s' ∧
      Mirrors s' (g.add (.startTag e selfClosing)) := by
  obtain ⟨f, outer, hf⟩ := g.exists_innermost
  obtain ⟨u, hu, he⟩ := h.exists_newChild hf (.element e)
  obtain ⟨hs, hr⟩ := h.open_new hf he
  rw [add, h.current_eq hf, ok_bind]
  dsimp only
  rw [hu, Growing.add]
  refine ⟨_, rfl, .element (h.opened_eq hf) he, ?_⟩
  split
  · exact h.close_new hf he rfl
  · have hframes : Growing.frames { g with openElements := ⟨e, []⟩ :: g.openElements } =
        ⟨.element e, []⟩ :: f :: outer := by rw [← hf.frames]; rfl
    refine ⟨he.wellFormed, hs.trans (by rw [hframes]), hframes ▸ hr, ?_, h.notices⟩
    rw [hframes, Frame.ids, ← h.size_eq hf, ← hf.frames, ← h.opened]

/-- **No token is refused,** and the tree goes on being what the document in the making
tells. -/
theorem add_ok (h : s.Mirrors g) (k : Token) :
    ∃ s', s.add k = .ok s' ∧ Step s k s' ∧ Mirrors s' (g.add k) := by
  cases k with
  | startTag e selfClosing => exact h.add_startTag e selfClosing
  | endTag tag => exact h.add_endTag tag
  | text w => exact h.add_text w
  | comment w =>
    obtain ⟨f, outer, hf⟩ := g.exists_innermost
    obtain ⟨u, hu, he⟩ := h.exists_newChild hf (.comment w)
    refine ⟨{ s with tree := u }, ?_, .comment (h.opened_eq hf) he, h.close_new hf he rfl⟩
    rw [add, h.current_eq hf, ok_bind]
    dsimp only
    rw [hu]
    rfl
  | doctype =>
    obtain ⟨f, outer, hf⟩ := g.exists_innermost
    exact ⟨s, by rw [add, h.current_eq hf]; rfl, .doctype, h⟩
  | mistake words =>
    obtain ⟨f, outer, hf⟩ := g.exists_innermost
    exact ⟨_, by rw [add, h.current_eq hf]; rfl, .mistake, h.report _⟩

/-- **Some tokens more** are not refused, and keep what each of them keeps. -/
theorem run {P : List Token → Scaffold → Prop}
    (step : ∀ {done s g k s'}, Mirrors s g → Step s k s' → P done s → P (done ++ [k]) s')
    (done ks : List Token) (h : s.Mirrors g) (hP : P done s) :
    ∃ s', ks.foldlM Scaffold.add s = .ok s' ∧ Mirrors s' (ks.foldl Growing.add g) ∧
      P (done ++ ks) s' := by
  induction ks generalizing s g done with
  | nil => exact ⟨s, rfl, h, by rwa [List.append_nil]⟩
  | cons k ks ih =>
    obtain ⟨v, hv, hstep, hmirrors⟩ := h.add_ok k
    obtain ⟨s', hs, hm, hp⟩ := ih (done ++ [k]) hmirrors (step h hstep hP)
    exact ⟨s', by rw [List.foldlM_cons, hv, ok_bind, hs], hm, by
      rwa [List.append_assoc, List.singleton_append] at hp⟩

/-- **Once everything is closed** the tree is the one of the documents. -/
theorem tree_eq (h : s.Mirrors g) : s.tree = ofDocuments g.finish := by
  have hclosed := h.close g.openElements.length le_rfl
  have hnone : ∀ (k : Nat) (g : Growing), g.openElements.length = k →
      (g.close k).openElements = [] := by
    intro k
    induction k with
    | zero => exact fun g hg => List.eq_nil_of_length_eq_zero hg
    | succ k ih =>
      rintro ⟨top, _ | ⟨o, outer⟩, notices⟩ hg
      · cases hg
      · exact ih _ ((Growing.openElements_append_length ..).trans (Nat.succ.inj hg))
  have hframes : (g.close g.openElements.length).frames = [⟨.fragment, g.finish.reverse⟩] := by
    rw [Growing.frames, hnone _ g rfl, Growing.framesOf, Growing.finish, List.reverse_reverse]
  have hr := hclosed.raises
  have hs := hclosed.size
  rw [hframes] at hr hs
  refine Raises.eq_ofDocuments hclosed.wellFormed hr ?_
  simpa [Frame.count, Nat.add_comm] using hs

/-- Behind all tokens the tree and the notices are those of the document. -/
theorem eq_ofTokens {ks : List Token} (h : s.Mirrors (ks.foldl Growing.add .start)) :
    (s.tree, s.notices) = ofTokens ks := by
  rw [h.tree_eq, h.notices]
  rfl

end Mirrors
end Scaffold
end Tree
end PageBinding
