/-
# What an output depends on

A document names paths (`named`): one that is repeated names the path of its list, and
another one those of its placeholders and of its condition, and what the documents inside
it name.  What is inside a repeated document is bound to the items of the list only, so
it names nothing.

Two contexts that lead to the same values at the named paths give the same output, notices
included (`render_eq_of_agree`).  The two runs are in step: at every node they find the same
value at the path of a list, or else leave the same content and go on with the same
children.  A condition is looked up at its path as it is once the placeholders in that are
replaced, so it must have none.
-/

import PageBinding.Proofs.Template.Finished

namespace PageBinding

open Html (Node Element Document)
open Html.Document (weight every_node)
open Json (Value)

namespace Template

open PageBinding.Tree (Midway)

/-- The paths of the placeholders of a text. -/
def pathsOf (s : String) : List String :=
  (parts s.toList).filterMap fun
    | .literal _ => none
    | .placeholder inner => some (String.ofList (Text.trim inner))

/-- The path of the condition of a content. -/
def condition? (m : Markers) (n : Node) : Option String :=
  n.element?.bind fun e => e.get? m.condition

mutual

/-- The paths that a document names. -/
def named (m : Markers) : Document → List String
  | .node n ds =>
    match repetition? m n with
    | some path => [path]
    | none => n.texts.flatMap pathsOf ++ ((condition? m n).toList ++ namedAll m ds)

/-- The paths that some documents name. -/
def namedAll (m : Markers) : List Document → List String
  | [] => []
  | d :: ds => named m d ++ namedAll m ds

end

/-- Two contexts lead to the same values at some paths. -/
def Agree (c d : Value) (paths : List String) : Prop := ∀ p ∈ paths, c.resolve? p = d.resolve? p

/-- The path of the condition of a content has no placeholder in it. -/
def PlainCondition (m : Markers) (n : Node) : Prop :=
  ∀ path, condition? m n = some path → ¬ HasPlaceholder path.toList

variable {m : Markers} {c d : Value} {n : Node} {ds : List Document} {path : String}
  {paths : List String}

/-- The paths that documents name are those that each of them names. -/
theorem namedAll_eq_flatMap (m : Markers) (ds : List Document) :
    namedAll m ds = ds.flatMap (named m) := by
  induction ds with
  | nil => rfl
  | cons d ds ih => rw [namedAll, ih, List.flatMap_cons]

/-- A document that is repeated names the path of its list only. -/
theorem named_repeated (h : repetition? m n = some path) : named m (.node n ds) = [path] := by
  rw [named, h]

/-- A document that is not repeated names the paths of its texts, that of its condition and those of
what is inside. -/
theorem named_single (h : repetition? m n = none) : named m (.node n ds) =
    n.texts.flatMap pathsOf ++ ((condition? m n).toList ++ ds.flatMap (named m)) := by
  rw [named, h, ← namedAll_eq_flatMap]

/-- Contexts that agree at some paths agree at fewer of them. -/
theorem Agree.mono {others : List String} (h : Agree c d paths) (hs : others ⊆ paths) :
    Agree c d others :=
  fun p hp => h p (hs hp)

/-! ## Contents -/

/-- A text without placeholders stays as it is. -/
theorem fillText_of_plain {s : String} (h : ¬ HasPlaceholder s.toList) (c : Value) :
    fillText c s = s := by
  have hnext : next? s.toList = none := by
    cases hs : next? s.toList with
    | none => rfl
    | some found =>
      obtain ⟨before, inner, behind⟩ := found
      obtain ⟨-, hne, hclosing⟩ := stretch_of_next? hs
      exact absurd ⟨before, _, next?_eq hs, inner, behind, hne, hclosing, rfl⟩ h
  rw [← String.toList_inj, toList_fillText, fill_of_none hnext]

/-- A text is filled alike from contexts that agree at its paths. -/
theorem fillText_congr {s : String} (h : Agree c d (pathsOf s)) : fillText c s = fillText d s := by
  rw [← String.toList_inj, toList_fillText, toList_fillText]
  refine List.flatMap_congr fun part hpart => ?_
  cases part with
  | literal => rfl
  | placeholder inner =>
    rw [Part.fill, Part.fill, lookup, lookup, h _ (List.mem_filterMap.2 ⟨_, hpart, rfl⟩)]

/-- A content is filled alike from contexts that agree at the paths of its texts. -/
theorem fillContent_congr (h : Agree c d (n.texts.flatMap pathsOf)) :
    fillContent c n = fillContent d n := by
  have htexts : ∀ s ∈ n.texts, fillText c s = fillText d s := fun s hs =>
    fillText_congr fun p hp => h p (List.mem_flatMap.2 ⟨s, hs, hp⟩)
  cases n with
  | element e =>
    rw [fillContent, fillContent]
    congr 2
    exact List.map_congr_left fun a ha => by rw [htexts _ (List.mem_map_of_mem ha)]
  | text s => rw [fillContent, fillContent, htexts s (List.mem_singleton_self s)]
  | _ => rfl

/-- Filling in does not change the path of a condition that has no placeholder. -/
theorem condition?_fillContent (h : PlainCondition m n) (c : Value) :
    condition? m (fillContent c n) = condition? m n := by
  cases n with
  | element e =>
    have hget : condition? m (fillContent c (.element e)) =
        (condition? m (.element e)).map (fillText c) := by
      simp [condition?, fillContent, Node.element?, Element.get?, List.find?_map, Function.comp_def]
    rw [hget]
    cases hc : condition? m (.element e) with
    | none => rfl
    | some path => rw [Option.map_some, fillText_of_plain (h path hc)]
  | _ => rfl

/-- A condition comes out alike for contexts that agree at its path. -/
theorem checkContent_congr (h : Agree c d (condition? m n).toList) :
    checkContent m c n = checkContent m d n := by
  cases n with
  | element e =>
    have hc : condition? m (.element e) = e.get? m.condition := rfl
    rw [checkContent, checkContent]
    cases hget : e.get? m.condition with
    | none => rfl
    | some path =>
      rw [hc, hget] at h
      dsimp only
      rw [h path (List.mem_singleton_self path)]
  | _ => rfl

/-! ## Runs -/

variable {P : Node → Prop} {limit : Nat} {bind : Pass → NodeId → Value → Except Fault Pass}

/-- Those inside a node are bound in step. -/
theorem foldlM_bind_congr (hbind : Binds m P limit bind) {t : Tree} {a : Numbered} {n : Node}
    {Q : Numbered → Prop} (hstep : ∀ (p : Pass) (b : Numbered), p.tree.WellFormed →
      p.tree.Holds b → Q b → bind p b.top c = bind p b.top d) :
    ∀ (todo done : List Numbered) (p : Pass), Midway t p.tree a n done todo →
      (∀ b ∈ todo, weight b.document ≤ limit ∧ Q b) →
      (todo.map Numbered.top).foldlM (fun p child => bind p child c) p =
        (todo.map Numbered.top).foldlM (fun p child => bind p child d) p := by
  intro todo
  induction todo with
  | nil => exact fun _ _ _ _ => rfl
  | cons b todo ih =>
    intro done p h hq
    obtain ⟨⟨hl, hb⟩, htodo⟩ := List.forall_mem_cons.1 hq
    have hheld := h.holds.of_mem (List.mem_append_right done (List.mem_cons_self ..))
    obtain ⟨q, outs, hrun, hbound⟩ := hbind p b c h.wellFormed hheld hl
    have hsame := hstep p b h.wellFormed hheld hb
    rw [List.map_cons, List.foldlM_cons, List.foldlM_cons, ← hsame, hrun, ok_bind, ok_bind]
    exact ih (done ++ outs) q (h.step hbound.toReplaced) htodo

/-- **Binding is in step** for contexts that agree on what a document names. -/
theorem bindWithin_congr (m : Markers) : ∀ (depth : Nat) (p : Pass) (a : Numbered),
    p.tree.WellFormed → p.tree.Holds a → weight a.document ≤ depth →
    a.document.Every (PlainCondition m) → Agree c d (named m a.document) →
    bindWithin m depth p a.top c = bindWithin m depth p a.top d := by
  intro depth
  induction depth with
  | zero => exact fun _ _ _ _ _ _ _ => rfl
  | succ depth ih =>
    intro p a hw ha hl hplain hagree
    rw [Numbered.document_eq] at hl hplain hagree
    obtain ⟨hn, hinside⟩ := every_node.1 hplain
    rw [bindWithin, bindWithin, Tree.content_ok ha.content, ok_bind, ok_bind]
    cases hrep : repetition? m a.content with
    | some path =>
      -- From here on the items of the list are all that is looked at.
      rw [named_repeated hrep] at hagree
      dsimp only
      rw [hagree path (List.mem_singleton_self path)]
    | none =>
      rw [named_single hrep] at hagree
      have hfill : fillContent c a.content = fillContent d a.content :=
        fillContent_congr (hagree.mono (List.subset_append_left ..))
      have hcheck : checkContent m c (fillContent d a.content) =
          checkContent m d (fillContent d a.content) := by
        refine checkContent_congr ?_
        rw [condition?_fillContent hn]
        exact hagree.mono fun q hq =>
          List.mem_append_right _ (List.mem_append_left _ hq)
      dsimp only
      rw [hfill, hcheck]
      obtain ⟨v, hv, hb, hcon⟩ := ha.setContent_beside hw
        (checkContent m d (fillContent d a.content)).1
      have hchange : p.change (·.setContent a.top
          (checkContent m d (fillContent d a.content)).1) = .ok ⟨v, p.notices⟩ := by
        rw [Pass.change, hv]
        rfl
      have hch : v.children a.top = .ok (a.inside.map Numbered.top) := by
        rw [Tree.children_ok (Nat.lt_of_lt_of_le ha.has_top hb.size_le),
          hb.children _ ha.has_top, ha.children]
      rw [hchange, ok_bind, ok_bind, hch, ok_bind, ok_bind]
      congr 1
      refine foldlM_bind_congr (bindWithin_binds m (fun _ => True) depth)
        (Q := fun b => weight b.document ≤ depth ∧ b.document.Every (PlainCondition m) ∧
          Agree c d (named m b.document))
        (fun q b hwq hbq hQ => ih q b hwq hbq hQ.1 hQ.2.1 hQ.2.2)
        a.inside [] ⟨v, p.notices⟩ (hb.midway ha hw hcon) fun b hb => ?_
      have hmem := List.mem_map_of_mem (f := Numbered.document) hb
      have hlb : weight b.document ≤ depth := by
        have := Document.weight_le_of_mem hmem
        rw [weight] at hl
        omega
      refine ⟨hlb, hlb, hinside _ hmem, hagree.mono fun q hq => ?_⟩
      exact List.mem_append_right _ (List.mem_append_right _ (List.mem_flatMap.2 ⟨_, hmem, hq⟩))

/-- **An output depends only on what its template names.**  If two contexts lead to the same
values at all paths that a well-formed template names, and no condition in it has a
placeholder, then the template is rendered to the same tree with the same notices. -/
theorem render_eq_of_agree (template : Tree) (m : Markers) (c d : Value) (document : Document)
    (hw : template.WellFormed) (hread : template.read Tree.root = .ok document)
    (hplain : document.Every (PlainCondition m)) (hagree : Agree c d (named m document)) :
    ∃ out notices, render template c m = .ok (out, notices) ∧
      render template d m = .ok (out, notices) := by
  have hroot : template.Has Tree.root := by
    by_contra hno
    rw [Tree.read, Tree.readWithin, Tree.node, Tree.node?_eq_none hno] at hread
    cases hread
  obtain ⟨a, htop, ha⟩ := hw.exists_holds hroot
  rw [← htop, ha.read hw] at hread
  obtain rfl := Except.ok.inj hread
  obtain ⟨out, notices, outs, hout, -⟩ := bindAt_bound hw ha c m fun _ => True
  have hsame := bindWithin_congr m (template.weight + 1) ⟨template, #[]⟩ a hw ha
    (Nat.le_succ_of_le (weight_le hw ha)) hplain hagree
  refine ⟨out, notices, by rw [render, ← htop, hout], ?_⟩
  rw [render, ← htop, ← hout, bindAt, bindAt, hsame]

/-- A condition, a placeholder in a value and one in a repeated element.  Of the two contexts
one has a member more, and the items of the list have a member of an outer one's name. -/
theorem render_eq_of_agree_list :
    let documents : List Document :=
      [.node (.element ⟨"p", [("jx-if", "shown"), ("title", "\x7b\x7b a \x7d\x7d")]⟩) [],
        .node (.element ⟨"li", [("jx-each", "xs")]⟩) [.node (.text "\x7b\x7ba\x7d\x7d\x7b\x7bb\x7d\x7d") []]]
    let xs := Value.array [.object [("a", .string "inner")], .null]
    let c := Value.object [("a", .string "outer"), ("b", .bool true), ("shown", .bool true), ("xs", xs)]
    let d := Value.object [("xs", xs), ("shown", .bool true), ("a", .string "outer")]
    let template := Tree.ofDocuments documents
    template.WellFormed ∧ template.read Tree.root = .ok (.node .fragment documents) ∧
      Document.Every (PlainCondition .standard) (.node .fragment documents) ∧
      Agree c d (named .standard (.node .fragment documents)) ∧
      ∃ out notices, render template c .standard = .ok (out, notices) ∧
        render template d .standard = .ok (out, notices) := by
  intro documents xs c d template
  have hplain : Document.Every (PlainCondition .standard) (.node .fragment documents) := by
    refine ⟨nofun, ⟨fun path hpath => ?_, trivial⟩, ⟨nofun, ⟨nofun, trivial⟩, trivial⟩, trivial⟩
    obtain rfl : "shown" = path := Option.some.inj hpath
    exact not_hasPlaceholder (by decide)
  have hnone : pathsOf "shown" = [] := by
    rw [pathsOf, parts_of_none (by decide +kernel)]
    rfl
  have hsome : pathsOf "\x7b\x7b a \x7d\x7d" = ["a"] := by
    rw [pathsOf, parts_of_some (show next? _ = some ([], [' ', 'a', ' '], []) by decide +kernel),
      parts_of_none (by decide +kernel)]
    decide +kernel
  have hnamed : named .standard (.node .fragment documents) = ["a", "shown", "xs"] :=
    show pathsOf "shown" ++ (pathsOf "\x7b\x7b a \x7d\x7d" ++ []) ++ ["shown"] ++ ["xs"] = _ by
      rw [hnone, hsome]
      rfl
  have hagree : Agree c d (named .standard (.node .fragment documents)) := by
    rw [hnamed]
    refine List.forall_mem_cons.2 ⟨rfl, List.forall_mem_cons.2 ⟨rfl,
      List.forall_mem_singleton.2 rfl⟩⟩
  have hw : template.WellFormed := Tree.ofDocuments_wellFormed documents
  have hread := read_ofDocuments documents
  exact ⟨hw, hread, hplain, hagree, render_eq_of_agree template .standard c d _ hw hread hplain hagree⟩

end Template
end PageBinding
