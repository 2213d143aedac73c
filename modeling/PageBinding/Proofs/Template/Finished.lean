/-
# What is left when a template is rendered

No markers of repetitions and conditions are left (`Unmarked`): an element that is
repeated has lost both, and one that is not has no marker of a repetition and loses the
one of a condition.  Each text and attribute value that is left is one of the template,
filled once with data inside the context (`Fills`), so if that has no braces, what
`Leftover` says of a substitution says where a placeholder is left
(`rendered_is_finished`): nowhere, if the substitution joins no parts of a text.

It may join them: of `x` in two braces on the left and one on the right, an undefined
value, and one more brace (`rendered_joins_placeholder`).
-/

import PageBinding.Proofs.Template.Rereading
import PageBinding.Proofs.Template.Unbraced

namespace PageBinding

open Html (Node Element Document)
open Html.Document (weight everyAll_iff every_node writableAll_iff)
open Json (Value)
open Json.Value (Inside)

/-- The text of a content, or its attribute values. -/
def Html.Node.texts : Node → List String
  | .element e => e.attributes.map Prod.snd
  | .text s => [s]
  | _ => []

/-- A text stands in a tree, or an attribute value. -/
def Tree.HasText (t : Tree) (s : String) : Prop := ∃ x n, t.contentOf x = some n ∧ s ∈ n.texts

namespace Template

/-- An element that is neither repeated nor has a condition. -/
def Unmarked (m : Markers) (n : Node) : Prop := m.each ∉ names n ∧ m.condition ∉ names n

/-- A content without placeholders. -/
def Bare (n : Node) : Prop := ∀ s ∈ n.texts, ¬ HasPlaceholder s.toList

/-- The texts of a content are some texts filled with data inside the context. -/
def Filled (context : Value) (S : String → Prop) (n : Node) : Prop :=
  ∀ x ∈ n.texts, ∃ c s, Inside context c ∧ S s ∧ x = fillText c s

variable {m : Markers} {context c : Value} {n : Node} {d b : Document} {S : String → Prop}

/-! ## Markers -/

/-- A content is not repeated if the marker is not among the names of its attributes. -/
theorem repetition?_eq_none_iff : repetition? m n = none ↔ m.each ∉ names n := by
  cases n with
  | element e => exact get?_eq_none_iff
  | _ => exact ⟨fun _ => List.not_mem_nil, fun _ => rfl⟩

/-- Once a condition is checked its marker is gone. -/
theorem not_mem_names_checkContent (hn : Distinct n) :
    m.condition ∉ names (checkContent m context n).1 := by
  cases n with
  | element e =>
    rw [checkContent]
    split
    · rename_i hc
      exact get?_eq_none_iff.1 hc
    · exact get?_eq_none_iff.1 (get?_remove_self hn)
  | _ => exact List.not_mem_nil

/-- What is not repeated is left without markers. -/
theorem unmarked_checkContent (hn : Distinct n) (hrep : repetition? m n = none) :
    Unmarked m (checkContent m context (fillContent context n)).1 := by
  refine ⟨fun hm => repetition?_eq_none_iff.1 hrep ?_,
    not_mem_names_checkContent ((lasting_distinct m).fill context n hn)⟩
  exact names_fillContent context n ▸ (names_checkContent m context _).subset hm

/-! ## Texts -/

/-- Removing an attribute adds no text. -/
theorem texts_remove (e : Element) (name : String) :
    ((Node.element (e.remove name)).texts).Sublist (Node.element e).texts :=
  List.eraseP_sublist.map _

/-- Removing what marks a repetition adds no text. -/
theorem texts_singleContent (m : Markers) (n : Node) : (singleContent m n).texts.Sublist n.texts := by
  cases n with
  | element e => exact (texts_remove _ _).trans (texts_remove e _)
  | _ => exact .refl _

/-- Checking a condition adds no text. -/
theorem texts_checkContent (m : Markers) (context : Value) (n : Node) :
    (checkContent m context n).1.texts.Sublist n.texts := by
  cases n with
  | element e =>
    rw [checkContent]
    split
    · exact .refl _
    · exact texts_remove e _
  | _ => exact .refl _

/-- Filling a content fills each of its texts. -/
theorem texts_fillContent (context : Value) (n : Node) :
    (fillContent context n).texts = n.texts.map (fillText context) := by
  cases n with
  | element e => simp [fillContent, Node.texts]
  | _ => rfl

/-- What becomes of a content in a context has its texts, filled. -/
theorem filled_checkContent (hc : Inside context c) (hS : ∀ s ∈ n.texts, S s) :
    Filled context S (checkContent m c (fillContent c n)).1 := fun x hx => by
  have hx := (texts_checkContent m c _).subset hx
  rw [texts_fillContent] at hx
  obtain ⟨s, hs, rfl⟩ := List.mem_map.1 hx
  exact ⟨c, s, hc, hS s hs, rfl⟩

/-- **What stands for a document has no markers, and its texts are those of the document,
filled.**  The induction is on the weight, as the copies of an element are no part of
it; each copy is bound to an item, which is inside the data of the element. -/
theorem finished_of_mem_meaning (hd : d.Every fun n => Distinct n ∧ ∀ s ∈ n.texts, S s)
    (hc : Inside context c) (hb : b ∈ meaning m c d) :
    b.Every fun n => Unmarked m n ∧ Filled context S n := by
  induction hk : weight d using Nat.strong_induction_on generalizing d b c with
  | _ k ih =>
    subst hk
    obtain ⟨n, ds⟩ := d
    obtain ⟨⟨hn, hS⟩, hds⟩ := every_node.1 hd
    cases hrep : repetition? m n with
    | some path =>
      rw [meaning_repeated hrep] at hb
      split at hb
      · rename_i items hr
        obtain ⟨item, hitem, hb⟩ := List.mem_flatMap.1 hb
        have hinside : Inside context item :=
          (hc.trans (Json.Value.inside_of_resolve? hr)).trans (.item hitem (.self item))
        refine ih _ (weight_singleContent_lt hrep) (every_node.2 ⟨⟨?_, ?_⟩, hds⟩) hinside hb rfl
        · exact (lasting_distinct m).single n hn
        · exact fun s hs => hS s ((texts_singleContent m n).subset hs)
      · cases hb
    | none =>
      rw [meaning_single hrep] at hb
      split at hb
      · obtain rfl := List.mem_singleton.1 hb
        refine every_node.2 ⟨⟨unmarked_checkContent hn hrep, filled_checkContent hc hS⟩,
          fun b hb => ?_⟩
        obtain ⟨d, hd, hb⟩ := List.mem_flatMap.1 hb
        have hlt : weight d < weight (.node n ds) := by
          have := Document.weight_le_of_mem hd
          rw [weight]
          omega
        exact ih _ hlt (hds d hd) hc hb rfl
      · cases hb

/-! ## Placeholders -/

/-- A filled text consists of its parts, each of them filled. -/
theorem toList_fillText (c : Value) (s : String) :
    (fillText c s).toList = (parts s.toList).flatMap (Part.fill (lookup c)) := by
  rw [← getD_substitute?, fillText]
  cases substitute? s.toList (lookup c) with
  | none => rfl
  | some r => exact String.toList_ofList ..

/-- A text that data without braces is filled into. -/
theorem hasPlaceholder_fillText_iff (hc : c.BraceFree) (s : String) :
    HasPlaceholder (fillText c s).toList ↔ Joins (lookup c) (parts s.toList) := by
  rw [toList_fillText, hasPlaceholder_fill_iff (unbraced_lookup hc)]

/-- A text is one of a tree, filled with data inside the context; it has a placeholder just
if this has joined parts of the text. -/
def Fills (t : Tree) (context : Value) (x : String) : Prop :=
  ∃ c s, Inside context c ∧ t.HasText s ∧ x = fillText c s ∧
    (HasPlaceholder x.toList ↔ Joins (lookup c) (parts s.toList))

/-- **What a rendered template is like,** whatever the text of the template and the markers,
if the data has no braces: it has no markers of repetitions and conditions; its texts are
filled from those of the template, and have a placeholder in them just where this has joined
parts of a text; so there is no placeholder if no text is joined by any of the data. -/
theorem rendered_is_finished (text : String) (context : Value) (m : Markers)
    (hc : context.BraceFree) :
    let template := (Tree.ofHtml text).1
    ∃ out notices ds, render template context m = .ok (out, notices) ∧
      out.read Tree.root = .ok (.node .fragment ds) ∧
      Document.EveryAll (Unmarked m) ds ∧
      Document.EveryAll (fun n => ∀ x ∈ n.texts, Fills template context x) ds ∧
      ((∀ c s, Inside context c → template.HasText s → ¬ Joins (lookup c) (parts s.toList)) →
        Document.EveryAll Bare ds) := by
  intro template
  have hwritable := Tree.writable_documentsOf (Html.writable_of_mem_tokens text)
  have hdistinct : Document.EveryAll Distinct (Tree.documentsOf (Html.tokens text)).1 :=
    everyAll_iff.2 fun d hd => (writableAll_iff.1 hwritable d hd).every_distinct
  obtain ⟨out, notices, hout, hread⟩ := render_ofDocuments_meaning hdistinct context m
  have hholds := Tree.ofDocuments_holds (Tree.documentsOf (Html.tokens text)).1
  have htexts : Document.EveryAll (fun n => ∀ s ∈ n.texts, template.HasText s)
      (Tree.documentsOf (Html.tokens text)).1 := by
    have hall : template.Everywhere fun n => ∀ s ∈ n.texts, template.HasText s :=
      fun x n hn s hs => ⟨x, n, hn, hs⟩
    have := hall.every hholds
    rw [Numbered.document_numberFrom] at this
    exact this.2
  have hfinished : ∀ b ∈ (Tree.documentsOf (Html.tokens text)).1.flatMap (meaning m context),
      b.Every fun n => Unmarked m n ∧ Filled context template.HasText n := by
    intro b hb
    obtain ⟨d, hd, hb⟩ := List.mem_flatMap.1 hb
    have hd : d.Every fun n => Distinct n ∧ ∀ s ∈ n.texts, template.HasText s := by
      have h₁ := everyAll_iff.1 hdistinct d hd
      have h₂ := everyAll_iff.1 htexts d hd
      exact h₁.and h₂
    exact finished_of_mem_meaning hd (.self context) hb
  have hfills : ∀ n, Filled context template.HasText n → ∀ x ∈ n.texts, Fills template context x := by
    intro n hn x hx
    obtain ⟨c, s, hinside, hs, rfl⟩ := hn x hx
    exact ⟨c, s, hinside, hs, rfl, hasPlaceholder_fillText_iff (hc.of_inside hinside) s⟩
  refine ⟨out, notices, _, hout, hread, everyAll_iff.2 fun b hb => ?_,
    everyAll_iff.2 fun b hb => ?_, fun hj => everyAll_iff.2 fun b hb => ?_⟩
  · exact (hfinished b hb).mono fun n hn => hn.1
  · exact (hfinished b hb).mono fun n hn => hfills n hn.2
  · refine (hfinished b hb).mono fun n hn x hx hp => ?_
    obtain ⟨c, s, hinside, hs, -, hiff⟩ := hfills n hn.2 x hx
    exact hj c s hinside hs (hiff.1 hp)

/-- A repeated element with a condition of its own and a malformed placeholder. -/
theorem rendered_is_finished_list :
    let template := (Tree.ofHtml "<li jx-each=. jx-if=x>\x7b\x7bx\x7d \x7b\x7b.\x7d\x7d</li>").1
    let context := Value.array [.string "a"]
    context.BraceFree ∧
    ∃ out notices ds, render template context .standard = .ok (out, notices) ∧
      out.read Tree.root = .ok (.node .fragment ds) ∧
      Document.EveryAll (Unmarked .standard) ds ∧
      Document.EveryAll (fun n => ∀ x ∈ n.texts, Fills template context x) ds ∧
      ((∀ c s, Inside context c → template.HasText s → ¬ Joins (lookup c) (parts s.toList)) →
        Document.EveryAll Bare ds) := by
  have hfree : (Value.array [.string "a"]).BraceFree := by
    intro s hs
    cases hs with
    | item hv hs =>
      obtain rfl := List.mem_singleton.1 hv
      cases hs
      exact ⟨by decide, by decide⟩
  exact ⟨hfree, rendered_is_finished _ _ .standard hfree⟩

/-- **A substitution joins what is left to a placeholder.**  The data is null, so that no
path leads anywhere. -/
theorem rendered_joins_placeholder :
    ¬ ∀ (text : String) (context : Value) (m : Markers), context.BraceFree →
      ∀ out notices ds, render (Tree.ofHtml text).1 context m = .ok (out, notices) →
        out.read Tree.root = .ok (.node .fragment ds) → Document.EveryAll Bare ds := by
  intro hall
  have hfree : Value.null.BraceFree := fun s hs => by cases hs
  let joined := "\x7b\x7bx\x7d\x7b\x7ba\x7d\x7d\x7d"
  let docs : List Document := [.node (.element ⟨"p", []⟩) [.node (.text joined) []]]
  have hof : (Tree.ofHtml "<p>\x7b\x7bx\x7d\x7b\x7ba\x7d\x7d\x7d</p>").1 = Tree.ofDocuments docs := by
    decide +kernel
  have hdistinct : Document.EveryAll Distinct docs :=
    ⟨⟨List.nodup_nil, ⟨List.nodup_nil, trivial⟩, trivial⟩, trivial⟩
  obtain ⟨out, notices, hout, hread⟩ := render_ofDocuments_meaning hdistinct .null .standard
  rw [← hof] at hout
  have hbare := hall _ .null .standard hfree out notices _ hout hread
  have hmeaning : docs.flatMap (meaning .standard .null) =
      [.node (.element ⟨"p", []⟩) [.node (.text (fillText .null joined)) []]] := by
    rw [List.flatMap_singleton, meaning_single rfl, List.flatMap_singleton, meaning_single rfl]
    rfl
  rw [hmeaning] at hbare
  refine hbare.1.2.1.1 _ (List.mem_singleton_self _) ((hasPlaceholder_fillText_iff hfree joined).2 ?_)
  -- What is before the placeholder of `a` lacks one brace, and what is behind it is one.
  have hnext : next? joined.toList = some (['\x7b', '\x7b', 'x', '\x7d'], ['a'], ['\x7d']) := by
    decide +kernel
  rw [parts_of_some hnext, parts_of_none (by decide +kernel)]
  exact ⟨[], _, _, rfl, ⟨[], ['x'], by decide, by decide, rfl⟩, by decide +kernel, rfl⟩

end Template
end PageBinding
