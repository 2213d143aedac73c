/-
# Data in canonical form

Binding does not tell data from its canonical form: with either one a template is rendered to
the same tree with the same notices, if the numbers in the data are finite
(`render_canonical`).  The texts for placeholders are the same, the conditions hold of both or
of none, and a list in canonical form has the items of the list in canonical form.
-/

import PageBinding.Proofs.Json.Canonical
import PageBinding.Template.Collection

namespace PageBinding
namespace Template

open Html (Node Element)
open Json (Value)

variable {v : Value} {m : Markers}

/-- Placeholders are filled with the same text from the canonical form of a value. -/
theorem lookup_canonical (h : v.Finite) : lookup v.canonical = lookup v := by
  funext path
  rw [lookup, lookup, Value.resolve?_canonical]
  cases hr : v.resolve? (String.ofList path) with
  | none => rfl
  | some w =>
    rw [Option.map_some, Value.display?, Value.display?,
      Value.display_canonical w (h.of_inside (Value.inside_of_resolve? hr))]

/-- Contents are filled alike from the canonical form of a value. -/
theorem fillContent_canonical (h : v.Finite) : fillContent v.canonical = fillContent v := by
  have htext : fillText v.canonical = fillText v := by
    funext s
    rw [fillText, fillText, lookup_canonical h]
  funext n
  cases n with
  | element e => rw [fillContent, fillContent, htext]
  | text s => rw [fillContent, fillContent, htext]
  | _ => rfl

/-- Conditions come out alike for the canonical form of a value. -/
theorem checkContent_canonical (h : v.Finite) (n : Node) :
    checkContent m v.canonical n = checkContent m v n := by
  cases n with
  | element e =>
    rw [checkContent, checkContent]
    cases e.get? m.condition with
    | none => rfl
    | some path =>
      dsimp only
      rw [Value.resolve?_canonical]
      cases hr : v.resolve? path with
      | none => rfl
      | some w =>
        have htruthy : w.canonical.truthy = w.truthy :=
          Value.truthy_canonical (h.of_inside (Value.inside_of_resolve? hr))
        simp only [Json.truthy?, Option.map_some, htruthy]
  | _ => rfl

/-- Copies are bound to other items if each one of them may be. -/
theorem bindCopies_map {bind : Pass → NodeId → Value → Except Fault Pass} {f : Value → Value}
    {items : List Value} (h : ∀ v ∈ items, ∀ p id, bind p id (f v) = bind p id v) (model : NodeId)
    (p : Pass) : bindCopies bind model p (items.map f) = bindCopies bind model p items := by
  induction items generalizing p with
  | nil => rfl
  | cons v items ih =>
    obtain ⟨hv, hitems⟩ := List.forall_mem_cons.1 h
    simp only [List.map_cons, bindCopies, hv, ih hitems]

/-- Binding gives the same for the canonical form of a value, to whatever depth. -/
theorem bindWithin_canonical (m : Markers) (depth : Nat) : ∀ (p : Pass) (id : NodeId) (v : Value),
    v.Finite → bindWithin m depth p id v.canonical = bindWithin m depth p id v := by
  induction depth with
  | zero => exact fun _ _ _ _ => rfl
  | succ depth ih =>
    intro p id v h
    rw [bindWithin, bindWithin]
    congr 1
    funext content
    cases repetition? m content with
    | some path =>
      dsimp only
      rw [Value.resolve?_canonical]
      cases hr : v.resolve? path with
      | none => rfl
      | some w =>
        have hw : w.Finite := h.of_inside (Value.inside_of_resolve? hr)
        cases w with
        | array items =>
          have hcopies : ∀ v ∈ items, ∀ p id,
              bindWithin m depth p id v.canonical = bindWithin m depth p id v := fun v hv p id =>
            ih p id v (hw.of_inside (.item hv (.self v)))
          rw [Option.map_some, Value.canonical_array]
          simp only [repeatOver, bindCopies_map hcopies]
        | number n => rw [Option.map_some, Value.canonical, if_pos (hw n (.self _))]
        | object members => rw [Option.map_some, Value.canonical_object]; rfl
        | _ => rfl
    | none =>
      dsimp only
      rw [fillContent_canonical h, checkContent_canonical h]
      simp only [ih _ _ v h]

/-- **A template is rendered the same with data and with its canonical form.** -/
theorem render_canonical (h : v.Finite) (template : Tree) (m : Markers) :
    render template v.canonical m = render template v m := by
  rw [render, render, bindAt, bindAt, bindWithin_canonical m _ _ _ v h]

/-- A template of a collection renders the same tree for the canonical form of a value. -/
theorem Collection.render?_canonical (h : v.Finite) (c : Collection) (name : String) :
    c.render? name v.canonical = c.render? name v := by
  rw [Collection.render?, Collection.render?]
  cases c.get? name with
  | none => rfl
  | some template =>
    dsimp only
    rw [render_canonical h]

end Template
end PageBinding
