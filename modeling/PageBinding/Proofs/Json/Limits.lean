/-
# What is read is limited

A value that is read has finite numbers only and is no deeper than as many lists and objects
as may be open at a time, and it is its own canonical form (`within_of_parse`).  So what files
keep of it can be read again as far as its depth is concerned.
-/

import PageBinding.Json.Reader
import PageBinding.Proofs.Json.Canonical

namespace PageBinding

/-! ## Numbers -/

namespace Decimal
namespace Binary64

variable {negative : Bool} {x y : Binary64}

/-- Both zeros are finite. -/
theorem isFinite_zero (negative : Bool) : (zero negative).isFinite = true := by
  cases negative <;> rfl

/-- A number made from a magnitude is finite. -/
theorem isFinite_of_ofMagnitude? {w : Nat} (h : ofMagnitude? negative w = some x) :
    x.isFinite = true := by
  rw [ofMagnitude?] at h
  split at h
  · obtain rfl := Option.some.inj h
    simp only [isFinite, decide_eq_true_eq]
    omega
  · cases h

/-- A number made from a ratio is finite. -/
theorem isFinite_of_ofRatio? {num den : Nat} (h : ofRatio? negative num den = some x) :
    x.isFinite = true := by
  rw [ofRatio?] at h
  by_cases hnum : num = 0
  · rw [if_pos hnum] at h
    exact Option.some.inj h ▸ isFinite_zero negative
  · rw [if_neg hnum] at h
    exact isFinite_of_ofMagnitude? h

/-- A finite number stays finite when it is scaled up, if that succeeds. -/
theorem isFinite_of_raise? {k : Nat} (hx : x.isFinite = true) (h : x.raise? k = some y) :
    y.isFinite = true := by
  rw [raise?] at h
  split_ifs at h
  · exact isFinite_of_ofRatio? h
  · exact Option.some.inj h ▸ hx

/-- A finite number stays finite when it is scaled down, if that succeeds. -/
theorem isFinite_of_lower? {k : Nat} (hx : x.isFinite = true) (h : x.lower? k = some y) :
    y.isFinite = true := by
  induction k using Nat.strong_induction_on generalizing x with
  | _ k ih =>
    rw [lower?] at h
    split_ifs at h with hk
    · exact isFinite_of_ofRatio? h
    · exact Option.some.inj h ▸ hx
    · obtain ⟨z, hz, h⟩ := Option.bind_eq_some_iff.1 h
      exact ih (k - maxPowerOfTen) (by rw [maxPowerOfTen] at hk ⊢; omega) (isFinite_of_ofRatio? hz) h

/-- A number made from a coefficient and a power is finite. -/
theorem isFinite_of_ofParts? {c : Nat} {p : Int} (h : ofParts? negative c p = some x) :
    x.isFinite = true := by
  obtain ⟨z, hz, h⟩ := Option.bind_eq_some_iff.1 h
  split_ifs at h
  · exact isFinite_of_raise? (isFinite_of_ofRatio? hz) h
  · exact isFinite_of_lower? (isFinite_of_ofRatio? hz) h

end Binary64
end Decimal

namespace Json

open Decimal (Binary64)

namespace Reader

/-- All that is read has a property. -/
def Yields {α : Type} (P : α → Prop) (read : Reader α) : Prop :=
  ∀ s v rest, read s = .ok (v, rest) → P v

variable {α : Type} {P : α → Prop} {negative : Bool} {c : Nat} {p : Int}

/-- Finishing a number makes a finite one. -/
theorem finish_yields : Yields (·.isFinite = true) (finish negative c p) := by
  intro s x rest h
  rw [finish] at h
  cases hx : Binary64.ofParts? negative c p with
  | none => rw [hx] at h; cases h
  | some y =>
    rw [hx] at h
    obtain ⟨rfl, rfl⟩ := Prod.mk.inj (Except.ok.inj h)
    exact Binary64.isFinite_of_ofParts? hx

/-- A number with its exponent read is finite. -/
theorem exponentPart_yields : Yields (·.isFinite = true) (exponentPart negative c p) := by
  intro s x rest h
  rw [exponentPart.eq_def] at h
  split at h
  · exact finish_yields _ _ _ h
  · split_ifs at h
    · split at h
      rename_i down r _
      cases r with
      | nil => cases h
      | cons d r =>
        dsimp only at h
        by_cases hd : d.isDigit = true
        · rw [if_pos hd] at h
          cases hover : overLimit? 0 (d :: r) with
          | none =>
            rw [hover] at h
            exact finish_yields _ _ _ h
          | some excess =>
            rw [hover] at h
            dsimp only at h
            by_cases hc : c ≠ 0 ∧ down = false
            · rw [if_pos hc] at h
              cases h
            · rw [if_neg hc] at h
              obtain ⟨rfl, rfl⟩ := Prod.mk.inj (Except.ok.inj h)
              exact Binary64.isFinite_zero negative
        · rw [if_neg hd] at h
          cases h
    · exact finish_yields _ _ _ h

/-- A number with its decimals read is finite. -/
theorem fractionPart_yields : Yields (·.isFinite = true) (fractionPart negative c p) := by
  intro s x rest h
  rw [fractionPart.eq_def] at h
  split at h
  · dsimp only at h
    split_ifs at h
    · split at h <;> cases h
    · exact exponentPart_yields _ _ _ h
  · exact exponentPart_yields _ _ _ h

/-- Every number that is read is finite. -/
theorem number_yields : Yields (·.isFinite = true) (number negative) := by
  intro s x rest h
  rw [number.eq_def] at h
  split at h
  · cases h
  · split at h
    · exact fractionPart_yields _ _ _ h
    · split_ifs at h
      · cases h
      · exact fractionPart_yields _ _ _ h
  · split_ifs at h
    · exact fractionPart_yields _ _ _ h
    · cases h

/-! ## Sequences -/

/-- If each item that is read has a property, so has each of several. -/
theorem items_yields {b : Brackets} {item : Reader α} (h : Yields P item) (fuel : Nat) :
    Yields (fun vs => ∀ v ∈ vs, P v) (items b item fuel) := by
  induction fuel with
  | zero => exact fun _ _ _ hr => by cases hr
  | succ fuel ih =>
    intro s vs rest hr
    rw [items] at hr
    cases hi : item s with
    | error e => rw [hi] at hr; cases hr
    | ok found =>
      obtain ⟨v, s⟩ := found
      have hv := h _ _ _ hi
      rw [hi] at hr
      dsimp only at hr
      split at hr
      · cases hr
      · split_ifs at hr
        · obtain ⟨rfl, rfl⟩ := Prod.mk.inj (Except.ok.inj hr)
          exact List.forall_mem_singleton.2 hv
        · split at hr
          · cases hr
          · rename_i d r _
            split_ifs at hr
            · cases hr
            · cases hs : items b item fuel (d :: r) with
              | error e => rw [hs] at hr; cases hr
              | ok found =>
                rw [hs] at hr
                obtain ⟨rfl, rfl⟩ := Prod.mk.inj (Except.ok.inj hr)
                exact List.forall_mem_cons.2 ⟨hv, ih _ _ _ hs⟩
        · cases hr

/-- If each item that is read has a property, so has each one in a sequence. -/
theorem sequence_yields {b : Brackets} {item : Reader α} (h : Yields P item) (fuel : Nat) :
    Yields (fun vs => ∀ v ∈ vs, P v) (sequence b fuel item) := by
  intro s vs rest hr
  rw [sequence] at hr
  split at hr
  · cases hr
  · split_ifs at hr
    · obtain ⟨rfl, rfl⟩ := Prod.mk.inj (Except.ok.inj hr)
      exact List.forall_mem_nil _
    · exact items_yields h fuel _ _ _ hr

/-- If each value that is read has a property, so has the value of a member. -/
theorem member_yields {value : Reader α} (h : Yields P value) :
    Yields (fun e : String × α => P e.2) (member value) := by
  intro s e rest hr
  rw [member.eq_def] at hr
  split at hr
  · split at hr
    · cases hr
    · split at hr
      · split at hr
        · cases hr
        · rename_i hv
          obtain ⟨rfl, rfl⟩ := Prod.mk.inj (Except.ok.inj hr)
          exact h _ _ _ hv
      · cases hr
      · cases hr
  · cases hr

/-- What is read and then changed. -/
theorem of_map {β : Type} {Q : β → Prop} {read : Reader α} {f : α → β} {s rest : List Char} {w : β}
    (h : Yields P read) (hf : ∀ v, P v → Q (f v))
    (hr : (read s).map (fun (v, rest) => (f v, rest)) = .ok (w, rest)) : Q w := by
  cases hs : read s with
  | error e => rw [hs] at hr; cases hr
  | ok found =>
    rw [hs] at hr
    obtain ⟨rfl, rfl⟩ := Prod.mk.inj (Except.ok.inj hr)
    exact hf _ (h _ _ _ hs)

/-! ## Values -/

/-- A value has finite numbers only, is no deeper than a limit and is its own canonical form. -/
structure Within (k : Nat) (v : Value) : Prop where
  depth : v.depth ≤ k
  finite : v.Finite
  canonical : v.canonical = v

variable {k fuel : Nat} {items : List Value} {members : List (String × Value)}

/-- A value that is neither a number, nor a list, nor an object is within every limit. -/
theorem within_scalar {v : Value} (hd : v.depth = 0) (hv : ∀ n, v ≠ .number n) : Within k v := by
  refine ⟨hd ▸ Nat.zero_le k, fun n hn => ?_, ?_⟩
  · cases hn with
    | self => exact absurd rfl (hv n)
    | item => exact absurd hd (Nat.succ_ne_zero _)
    | member => exact absurd hd (Nat.succ_ne_zero _)
  · cases v with
    | number n => exact absurd rfl (hv n)
    | array => exact absurd hd (Nat.succ_ne_zero _)
    | object => exact absurd hd (Nat.succ_ne_zero _)
    | _ => rfl

/-- A finite number is within every limit. -/
theorem within_number {n : Binary64} (hn : n.isFinite = true) : Within k (.number n) :=
  ⟨Nat.zero_le k, fun _ h => by cases h; exact hn, by rw [Value.canonical, if_pos hn]⟩

/-- A list is within the next limit if its items are within the one before. -/
theorem within_array (h : ∀ v ∈ items, Within k v) : Within (k + 1) (.array items) where
  depth := Nat.succ_le_succ (Value.depthItems_le.2 fun v hv => (h v hv).depth)
  finite n hn := by
    cases hn with
    | item hv hn => exact (h _ hv).finite n hn
  canonical := Value.canonical_array_eq fun v hv => (h v hv).canonical

/-- An object is within the next limit, sorted, if its values are within the one before. -/
theorem within_object (h : ∀ e ∈ members, Within k e.2) :
    Within (k + 1) (.object (Named.sorted members)) where
  depth := Nat.succ_le_succ <| Value.depthMembers_le.2 fun e he =>
    (h e (Named.mem_of_mem_sorted he)).depth
  finite n hn := by
    cases hn with
    | member hv hn => exact (h _ (Named.mem_of_mem_sorted hv)).finite n hn
  canonical := Value.canonical_sorted_eq fun e he => (h e he).canonical

/-- A word is read as the value it stands for. -/
theorem word_yields (v : α) (letters : List Char) : Yields (· = v) (word v letters) := by
  induction letters with
  | nil =>
    intro s w rest h
    exact (Prod.mk.inj (Except.ok.inj h)).1.symm
  | cons c letters ih =>
    intro s w rest h
    cases s with
    | nil => cases h
    | cons d s =>
      rw [word] at h
      split_ifs at h
      · exact ih _ _ _ h
      · cases h

/-- A value is within the limit if those inside it are within the one before. -/
theorem valueWith_yields {inside : Option (Reader Value)}
    (h : ∀ read, inside = some read → ∃ j, k = j + 1 ∧ Yields (Within j) read) :
    Yields (Within k) (valueWith fuel inside) := by
  intro s v rest hr
  have hword : ∀ {w : Value} {letters r : List Char}, word w letters r = .ok (v, rest) → v = w :=
    fun hw => word_yields _ _ _ _ _ hw
  rw [valueWith] at hr
  split at hr
  · cases hr
  · exact hword hr ▸ within_scalar rfl nofun
  · exact hword hr ▸ within_scalar rfl nofun
  · exact hword hr ▸ within_scalar rfl nofun
  · exact of_map number_yields (fun _ => within_number) hr
  · exact of_map (f := fun cs => Value.string (String.ofList cs)) (P := fun _ => True)
      (fun _ _ _ _ => trivial) (fun _ _ => within_scalar rfl fun _ => nofun) hr
  · cases inside with
    | none => cases hr
    | some read =>
      obtain ⟨j, rfl, hread⟩ := h read rfl
      exact of_map (sequence_yields hread fuel) (fun _ => within_array) hr
  · cases inside with
    | none => cases hr
    | some read =>
      obtain ⟨j, rfl, hread⟩ := h read rfl
      exact of_map (sequence_yields (member_yields hread) fuel) (fun _ => within_object) hr
  · split_ifs at hr
    · exact of_map number_yields (fun _ => within_number) hr
    · cases hr

/-- A value that is read is within the limit on how deep it may be. -/
theorem value_yields (fuel k : Nat) : Yields (Within k) (value fuel k) := by
  induction k with
  | zero => exact valueWith_yields nofun
  | succ k ih => exact valueWith_yields fun read hr => ⟨k, rfl, Option.some.inj hr ▸ ih⟩

end Reader

/-- **What is read is limited.** -/
theorem within_of_parse {text : String} {v : Value} (h : parse text = .ok v) :
    Reader.Within maxDepth v := by
  rw [parse] at h
  cases hr : Reader.value text.toList.length maxDepth text.toList with
  | error e => rw [hr] at h; cases h
  | ok found =>
    obtain ⟨w, r⟩ := found
    rw [hr] at h
    dsimp only at h
    split at h
    · exact Except.ok.inj h ▸ Reader.value_yields _ _ _ _ _ hr
    · cases h

end Json
end PageBinding
