/-
# Values and their canonical forms

A path leads to the same in the canonical form of a value, in canonical form
(`resolve?_canonical`); what is found is true just if it was before, and has the same text
(`truthy_canonical`, `display_canonical`), if the numbers in the value are finite.  What is in a
canonical form is the canonical form of something in the value (`inside_canonical`), so objects in
it are sorted, numbers in it are in the value, and it is no deeper.
-/

import PageBinding.Json.Path
import PageBinding.Json.Printer
import PageBinding.Proofs.Named
import PageBinding.Proofs.Template.Unbraced

namespace PageBinding
namespace Json

open Decimal (Binary64)

namespace Value

variable {v w : Value} {items : List Value} {members : List (String × Value)} {k : Nat}

/-- What holds of a value if it holds of all that is right inside it holds of all values. -/
theorem induction_up {P : Value → Prop} (null : P .null) (bool : ∀ b, P (.bool b))
    (number : ∀ n, P (.number n)) (string : ∀ s, P (.string s))
    (array : ∀ items, (∀ v ∈ items, P v) → P (.array items))
    (object : ∀ members, (∀ e ∈ members, P e.2) → P (.object members)) : ∀ v, P v
  | .null => null
  | .bool b => bool b
  | .number n => number n
  | .string s => string s
  | .array items => array items fun v _ => induction_up null bool number string array object v
  | .object members =>
    object members fun e _ => induction_up null bool number string array object e.2
decreasing_by
  all_goals have := List.sizeOf_lt_of_mem ‹_ ∈ _›
  · simp only [Value.array.sizeOf_spec]; omega
  · obtain ⟨name, w⟩ := e
    simp only [Value.object.sizeOf_spec, Prod.mk.sizeOf_spec] at this ⊢
    omega

/-! ## Depth -/

mutual

/-- How many lists and objects are around the innermost parts of a value, and it. -/
def depth : Value → Nat
  | .null => 0
  | .bool _ => 0
  | .number _ => 0
  | .string _ => 0
  | .array items => depthItems items + 1
  | .object members => depthMembers members + 1

/-- The depth of the deepest one of some items. -/
def depthItems : List Value → Nat
  | [] => 0
  | v :: r => max (depth v) (depthItems r)

/-- The depth of the deepest one of the values of some members. -/
def depthMembers : List (String × Value) → Nat
  | [] => 0
  | (_, v) :: r => max (depth v) (depthMembers r)

end

/-- Items are no deeper than a limit if each of them is. -/
theorem depthItems_le : depthItems items ≤ k ↔ ∀ v ∈ items, v.depth ≤ k := by
  induction items with
  | nil => simp [depthItems]
  | cons v r ih => simp [depthItems, ih]

/-- Members are no deeper than a limit if each value is. -/
theorem depthMembers_le : depthMembers members ≤ k ↔ ∀ e ∈ members, e.2.depth ≤ k := by
  induction members with
  | nil => simp [depthMembers]
  | cons e r ih => obtain ⟨name, v⟩ := e; simp [depthMembers, ih]

/-! ## Canonical forms -/

/-- The canonical form of an array has the canonical forms of its items. -/
theorem canonical_array (items : List Value) :
    (Value.array items).canonical = .array (items.map canonical) := by
  rw [canonical, canonicalItems_eq_map]

/-- The canonical form of an object has the canonical forms of its members, sorted by name. -/
theorem canonical_object (members : List (String × Value)) :
    (Value.object members).canonical =
      .object (Named.sorted (members.map fun e => (e.1, e.2.canonical))) := by
  rw [canonical, canonicalMembers_eq_map]

/-- An array of canonical values is canonical. -/
theorem canonical_array_eq (h : ∀ v ∈ items, v.canonical = v) :
    (Value.array items).canonical = .array items := by
  rw [canonical_array, List.map_congr_left h, List.map_id']

/-- Members that are sorted and in canonical form stay. -/
theorem canonical_sorted_eq (h : ∀ e ∈ members, e.2.canonical = e.2) :
    (Value.object (Named.sorted members)).canonical = .object (Named.sorted members) := by
  have hkept : (Named.sorted members).map (fun e => (e.1, e.2.canonical)) =
      Named.sorted members := by
    rw [List.map_congr_left (g := id) fun e he => ?_, List.map_id]
    rw [h e (Named.mem_of_mem_sorted he), id]
  rw [canonical_object, hkept, Named.sorted_of_increasing (Named.increasing_sorted _)]

/-- **A canonical form is its own canonical form.** -/
theorem canonical_canonical (v : Value) : v.canonical.canonical = v.canonical := by
  induction v using induction_up with
  | null => rfl
  | bool b => rfl
  | string s => rfl
  | number n =>
    rw [canonical]
    split_ifs with h
    · rw [canonical, if_pos h]
    · rfl
  | array items ih =>
    rw [canonical_array]
    exact canonical_array_eq (List.forall_mem_map.2 ih)
  | object members ih =>
    rw [canonical_object]
    exact canonical_sorted_eq (List.forall_mem_map.2 ih)

/-- The canonical form is no deeper than the value. -/
theorem depth_canonical (v : Value) : v.canonical.depth ≤ v.depth := by
  induction v using induction_up with
  | null => exact Nat.le_refl _
  | bool b => exact Nat.le_refl _
  | string s => exact Nat.le_refl _
  | number n =>
    rw [canonical]
    split_ifs <;> exact Nat.le_refl _
  | array items ih =>
    rw [canonical_array, depth, depth]
    refine Nat.succ_le_succ (depthItems_le.2 fun w hw => ?_)
    obtain ⟨v, hv, rfl⟩ := List.mem_map.1 hw
    exact (ih v hv).trans (depthItems_le.1 (Nat.le_refl _) v hv)
  | object members ih =>
    rw [canonical_object, depth, depth]
    refine Nat.succ_le_succ (depthMembers_le.2 fun e he => ?_)
    obtain ⟨e, hv, rfl⟩ := List.mem_map.1 (Named.mem_of_mem_sorted he)
    exact (ih e hv).trans (depthMembers_le.1 (Nat.le_refl _) e hv)

/-- What is in a canonical form is the canonical form of something in the value. -/
theorem inside_canonical (h : Inside v.canonical w) : ∃ u, Inside v u ∧ w = u.canonical := by
  obtain ⟨c, hc⟩ : ∃ c, c = v.canonical := ⟨_, rfl⟩
  rw [← hc] at h
  induction h generalizing v with
  | self => exact ⟨v, .self v, hc⟩
  | item hi _ ih =>
    cases v with
    | array items =>
      rw [canonical_array, array.injEq] at hc
      subst hc
      obtain ⟨u, hu, rfl⟩ := List.mem_map.1 hi
      obtain ⟨x, hx, he⟩ := ih rfl
      exact ⟨x, .item hu hx, he⟩
    | number n => rw [canonical] at hc; split_ifs at hc
    | _ => cases hc
  | member hi _ ih =>
    cases v with
    | object members =>
      rw [canonical_object, object.injEq] at hc
      subst hc
      obtain ⟨e, he, heq⟩ := List.mem_map.1 (Named.mem_of_mem_sorted hi)
      obtain ⟨rfl, rfl⟩ := Prod.mk.inj heq
      obtain ⟨x, hx, hxe⟩ := ih rfl
      exact ⟨x, .member he hx, hxe⟩
    | number n => rw [canonical] at hc; split_ifs at hc
    | _ => cases hc

/-- The objects in a canonical form are sorted. -/
theorem increasing_canonical (h : Inside v.canonical (.object members)) :
    Named.Increasing members := by
  obtain ⟨u, -, hu⟩ := inside_canonical h
  cases u with
  | object own =>
    rw [canonical_object, object.injEq] at hu
    exact hu ▸ Named.increasing_sorted _
  | number n => rw [canonical] at hu; split_ifs at hu
  | _ => cases hu

/-- The numbers in a canonical form are finite ones of the value. -/
theorem number_canonical {n : Binary64} (h : Inside v.canonical (.number n)) :
    Inside v (.number n) ∧ n.isFinite = true := by
  obtain ⟨u, hv, hu⟩ := inside_canonical h
  cases u with
  | number own =>
    rw [canonical] at hu
    split_ifs at hu with hfinite
    obtain rfl := number.inj hu
    exact ⟨hv, hfinite⟩
  | _ => cases hu

/-! ## What data says -/

/-- A step into the canonical form finds the canonical form of what a step finds. -/
theorem step?_canonical (v : Value) (name : List Char) :
    v.canonical.step? name = (v.step? name).map canonical := by
  cases v with
  | array items =>
    rw [canonical_array, step?, step?]
    cases index? name with
    | none => rfl
    | some i => exact List.getElem?_map ..
  | object members =>
    rw [canonical_object, step?, step?, Named.last?_sorted, Named.last?_map]
  | number n => rw [canonical]; split_ifs <;> rfl
  | _ => rfl

/-- Names lead to the canonical form of what they lead to. -/
theorem walk?_canonical (names : List (List Char)) (v : Value) :
    v.canonical.walk? names = (v.walk? names).map canonical := by
  induction names generalizing v with
  | nil => rfl
  | cons name names ih =>
    rw [walk?, walk?, step?_canonical]
    cases v.step? name with
    | none => rfl
    | some w => exact ih w

/-- **A path leads to the canonical form of what it leads to.** -/
theorem resolve?_canonical (v : Value) (path : String) :
    v.canonical.resolve? path = (v.resolve? path).map canonical := by
  rw [resolve?, resolve?]
  split_ifs
  · rfl
  · exact walk?_canonical _ v

/-! ## Numbers in a value -/

mutual

/-- The numbers in a value, as they stand. -/
def numbers : Value → List Binary64
  | .number n => [n]
  | .array items => numbersOfItems items
  | .object members => numbersOfMembers members
  | _ => []

/-- The numbers in items. -/
def numbersOfItems : List Value → List Binary64
  | [] => []
  | v :: items => numbers v ++ numbersOfItems items

/-- The numbers in members. -/
def numbersOfMembers : List (String × Value) → List Binary64
  | [] => []
  | (_, v) :: members => numbers v ++ numbersOfMembers members

end

/-- The numbers in items are those in each of them. -/
theorem numbersOfItems_eq (items : List Value) : numbersOfItems items = items.flatMap numbers := by
  induction items with
  | nil => rfl
  | cons v items ih => rw [numbersOfItems, List.flatMap_cons, ih]

/-- The numbers in members are those in each of their values. -/
theorem numbersOfMembers_eq (members : List (String × Value)) :
    numbersOfMembers members = members.flatMap fun e => numbers e.2 := by
  induction members with
  | nil => rfl
  | cons e members ih => rw [numbersOfMembers, List.flatMap_cons, ih]

/-- The numbers in a value are those inside it. -/
theorem mem_numbers {n : Binary64} : n ∈ v.numbers ↔ v.Inside (.number n) := by
  induction v using induction_up with
  | null => exact iff_of_false List.not_mem_nil fun h => by cases h
  | bool b => exact iff_of_false List.not_mem_nil fun h => by cases h
  | string s => exact iff_of_false List.not_mem_nil fun h => by cases h
  | number m =>
    rw [numbers, List.mem_singleton]
    exact ⟨fun h => h ▸ .self _, fun h => by cases h; rfl⟩
  | array items ih =>
    rw [numbers, numbersOfItems_eq, List.mem_flatMap]
    constructor
    · rintro ⟨v, hv, hn⟩
      exact .item hv ((ih v hv).1 hn)
    · rintro (_ | ⟨hv, hn⟩)
      exact ⟨_, hv, (ih _ hv).2 hn⟩
  | object members ih =>
    rw [numbers, numbersOfMembers_eq, List.mem_flatMap]
    constructor
    · rintro ⟨e, he, hn⟩
      exact .member he ((ih e he).1 hn)
    · rintro (_ | _ | ⟨he, hn⟩)
      exact ⟨_, he, (ih _ he).2 hn⟩

/-- What holds of the numbers in a value holds of those that stand in it. -/
theorem forall_number_iff {P : Binary64 → Prop} :
    (∀ n, v.Inside (.number n) → P n) ↔ ∀ n ∈ v.numbers, P n := by
  simp only [mem_numbers]

/-- All numbers in a value are finite. -/
def Finite (v : Value) : Prop := ∀ n, Inside v (.number n) → n.isFinite = true

instance : Decidable v.Finite := decidable_of_iff' _ forall_number_iff

/-- A part of a value with finite numbers has finite numbers. -/
theorem Finite.of_inside (h : v.Finite) (hw : Inside v w) : w.Finite := fun n hn => h n (hw.trans hn)

/-- The canonical form of a value with finite numbers counts as true just if the value does. -/
theorem truthy_canonical (h : v.Finite) : v.canonical.truthy = v.truthy := by
  cases v with
  | number n => rw [canonical, if_pos (h n (.self _))]
  | array items => rw [canonical_array]; rfl
  | object members => rw [canonical_object]; rfl
  | _ => rfl

/-- **A value and its canonical form have one text for people.** -/
theorem display_canonical (v : Value) (h : v.Finite) : v.canonical.display = v.display := by
  induction v using induction_up with
  | null => rfl
  | bool b => rfl
  | string s => rfl
  | number n => rw [canonical, if_pos (h n (.self _))]
  | array items ih =>
    rw [canonical_array, display, display, displayItems_eq_map, displayItems_eq_map, List.map_map]
    congr 1
    exact List.map_congr_left fun v hv => ih v hv (h.of_inside (.item hv (.self v)))
  | object members _ => rw [canonical_object]; rfl

end Value
end Json
end PageBinding
