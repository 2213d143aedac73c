/-
# Where a path leads

A path that is not a name of the data itself is walked name by name (`Follows`), and each name
leads at most one step further down (`Leads`):

| at | a name leads to |
| --- | --- |
| an object | its last member of that name, whatever characters the name has |
| a list | the item with as many before it as the digits of the name say |
| anything else | nothing |

So a path joined of two others leads where the second one leads from what the first one leads to
(`paths_compose`).  The names of the data itself have to be left out: `.` joins two empty paths,
and `this` is a member's name when it is a part of a path.
-/

import PageBinding.Json.Path
import PageBinding.Proofs.Json.Literal
import PageBinding.Proofs.Named
import PageBinding.Proofs.Text.Splitting

namespace PageBinding
namespace Json

variable {n i : Nat} {name : List Char} {names : List (List Char)} {path : String} {v w : Value}

/-! ## Indexes -/

/-- Digits are read to their end as long as the limit allows for what they say. -/
theorem continuedIndex?_eq_some_iff (hn : n ≤ indexLimit) : continuedIndex? n name = some i ↔
    n * 10 ^ name.length + Reader.ofDigits name = i ∧ i ≤ indexLimit := by
  induction name generalizing n with
  | nil =>
    rw [continuedIndex?, Option.some.injEq, List.length_nil, pow_zero, mul_one]
    exact ⟨fun h => ⟨h, h ▸ hn⟩, fun h => h.1⟩
  | cons c r ih =>
    have hsum : n * 10 ^ (c :: r).length + Reader.ofDigits (c :: r) =
        (10 * n + (c.toNat - 48)) * 10 ^ r.length + Reader.ofDigits r := by
      rw [Reader.ofDigits_cons, List.length_cons, pow_succ]
      ring
    rw [continuedIndex?, hsum]
    by_cases hm : 10 * n + (c.toNat - 48) > indexLimit
    · -- What is over the limit stays over it.
      have hle := Nat.le_mul_of_pos_right (10 * n + (c.toNat - 48))
        (Nat.pow_pos (n := r.length) (show 0 < 10 by decide))
      rw [if_pos hm]
      exact ⟨nofun, fun h => absurd h.1 (by omega)⟩
    · rw [if_neg hm]
      exact ih (not_lt.1 hm)

/-- **An index is what its digits say, within the limit.** -/
theorem index?_eq_some_iff : index? name = some i ↔
    (name ≠ [] ∧ ∀ c ∈ name, c.isDigit = true) ∧ Reader.ofDigits name = i ∧ i ≤ indexLimit := by
  rw [index?, Option.ite_none_right_eq_some, List.all_eq_true,
    continuedIndex?_eq_some_iff (Nat.zero_le _), zero_mul, zero_add]

namespace Value

/-! ## Steps -/

/-- A name leads from a value to another one inside it. -/
inductive Leads : Value → List Char → Value → Prop
  | member {before after : List (String × Value)} {name : List Char} {w : Value} :
    (∀ e ∈ after, e.1 ≠ String.ofList name) →
      Leads (.object (before ++ (String.ofList name, w) :: after)) name w
  | item {items : List Value} {name : List Char} {i : Nat} {w : Value} :
    name ≠ [] → (∀ c ∈ name, c.isDigit = true) → Reader.ofDigits name = i → i ≤ indexLimit →
      items[i]? = some w → Leads (.array items) name w

/-- Names lead from a value to another one, each from where the one before it led to. -/
inductive Follows : Value → List (List Char) → Value → Prop
  | here (v : Value) : Follows v [] v
  | further {u v w : Value} {name : List Char} {names : List (List Char)} :
    Leads u name v → Follows v names w → Follows u (name :: names) w

/-- A path leads from a value to another one: one that names the data itself to that, and any
other one along the names between its dots. -/
inductive Resolves (v : Value) : String → Value → Prop
  | self {path : String} : isSelfPath path = true → Resolves v path v
  | along {names : List (List Char)} {path : String} {w : Value} : isSelfPath path = false →
    names ≠ [] → (∀ name ∈ names, '.' ∉ name) → path.toList = ['.'].intercalate names →
      Follows v names w → Resolves v path w

/-- A step finds a value if the name leads to it. -/
theorem step?_eq_some_iff : v.step? name = some w ↔ Leads v name w := by
  constructor
  · intro h
    cases v with
    | object members =>
      obtain ⟨before, after, rfl, hafter⟩ := Named.last?_eq_some_iff.1 h
      exact .member hafter
    | array items =>
      obtain ⟨i, hi, hw⟩ := Option.bind_eq_some_iff.1 h
      obtain ⟨⟨hne, hdigits⟩, hvalue, hlimit⟩ := index?_eq_some_iff.1 hi
      exact .item hne hdigits hvalue hlimit hw
    | _ => cases h
  · intro h
    cases h with
    | member hafter => exact Named.last?_eq_some_iff.2 ⟨_, _, rfl, hafter⟩
    | item hne hdigits hvalue hlimit hw =>
      exact Option.bind_eq_some_iff.2
        ⟨_, index?_eq_some_iff.2 ⟨⟨hne, hdigits⟩, hvalue, hlimit⟩, hw⟩

/-- Names find a value if they lead to it, one after another. -/
theorem walk?_eq_some_iff : v.walk? names = some w ↔ Follows v names w := by
  constructor
  · intro h
    induction names generalizing v with
    | nil => exact Option.some.inj h ▸ .here v
    | cons name names ih =>
      obtain ⟨u, hu, h⟩ := Option.bind_eq_some_iff.1 h
      exact .further (step?_eq_some_iff.1 hu) (ih h)
  · intro h
    induction h with
    | here => rfl
    | further hu _ ih => exact Option.bind_eq_some_iff.2 ⟨_, step?_eq_some_iff.2 hu, ih⟩

/-! ## Paths -/

/-- **What is at a path is what the path leads to.** -/
theorem resolve?_eq_some_iff : v.resolve? path = some w ↔ Resolves v path w := by
  constructor
  · intro h
    rw [resolve?] at h
    split_ifs at h with hself
    · exact Option.some.inj h ▸ .self hself
    · obtain ⟨hne, hnames, hpath⟩ := Text.splitAt_eq_iff.1 (Eq.refl (Text.splitAt '.' path.toList))
      exact .along (by simpa using hself) hne hnames hpath (walk?_eq_some_iff.1 h)
  · intro h
    cases h with
    | self hself => rw [resolve?, if_pos hself]
    | along hself hne hnames hpath hw =>
      rw [resolve?, hself, if_neg Bool.false_ne_true, Text.splitAt_eq_iff.2 ⟨hne, hnames, hpath⟩]
      exact walk?_eq_some_iff.2 hw

/-- A path that does not name the data itself is followed along the names between its dots. -/
theorem resolve?_of_not_isSelfPath (h : isSelfPath path = false) (v : Value) :
    v.resolve? path = v.walk? (Text.splitAt '.' path.toList) := by
  rw [resolve?, h, if_neg Bool.false_ne_true]

/-- The characters of two paths joined by a dot. -/
theorem toList_join (p q : String) : (p ++ "." ++ q).toList = p.toList ++ '.' :: q.toList := by
  simp

/-- Only two empty paths are joined to a path that names the data itself. -/
theorem isSelfPath_join {p q : String} (h : p ≠ "" ∨ q ≠ "") :
    isSelfPath (p ++ "." ++ q) = false := by
  rw [isSelfPath, Bool.or_eq_false_iff, decide_eq_false_iff_not, decide_eq_false_iff_not]
  constructor
  · intro heq
    have hone : p.toList ++ '.' :: q.toList = ['.'] :=
      (toList_join p q).symm.trans (congrArg String.toList heq)
    rcases List.append_eq_singleton_iff.1 hone with ⟨hp, hq⟩ | ⟨-, hq⟩
    · exact h.elim (· (String.toList_eq_nil_iff.1 hp))
        (· (String.toList_eq_nil_iff.1 (List.cons.inj hq).2))
    · cases hq
  · intro heq
    have hdot : '.' ∈ "this".toList := by
      rw [← heq, toList_join]
      exact List.mem_append_right _ (List.mem_cons_self ..)
    exact absurd hdot (by decide)

/-- **Paths compose.**  A path joined of two that do not name the data itself, and are not both
empty, leads where the second one leads from what the first one leads to.  What any path leads to
is told by its names one by one. -/
theorem paths_compose :
    (∀ (v : Value) (p q : String), isSelfPath p = false → isSelfPath q = false → p ≠ "" ∨ q ≠ "" →
      v.resolve? (p ++ "." ++ q) = (v.resolve? p).bind fun w => w.resolve? q) ∧
    ∀ (v w : Value) (path : String), v.resolve? path = some w ↔ Resolves v path w := by
  refine ⟨fun v p q hp hq hne => ?_, fun v w path => resolve?_eq_some_iff⟩
  simp only [resolve?_of_not_isSelfPath hp, resolve?_of_not_isSelfPath hq,
    resolve?_of_not_isSelfPath (isSelfPath_join hne), toList_join, Text.splitAt_append,
    walk?_append]

/-- A path through a member with an empty name, and past an item whose number fits no index. -/
theorem paths_compose_of_empty_name :
    let v : Value := .object [("a", .null), ("a", .object [("", .array [.bool true])])]
    isSelfPath "a." = false ∧ isSelfPath "0" = false ∧ ("a." ≠ "" ∨ "0" ≠ "") ∧
      v.resolve? ("a." ++ "." ++ "0") = some (.bool true) ∧
      v.resolve? ("a." ++ "." ++ "18446744073709551616") = none := by
  intro v
  have hself : isSelfPath "a." = false := by decide
  have hne : ∀ q, "a." ≠ "" ∨ q ≠ "" := fun _ => .inl (by decide)
  refine ⟨hself, by decide, hne _, ?_, ?_⟩
  · exact (paths_compose.1 v "a." "0" hself (by decide) (hne _)).trans (by rfl)
  · exact (paths_compose.1 v "a." "18446744073709551616" hself (by decide) (hne _)).trans
      (Option.isNone_iff_eq_none.1 (by decide +kernel))

end Value
end Json
end PageBinding
