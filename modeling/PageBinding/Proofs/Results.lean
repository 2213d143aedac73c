/-
# Results that are values or errors

What is done with a result stops at an error, and goes on with a value (`ok_bind`).  So where all
ends in a value, each part has one (`exists_of_map_ok`, `exists_of_bind_ok`); and steps that have
a value each have values on the way through a list (`mapM_ok`, `filterM_ok`).
-/

namespace PageBinding

variable {α β ε : Type}

/-- A value is handed on to what follows. -/
@[simp] theorem ok_bind (a : α) (f : α → Except ε β) : (Except.ok a >>= f) = f a := rfl

/-- What is returned is a value. -/
@[simp] theorem pure_eq_ok (a : α) : (pure a : Except ε α) = .ok a := rfl

/-- What is left of a result without its error. -/
theorem eq_ok_of_toOption {r : Except ε α} {a : α} (h : r.toOption = some a) : r = .ok a := by
  cases r with
  | error e => cases h
  | ok b => exact congrArg Except.ok (Option.some.inj h)

/-- A result that is mapped to a value has a value itself. -/
theorem exists_of_map_ok {r : Except ε α} {f : α → β} {b : β} (h : r.map f = .ok b) :
    ∃ a, r = .ok a ∧ f a = b := by
  cases r with
  | error e => cases h
  | ok a => exact ⟨a, rfl, Except.ok.inj h⟩

/-- A result with a property that can be computed is a value. -/
theorem exists_of_map_decide {r : Except ε α} {P : α → Prop} [DecidablePred P]
    (h : r.map (fun a => decide (P a)) = .ok true) : ∃ a, r = .ok a ∧ P a := by
  obtain ⟨a, ha, hp⟩ := exists_of_map_ok h
  exact ⟨a, ha, of_decide_eq_true hp⟩

/-- What is done with a result that gives a value has a result to begin with. -/
theorem exists_of_bind_ok {r : Except ε α} {f : α → Except ε β} {b : β} (h : (r >>= f) = .ok b) :
    ∃ a, r = .ok a ∧ f a = .ok b := by
  cases r with
  | error e => cases h
  | ok a => exact ⟨a, rfl, h⟩

/-- A step that gives a value for each member gives all of them. -/
theorem mapM_ok {f : α → Except ε β} {g : α → β} {l : List α} (h : ∀ a ∈ l, f a = .ok (g a)) :
    l.mapM f = .ok (l.map g) := by
  induction l with
  | nil => rfl
  | cons a l ih =>
    rw [List.mapM_cons, h a (List.mem_cons_self ..), ih fun b hb => h b (List.mem_cons_of_mem _ hb)]
    rfl

/-- There are as many results as members. -/
theorem length_of_mapM_ok {f : α → Except ε β} {l : List α} {bs : List β}
    (h : l.mapM f = .ok bs) : bs.length = l.length := by
  induction l generalizing bs with
  | nil => rw [← Except.ok.inj h]; rfl
  | cons a l ih =>
    rw [List.mapM_cons] at h
    obtain ⟨b, -, hrest⟩ := exists_of_bind_ok h
    obtain ⟨cs, hcs, heq⟩ := exists_of_bind_ok hrest
    rw [← Except.ok.inj heq, List.length_cons, List.length_cons, ih hcs]

/-- Going through what members are mapped to is going through the members. -/
theorem mapM_map_congr {γ : Type} {f : β → Except ε γ} {g : α → Except ε γ} {h : α → β} {l : List α}
    (heq : ∀ a ∈ l, f (h a) = g a) : (l.map h).mapM f = l.mapM g := by
  induction l with
  | nil => rfl
  | cons a l ih =>
    rw [List.map_cons, List.mapM_cons, List.mapM_cons, heq a (List.mem_cons_self ..),
      ih fun b hb => heq b (List.mem_cons_of_mem _ hb)]

/-- What is done with each result is done with all of them. -/
theorem mapM_return_of_mapM {γ : Type} {f : α → Except ε β} (h : β → γ) {l : List α} {bs : List β}
    (hl : l.mapM f = .ok bs) : l.mapM (fun a => do return h (← f a)) = .ok (bs.map h) := by
  induction l generalizing bs with
  | nil =>
    obtain rfl : [] = bs := Except.ok.inj hl
    rfl
  | cons a l ih =>
    rw [List.mapM_cons] at hl
    obtain ⟨b, hb, hrest⟩ := exists_of_bind_ok hl
    obtain ⟨cs, hcs, heq⟩ := exists_of_bind_ok hrest
    obtain rfl : b :: cs = bs := Except.ok.inj heq
    rw [List.mapM_cons, hb, ih hcs]
    rfl

/-- A test that has an answer for each member keeps those that pass it. -/
theorem filterM_ok {f : α → Except ε Bool} {p : α → Bool} {l : List α}
    (h : ∀ a ∈ l, f a = .ok (p a)) : l.filterM f = .ok (l.filter p) := by
  have key : ∀ (l acc : List α), (∀ a ∈ l, f a = .ok (p a)) →
      l.filterAuxM f acc = .ok ((l.filter p).reverse ++ acc) := by
    intro l
    induction l with
    | nil => intro acc _; rfl
    | cons a l ih =>
      intro acc h
      rw [List.filterAuxM, h a (List.mem_cons_self ..), ok_bind,
        ih _ fun b hb => h b (List.mem_cons_of_mem _ hb)]
      cases hp : p a <;> simp [hp]
  rw [List.filterM, key l [] h]
  simp

end PageBinding
