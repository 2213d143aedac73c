/-
# The round trip of data through text

What files keep of a value is its canonical form (`parse_render_iff`).  That is told by what
it does at each level (`Canonicalizes`), and nothing else does so
(`canonicalizes_iff`): numbers that are not finite become null, and of the members of one
name the last is kept, the names being in the order of their bytes.

The literals of numbers are put together in steps when they are read, and may end at a
neighbour of the number.  A number whose literal does so comes back as another one, so the
trip ends at the canonical form just if there is none in it.  For this a reader has to be
followed also where it does not read back what was written (`ReadsOnly`): it still ends where
that ends.
-/

import PageBinding.Proofs.Json.Limits
import PageBinding.Proofs.Json.Rereading
import PageBinding.Proofs.Results
import PageBinding.Proofs.Text.ByteOrder

namespace PageBinding
namespace Json
namespace Reader

variable {α : Type} {b : Brackets} {item : Reader α} {write : α → List Char} {vs ws : List α}
  {R : α → α → Prop} {fuel : Nat} {rest r : List Char} {v : α}

/-- What is read at an item, if anything, ends where the item ends, and is related to it. -/
def ReadsOnly (item : Reader α) (write : α → List Char) (R : α → α → Prop) (v : α) : Prop :=
  ∀ rest w r, Ended rest → item (write v ++ rest) = .ok (w, r) → r = rest ∧ R v w

/-- What is read of items, if anything, ends where they end, and each one is related to its own. -/
theorem items_only (hb : b.Plain) (h : ∀ v ∈ vs, ReadsOnly item write R v)
    (hbegins : ∀ v ∈ vs, Begins b write v) (hne : vs ≠ [])
    (hr : items b item fuel ([','].intercalate (vs.map write) ++ b.close :: rest) = .ok (ws, r)) :
    r = rest ∧ List.Forall₂ R vs ws := by
  induction vs generalizing fuel ws with
  | nil => exact absurd rfl hne
  | cons v vs ih =>
    cases fuel with
    | zero => cases hr
    | succ fuel =>
      obtain ⟨hv, hvs⟩ := List.forall_mem_cons.1 h
      cases vs with
      | nil =>
        rw [List.map_cons, List.map_nil, List.intercalate_singleton] at hr
        cases hi : item (write v ++ b.close :: rest) with
        | error e => rw [items, hi] at hr; cases hr
        | ok found =>
          obtain ⟨hend, hR⟩ := hv (b.close :: rest) found.1 found.2 hb.2.2 hi
          rw [items_last hb (hi.trans (congrArg _ (Prod.ext rfl hend)))] at hr
          obtain ⟨rfl, rfl⟩ := Prod.mk.inj (Except.ok.inj hr)
          exact ⟨rfl, .cons hR .nil⟩
      | cons v' vs =>
        have hbegins' := fun v hv => hbegins v (List.mem_cons_of_mem _ hv)
        obtain ⟨c, t, ht, hc, hclose⟩ := intercalate_begins hbegins' (List.cons_ne_nil v' vs)
        have hended : ∀ t, Ended (',' :: t) := fun t => by simp [Ended]
        have hrest : ∀ ws, items b item fuel
            ([','].intercalate ((v' :: vs).map write) ++ b.close :: rest) = .ok (ws, r) →
              r = rest ∧ List.Forall₂ R (v' :: vs) ws := fun ws =>
          ih hvs hbegins' (List.cons_ne_nil v' vs)
        rw [intercalate_next] at hr
        rw [ht, List.cons_append] at hr hrest
        cases hi : item (write v ++ ',' :: c :: (t ++ b.close :: rest)) with
        | error e => rw [items, hi] at hr; cases hr
        | ok found =>
          obtain ⟨hend, hR⟩ := hv _ found.1 found.2 (hended _) hi
          rw [items_next hb hc hclose (hi.trans (congrArg _ (Prod.ext rfl hend)))] at hr
          cases hs : items b item fuel (c :: (t ++ b.close :: rest)) with
          | error e => rw [hs] at hr; cases hr
          | ok others =>
            rw [hs] at hr
            obtain ⟨rfl, rfl⟩ := Prod.mk.inj (Except.ok.inj hr)
            obtain ⟨rfl, hall⟩ := hrest _ hs
            exact ⟨rfl, .cons hR hall⟩

/-- What is read of a sequence, if anything, ends where it ends, and each item is related to its
own. -/
theorem sequence_only (hb : b.Plain) (h : ∀ v ∈ vs, ReadsOnly item write R v)
    (hbegins : ∀ v ∈ vs, Begins b write v)
    (hr : sequence b fuel item ([','].intercalate (vs.map write) ++ b.close :: rest) = .ok (ws, r)) :
    r = rest ∧ List.Forall₂ R vs ws := by
  rcases eq_or_ne vs [] with rfl | hne
  · rw [sequence, List.map_nil, List.intercalate_nil, List.nil_append, skipSpace_cons hb.1] at hr
    simp only [if_true] at hr
    obtain ⟨rfl, rfl⟩ := Prod.mk.inj (Except.ok.inj hr)
    exact ⟨rfl, .nil⟩
  · obtain ⟨c, t, ht, hc, hclose⟩ := intercalate_begins hbegins hne
    refine items_only hb h hbegins hne (show items b item fuel _ = _ from ?_)
    rw [ht, List.cons_append] at hr ⊢
    rw [sequence, skipSpace_cons hc] at hr
    simpa only [if_neg hclose] using hr

end Reader

namespace Value

open Reader (Ended CorrectlyRounded ReadsOnly)

variable {v w : Value} {fuel k : Nat}

/-- The numbers in a value are those of their literals. -/
def Rounded (v : Value) : Prop := ∀ n, Inside v (.number n) → CorrectlyRounded n

/-- A member that is read has the name that was written. -/
theorem member_only {value : Reader Value} {e : String × Value}
    (h : ReadsOnly value write (fun v w => w = v → v.Rounded) e.2) :
    ReadsOnly (Reader.member value) writeMember
      (fun e f => f.1 = e.1 ∧ (f.2 = e.2 → e.2.Rounded)) e := by
  intro rest f r hrest hr
  rw [writeMember, List.append_assoc, List.cons_append, Reader.member_eq] at hr
  cases hv : value (e.2.write ++ rest) with
  | error e => rw [hv] at hr; cases hr
  | ok found =>
    rw [hv] at hr
    obtain ⟨hend, hround⟩ := h rest found.1 found.2 hrest hv
    obtain ⟨rfl, rfl⟩ := Prod.mk.inj (Except.ok.inj hr)
    exact ⟨hend, rfl, hround⟩

/-- What is read where a value was written, which has no number in it. -/
theorem only_of_read {read : Except Reader.Failure (Value × List Char)} {rest r : List Char}
    (hread : read = .ok (v, rest)) (hnone : ∀ n, ¬ Inside v (.number n)) (hr : read = .ok (w, r)) :
    r = rest ∧ (w = v → v.Rounded) := by
  obtain ⟨rfl, rfl⟩ := Prod.mk.inj (Except.ok.inj (hread.symm.trans hr))
  exact ⟨rfl, fun _ n hn => absurd hn (hnone n)⟩

/-- What is read where a number was written is the number only if its literal is rounded
correctly. -/
theorem number_only {n : Decimal.Binary64} (hn : n.isFinite = true) :
    ReadsOnly (Reader.value fuel k) write (fun v w => w = v → v.Rounded) (.number n) := by
  intro rest w r hrest hr
  obtain ⟨inside, hinside⟩ := value_eq fuel k
  rw [hinside, write, Reader.valueWith_ofBinary64 fuel inside hn hrest] at hr
  obtain ⟨found, hx, hfound⟩ := exists_of_map_ok hr
  obtain ⟨hend, hround⟩ := Reader.of_readLiteral hn hx
  obtain ⟨rfl, rfl⟩ := Prod.mk.inj hfound
  refine ⟨hend, fun hw m hm => ?_⟩
  cases hm
  exact hround (number.inj hw)

/-- What is read where a list was written is the list only if each item may be read as what it
was. -/
theorem array_only {items : List Value} (hfinite : (array items).Finite)
    (h : ∀ v ∈ items, ReadsOnly (Reader.value fuel k) write (fun v w => w = v → v.Rounded) v) :
    ReadsOnly (Reader.value fuel (k + 1)) write (fun v w => w = v → v.Rounded) (.array items) := by
  intro rest w r _ hr
  rw [write_array, List.cons_append, List.append_assoc, List.singleton_append] at hr
  obtain ⟨found, hs, hfound⟩ := exists_of_map_ok (r := Reader.sequence Reader.listBrackets fuel
    (Reader.value fuel k) ([','].intercalate (items.map write) ++ ']' :: rest)) hr
  obtain ⟨rfl, rfl⟩ := Prod.mk.inj hfound
  obtain ⟨hend, hall⟩ := Reader.sequence_only Reader.plain_listBrackets h
    (fun v hv => write_begins (hfinite.of_inside (.item hv (.self v)))) hs
  refine ⟨hend, fun he n hn => ?_⟩
  rw [array.inj he] at hall
  cases hn with
  | item hv hn => exact List.forall₂_same.1 hall _ hv rfl n hn

/-- What is read where an object was written, in the order of its names, is the object only if
each member may be read as what it was. -/
theorem object_only {members : List (String × Value)} (hsorted : Named.Increasing members)
    (h : ∀ e ∈ members, ReadsOnly (Reader.value fuel k) write (fun v w => w = v → v.Rounded) e.2) :
    ReadsOnly (Reader.value fuel (k + 1)) write (fun v w => w = v → v.Rounded)
      (.object members) := by
  intro rest w r _ hr
  rw [write_object, List.cons_append, List.append_assoc, List.singleton_append] at hr
  obtain ⟨found, hs, hfound⟩ := exists_of_map_ok (r := Reader.sequence Reader.objectBrackets fuel
    (Reader.member (Reader.value fuel k))
    ([','].intercalate (members.map writeMember) ++ '\x7d' :: rest)) hr
  obtain ⟨rfl, rfl⟩ := Prod.mk.inj hfound
  obtain ⟨hend, hall⟩ := Reader.sequence_only Reader.plain_objectBrackets
    (fun e he => member_only (h e he)) (fun e _ => ⟨'\"', _, rfl, rfl, by decide⟩) hs
  refine ⟨hend, fun he n hn => ?_⟩
  -- The names come back, so what is read is in their order as it is.
  have hincreasing : Named.Increasing found.1 := by
    have hnames := Named.map_fst_eq (hall.imp fun _ _ h => h.1)
    rw [Named.Increasing, ← List.pairwise_map (f := Prod.fst), hnames, List.pairwise_map]
    exact hsorted
  rw [Named.sorted_of_increasing hincreasing] at he
  rw [object.inj he] at hall
  cases hn with
  | member hm hn => exact (List.forall₂_same.1 hall _ hm).2 rfl n hn

/-- **What is read where a value was written** ends where that ends, and it is the value only
if the numbers in this are rounded correctly. -/
theorem value_only (hfinite : v.Finite)
    (hsorted : ∀ members, Inside v (.object members) → Named.Increasing members) (fuel k : Nat) :
    ReadsOnly (Reader.value fuel k) write (fun v w => w = v → v.Rounded) v := by
  obtain ⟨inside, hinside⟩ := value_eq fuel k
  induction v using induction_up generalizing k inside with
  | null =>
    intro rest w r _ hr
    rw [hinside] at hr
    exact only_of_read rfl (fun n hn => by cases hn) hr
  | bool b =>
    intro rest w r _ hr
    rw [hinside] at hr
    cases b <;> exact only_of_read rfl (fun n hn => by cases hn) hr
  | string s =>
    intro rest w r _ hr
    rw [hinside, write] at hr
    exact only_of_read (valueWith_string fuel inside s rest) (fun n hn => by cases hn) hr
  | number n => exact number_only (hfinite n (.self _))
  | array items ih =>
    cases k with
    | zero =>
      intro rest w r _ hr
      rw [write_array, List.cons_append] at hr
      cases hr
    | succ k =>
      refine array_only hfinite fun v hv => ?_
      obtain ⟨inside, hinside⟩ := value_eq fuel k
      exact ih v hv (hfinite.of_inside (.item hv (.self v)))
        (fun members hm => hsorted members (.item hv hm)) k inside hinside
  | object members ih =>
    cases k with
    | zero =>
      intro rest w r _ hr
      rw [write_object, List.cons_append] at hr
      cases hr
    | succ k =>
      refine object_only (hsorted members (.self _)) fun e he => ?_
      obtain ⟨inside, hinside⟩ := value_eq fuel k
      exact ih e he (hfinite.of_inside (.member he (.self e.2)))
        (fun members hm => hsorted members (.member he hm)) k inside hinside

/-- **The text of a value is read as the canonical form of it just if** the numbers in that are
rounded correctly. -/
theorem parse_render_iff (hdepth : v.depth ≤ maxDepth) :
    parse v.render = .ok v.canonical ↔ v.canonical.Rounded := by
  refine ⟨fun h => ?_, parse_render_of_rounded hdepth⟩
  rw [parse, render, String.toList_ofList] at h
  cases hr : Reader.value v.canonical.write.length maxDepth v.canonical.write with
  | error e => simp only [hr] at h; cases h
  | ok found =>
    simp only [hr] at h
    split at h
    · have hended : Ended [] := by simp [Ended]
      have honly := value_only (v := v.canonical) (fun n hn => (number_canonical hn).2)
        (fun members hm => increasing_canonical hm) v.canonical.write.length maxDepth
      have hread := honly [] found.1 found.2 hended
      rw [List.append_nil] at hread
      exact (hread hr).2 (Except.ok.inj h)
    · cases h

/-! ## Canonical forms -/

/-- **What a canonical form is:** at each level, numbers that are not finite are null, of the
members of one name the last one is kept, and they are in the order of the bytes of their
names.  All else is as it was. -/
structure Canonicalizes (canon : Value → Value) : Prop where
  null : canon .null = .null
  bool : ∀ b, canon (.bool b) = .bool b
  string : ∀ s, canon (.string s) = .string s
  finite : ∀ n, n.isFinite = true → canon (.number n) = .number n
  other : ∀ n, n.isFinite = false → canon (.number n) = .null
  array : ∀ items, canon (.array items) = .array (items.map canon)
  object : ∀ members, ∃ kept, canon (.object members) = .object kept ∧
    (kept.Pairwise fun a b => Text.bytes a.1 < Text.bytes b.1) ∧
      ∀ name, kept.lookup name = (members.reverse.lookup name).map canon

/-- The canonical form is what it is said to be at each level. -/
theorem canonicalizes_canonical : Canonicalizes canonical where
  null := rfl
  bool _ := rfl
  string _ := rfl
  finite n hn := by rw [canonical, if_pos hn]
  other n hn := by rw [canonical, if_neg (by simp [hn])]
  array := canonical_array
  object members := by
    have hsorted := Named.increasing_sorted (members.map fun e => (e.1, e.2.canonical))
    refine ⟨_, canonical_object members, hsorted.imp Text.bytes_lt.2, fun name => ?_⟩
    rw [hsorted.lookup_eq, Named.last?_sorted, Named.last?_map, Named.last?_eq_lookup]

/-- **Canonical forms are told by what they are at each level.** -/
theorem canonicalizes_iff {canon : Value → Value} : Canonicalizes canon ↔ canon = canonical := by
  refine ⟨fun h => funext fun v => ?_, fun h => h ▸ canonicalizes_canonical⟩
  induction v using induction_up with
  | null => exact h.null
  | bool b => exact h.bool b
  | string s => exact h.string s
  | number n =>
    cases hn : n.isFinite with
    | true => rw [h.finite n hn, canonicalizes_canonical.finite n hn]
    | false => rw [h.other n hn, canonicalizes_canonical.other n hn]
  | array items ih => rw [h.array, canonical_array, List.map_congr_left ih]
  | object members ih =>
    obtain ⟨kept, hkept, hbytes, hlookup⟩ := h.object members
    have hincreasing : Named.Increasing kept := hbytes.imp Text.bytes_lt.1
    rw [hkept, canonical_object]
    refine congrArg _ (hincreasing.ext (Named.increasing_sorted _) fun name => ?_)
    rw [← hincreasing.lookup_eq, hlookup, ← Named.last?_eq_lookup, Named.last?_sorted,
      Named.last?_map]
    exact Option.map_congr fun v hv => ih (name, v) (Named.mem_of_last? hv)

/-- **The round trip of data through text** ends at the canonical form of a value, if this is not
too deep and the numbers in it are rounded correctly when they are read.  A value that was
read is its own canonical form, and a value has the text of its canonical form. -/
theorem text_round_trip :
    (∀ canon, Canonicalizes canon ↔ canon = canonical) ∧
    (∀ v : Value, v.depth ≤ 127 → (parse v.render = .ok v.canonical ↔ v.canonical.Rounded)) ∧
    (∀ text v, parse text = .ok v →
      v.canonical = v ∧ (v.Rounded → parse v.render = .ok v)) ∧
    ∀ v : Value, v.canonical.render = v.render := by
  refine ⟨fun _ => canonicalizes_iff, fun v hdepth => parse_render_iff hdepth,
    fun text v hv => ?_, fun v => ?_⟩
  · obtain ⟨hdepth, -, hcanonical⟩ := within_of_parse hv
    have hread := parse_render_iff hdepth
    rw [hcanonical] at hread
    exact ⟨hcanonical, hread.2⟩
  · rw [render, render, canonical_canonical]

/-- An object with a name twice, an empty name and a number that is none. -/
theorem text_round_trip_of_members :
    let zero : Value := .number (.ofBits 0x8000000000000000)
    let v : Value := .object [("b", .number (.ofBits 0x7ff8000000000000)), ("a", .array []),
      ("b", zero), ("", .string "\n")]
    let w : Value := .object [("", .string "\n"), ("a", .array []), ("b", zero)]
    v.canonical = w ∧ v.depth ≤ 127 ∧ w.Rounded ∧ parse v.render = .ok w ∧ w.canonical = w ∧
      parse w.render = .ok w := by
  intro zero v w
  obtain ⟨-, htrip, hread, -⟩ := text_round_trip
  have hnan : (Decimal.Binary64.ofBits 0x7ff8000000000000).isFinite = false := by decide
  have hzero : (Decimal.Binary64.ofBits 0x8000000000000000).isFinite = true := by decide
  have hab : "a" < "b" := by decide
  have hba : ¬ "b" < "a" := by decide
  have hempty : "" < "a" := by decide
  have hcanonical : v.canonical = w := by
    simp only [v, w, zero, canonical, canonicalMembers, canonicalItems, hnan, hzero, Named.sorted,
      List.foldl_cons, List.foldl_nil, Named.put, hab, hba, hempty, String.reduceEq, if_true,
      if_false, Bool.false_eq_true]
  have hrounded : w.Rounded := forall_number_iff.2 (by decide +kernel)
  have hparse : parse v.render = .ok w :=
    hcanonical ▸ (htrip v (by decide)).2 (hcanonical.symm ▸ hrounded)
  obtain ⟨hw, hagain⟩ := hread v.render w hparse
  exact ⟨hcanonical, by decide, hrounded, hparse, hw, hagain hrounded⟩

end Value
end Json
end PageBinding
