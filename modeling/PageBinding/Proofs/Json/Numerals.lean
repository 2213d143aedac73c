/-
# What the text of a number says

A literal of the data is digits, decimals behind a point, and a power, the last two of which may be
missing.  It says a decimal exactly (`numeral?`), and the number nearest to that is what a reader
finds that rounds once (`nearestNumber?`).

The text of a number for people is such a literal and says the shortest decimal of the number
(`numeral?_written`), so that reader finds the number again (`nearestNumber?_display`).
-/

import PageBinding.Proofs.Json.Notation

namespace PageBinding
namespace Json

open Decimal (Binary64 Layout Numeral shortest)
open Reader (isDigit_digits isDigit_zeros)

/-- The decimals behind a point, if there is one, and what follows them. -/
def decimals? : List Char → Option (List Char × List Char)
  | '.' :: s =>
    if s.takeWhile Char.isDigit = [] then none
    else some (s.takeWhile Char.isDigit, s.dropWhile Char.isDigit)
  | s => some ([], s)

/-- The power of ten at the end of a literal. -/
def power? : List Char → Option Int
  | [] => some 0
  | c :: s =>
    let (negative, ds) := Notation.unsigned s
    if (c = 'e' ∨ c = 'E') ∧ ds ≠ [] ∧ ds.all Char.isDigit then
      some (if negative then -(Reader.ofDigits ds : Int) else Reader.ofDigits ds)
    else none

/-- The decimal that a literal without a sign says.  Only a zero may begin with `0`. -/
def numeral? (s : List Char) : Option Numeral :=
  let whole := s.takeWhile Char.isDigit
  if whole = [] ∨ whole.head? = some '0' ∧ whole ≠ ['0'] then none
  else do
    let (decimals, s) ← decimals? (s.dropWhile Char.isDigit)
    let power ← power? s
    return ⟨Reader.ofDigits (whole ++ decimals), power - decimals.length⟩

/-- The number nearest to what a literal says. -/
def nearestNumber? (text : String) : Option Binary64 :=
  let s := text.toList
  let negative : Bool := s.head? = some '-'
  (numeral? (if negative then s.tail else s)).bind fun d =>
    Binary64.ofDecimal? negative d.coefficient d.power

example : [numeral? "120".toList, numeral? "0.05".toList, numeral? "1.5e+300".toList,
    numeral? "01".toList, numeral? "1.".toList] =
      [some ⟨120, 0⟩, some ⟨5, -2⟩, some ⟨15, 299⟩, none, none] := by
  decide +kernel

variable {d : Numeral} {x : Binary64} {whole decimals tail text : List Char} {e : Int}

/-! ## The parts of a literal -/

/-- Decimals with their point. -/
def pointed : List Char → List Char
  | [] => []
  | c :: r => '.' :: c :: r

/-- Decimals, if there are any, stand behind a point. -/
theorem pointed_eq (h : decimals ≠ []) : pointed decimals = '.' :: decimals := by
  obtain ⟨c, r, rfl⟩ := List.exists_cons_of_ne_nil h
  rfl

/-- The parts of a literal without a sign. -/
structure Parts (whole decimals tail : List Char) (e : Int) : Prop where
  digits : ∀ c ∈ whole ++ decimals, c.isDigit = true
  nonempty : whole ≠ []
  zero : whole.head? = some '0' → whole = ['0']
  power : power? tail = some e

/-- A power at the end of a literal begins with no digit and no point. -/
theorem power?_head (h : power? tail = some e) : ∀ c ∈ tail.head?, c.isDigit = false ∧ c ≠ '.' := by
  cases tail with
  | nil => exact nofun
  | cons c r =>
    rw [power?, Option.ite_none_right_eq_some] at h
    rintro _ ⟨⟩
    rcases h.1.1 with rfl | rfl <;> decide

/-- Decimals with their point are read as themselves. -/
theorem decimals?_pointed (hd : ∀ c ∈ decimals, c.isDigit = true)
    (ht : ∀ c ∈ tail.head?, c.isDigit = false ∧ c ≠ '.') :
    decimals? (pointed decimals ++ tail) = some (decimals, tail) := by
  rcases eq_or_ne decimals [] with rfl | hne
  · change decimals? tail = _
    cases tail with
    | nil => rfl
    | cons c r =>
      rw [decimals?]
      rintro s hs
      exact (ht c rfl).2 (List.cons.inj hs).1
  · obtain ⟨htake, hdrop⟩ := Reader.takeWhile_digits hd fun c hc => (ht c hc).1
    rw [pointed_eq hne, List.cons_append, decimals?, htake, hdrop, if_neg hne]

/-- **The decimal of a literal** is told by its parts. -/
theorem Parts.numeral? (h : Parts whole decimals tail e) :
    numeral? (whole ++ (pointed decimals ++ tail)) =
      some ⟨Reader.ofDigits (whole ++ decimals), e - decimals.length⟩ := by
  obtain ⟨hwhole, hdecimals⟩ := List.forall_mem_append.1 h.digits
  have htail := power?_head h.power
  have hpoint : ∀ c ∈ (pointed decimals ++ tail).head?, c.isDigit = false := by
    cases decimals with
    | nil => exact fun c hc => (htail c hc).1
    | cons c r =>
      rintro _ ⟨⟩
      rfl
  obtain ⟨htake, hdrop⟩ := Reader.takeWhile_digits hwhole hpoint
  rw [Json.numeral?]
  dsimp only
  rw [htake, hdrop, if_neg (not_or.2 ⟨h.nonempty, fun hz => hz.2 (h.zero hz.1)⟩),
    decimals?_pointed hdecimals htail]
  simp only [bind, Option.bind, h.power]
  rfl

/-! ## The texts of numbers -/

/-- A text is a literal for a decimal. -/
def Tells (d : Numeral) (text : List Char) : Prop :=
  ∃ whole decimals tail e, Parts whole decimals tail e ∧
    text = whole ++ (pointed decimals ++ tail) ∧
      (⟨Reader.ofDigits (whole ++ decimals), e - decimals.length⟩ : Numeral).value = d.value

/-- A signed power is read as itself. -/
theorem power?_signedPower (he : e ≠ 0) : power? ('e' :: Layout.signedPower e) = some e := by
  have hne := Notation.digitsOf_ne_nil he
  have hall : (Numeral.digitsOf e.natAbs).all Char.isDigit = true :=
    List.all_eq_true.2 (Decimal.isDigit_of_mem_digitsOf e.natAbs)
  rw [Layout.signedPower]
  split_ifs with hneg
  · rw [power?, Notation.unsigned]
    dsimp only
    rw [if_pos ⟨.inl rfl, hne, hall⟩, if_pos rfl, Reader.ofDigits_digitsOf]
    congr 1
    omega
  · rw [power?, Notation.unsigned]
    dsimp only
    rw [if_pos ⟨.inl rfl, hne, hall⟩, if_neg Bool.false_ne_true, Reader.ofDigits_digitsOf]
    congr 1
    omega

/-- The first digit of a decimal is not zero. -/
theorem head?_digits (hc : 0 < d.coefficient) : d.digits ≠ [] ∧ d.digits.head? ≠ some '0' := by
  obtain ⟨c, r, hr, -, hfirst⟩ := Reader.digitsOf_eq_cons hc
  change d.digits = c :: r at hr
  rw [hr]
  exact ⟨List.cons_ne_nil c r, fun h => hfirst (Option.some.inj h)⟩

/-- **A positional text says its decimal.** -/
theorem Positional.tells (hc : 0 < d.coefficient) (h : Positional d text) : Tells d text := by
  obtain ⟨hne, hfirst⟩ := head?_digits hc
  have hd := isDigit_digits d
  cases h with
  | whole zeros hpower =>
    refine ⟨d.digits ++ List.replicate zeros '0', [], [], 0, ⟨?_, ?_, ?_, rfl⟩, ?_, ?_⟩
    · rw [List.append_nil]
      exact List.forall_mem_append.2 ⟨hd, isDigit_zeros zeros⟩
    · exact List.append_ne_nil_of_left_ne_nil hne _
    · rw [List.head?_append_of_ne_nil _ hne]
      exact fun hzero => absurd hzero hfirst
    · exact (List.append_nil _).symm
    · rw [List.append_nil, Reader.ofDigits_append, Reader.ofDigits_zeros, Reader.ofDigits_digits,
        List.length_replicate, Numeral.value, Numeral.value, hpower, zpow_natCast]
      simp
  | inside front back hdigits hfront hback hpower =>
    refine ⟨front, back, [], 0, ⟨hdigits ▸ hd, hfront, ?_, rfl⟩, ?_, ?_⟩
    · rw [hdigits, List.head?_append_of_ne_nil _ hfront] at hfirst
      exact fun hzero => absurd hzero hfirst
    · rw [pointed_eq hback, List.append_nil]
    · rw [← hdigits, Reader.ofDigits_digits, Numeral.value, Numeral.value, hpower, zero_sub]
  | below zeros hpower =>
    have hback : List.replicate zeros '0' ++ d.digits ≠ [] :=
      List.append_ne_nil_of_right_ne_nil _ hne
    refine ⟨['0'], List.replicate zeros '0' ++ d.digits, [], 0, ⟨?_, by decide, fun _ => rfl, rfl⟩,
      ?_, ?_⟩
    · exact List.forall_mem_append.2 ⟨List.forall_mem_singleton.2 rfl,
        List.forall_mem_append.2 ⟨isDigit_zeros zeros, hd⟩⟩
    · rw [pointed_eq hback, List.append_nil]
      rfl
    · rw [Reader.ofDigits_append, Reader.ofDigits_append, Reader.ofDigits_zeros,
        Reader.ofDigits_digits, Numeral.value, Numeral.value, hpower, List.length_append,
        List.length_replicate]
      simp [Reader.ofDigits]

/-- **A scientific text says its decimal.** -/
theorem Scientific.tells (hc : 0 < d.coefficient) (he : d.exponent ≠ 0) (h : Scientific d text) :
    Tells d text := by
  obtain ⟨-, hfirst⟩ := head?_digits hc
  have hd := isDigit_digits d
  obtain ⟨hexp, -, -⟩ := Reader.exponent_eq hc
  have hpower := power?_signedPower he
  cases h with
  | one c hdigits =>
    rw [hdigits] at hd hfirst hexp
    refine ⟨[c], [], _, _, ⟨hd, by simp, fun hzero => absurd hzero hfirst, hpower⟩, rfl, ?_⟩
    rw [List.append_nil, ← hdigits, Reader.ofDigits_digits, Numeral.value, Numeral.value]
    congr 2
    simp at hexp ⊢
    omega
  | more c r hdigits hr =>
    rw [hdigits] at hd hfirst hexp
    refine ⟨[c], r, _, _, ⟨hd, by simp, fun hzero => absurd hzero hfirst, hpower⟩, ?_, ?_⟩
    · rw [pointed_eq hr]
      rfl
    · rw [List.singleton_append, ← hdigits, Reader.ofDigits_digits, Numeral.value, Numeral.value]
      congr 2
      simp at hexp ⊢
      omega

/-- The text of a positive number tells its decimal. -/
theorem Written.tells (hc : 0 < d.coefficient) (h : Written d text) : Tells d text := by
  by_cases hplaces : -7 < d.exponent ∧ d.exponent < 21
  · exact (h.positional hplaces.1 hplaces.2).tells hc
  · exact (h.scientific (by omega)).tells hc (by omega)

/-! ## Reading exactly -/

/-- What a text says is a decimal with the same value. -/
theorem Tells.numeral? (h : Tells d text) :
    ∃ n : Numeral, numeral? text = some n ∧ n.value = d.value := by
  obtain ⟨whole, decimals, tail, e, hparts, rfl, hvalue⟩ := h
  exact ⟨_, hparts.numeral?, hvalue⟩

/-- A literal does not begin with a sign. -/
theorem Tells.head (h : Tells d text) : ∃ c r, text = c :: r ∧ c.isDigit = true := by
  obtain ⟨whole, decimals, tail, e, hparts, rfl, -⟩ := h
  obtain ⟨c, r, rfl⟩ := List.exists_cons_of_ne_nil hparts.nonempty
  exact ⟨c, _, rfl, hparts.digits c (List.mem_append_left _ (List.mem_cons_self ..))⟩

/-- **A reader that rounds once finds the number** that a literal in its interval is for. -/
theorem nearestNumber?_tells (hf : x.isFinite = true) (hz : x.isZero = false) (h : Tells d text)
    (hd : (Decimal.Span.ofBinary64 x).Covers d.value) :
    nearestNumber? (String.ofList ((if x.negative then ['-'] else []) ++ text)) = some x := by
  obtain ⟨n, hn, hvalue⟩ := h.numeral?
  obtain ⟨c, r, rfl, hc⟩ := h.head
  have hread : Binary64.ofDecimal? x.negative n.coefficient n.power = some x := by
    rw [Binary64.ofDecimal?_eq_some_iff hf hz]
    rw [← hvalue] at hd
    exact hd
  have hminus : c ≠ '-' := by
    rintro rfl
    exact absurd hc (by decide)
  rw [nearestNumber?, String.toList_ofList]
  cases hneg : x.negative with
  | true =>
    rw [hneg] at hread
    simp [hn, hread]
  | false =>
    rw [hneg] at hread
    simp [hminus, hn, hread]

/-- **The text of a number is read as that number** by a reader that rounds once. -/
theorem nearestNumber?_display (hf : x.isFinite = true) (hz : x.isZero = false) :
    nearestNumber? (displayNumber x) = some x := by
  have hc := Decimal.shortest_pos hf hz .up
  rw [displayNumber_eq hf hz]
  exact nearestNumber?_tells hf hz ((written_ofNumeral hc).tells hc)
    (Decimal.covers_shortest hz .up)

end Json
end PageBinding
