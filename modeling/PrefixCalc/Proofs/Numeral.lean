/-
# The integers that numerals spell

`Numeral.Spells` says which integer a text spells: digits in the decimal system, each counting
for its place, with at most one sign in front. It bounds neither the digits nor the zeros among
them, and it does not go through the text from the left as reading does.

Numerals are read exactly: `Numeral.integer?` finds the integer that a text spells, if there is
one. A number node therefore stands for that integer if it is in range, at either end of the
range as well, and otherwise for a failure that quotes the text.
-/

import PrefixCalc.Proofs.Arithmetic
import PrefixCalc.Value.OfTree
import PrefixCalc.Value.Printer
import Mathlib.Data.List.Induction
import Mathlib.Data.Nat.Digits.Defs

namespace PrefixCalc

namespace Numeral

/-- The natural number that decimal digits write, the last of them in the place of the
units. -/
def decimal (digits : List Char) : Nat :=
  Nat.ofDigits 10 (digits.reverse.map fun c => c.toNat - '0'.toNat)

/-- Which integer a text spells: digits, at least one, behind a sign or none. -/
inductive Spells : List Char → Int → Prop
  | unsigned {digits : List Char} : digits ≠ [] → (∀ c ∈ digits, c.isDigit) →
      Spells digits (decimal digits)
  | plus {digits : List Char} : digits ≠ [] → (∀ c ∈ digits, c.isDigit) →
      Spells ('+' :: digits) (decimal digits)
  | minus {digits : List Char} : digits ≠ [] → (∀ c ∈ digits, c.isDigit) →
      Spells ('-' :: digits) (-decimal digits)

/-! ## Reading -/

theorem decimal_concat (digits : List Char) (c : Char) :
    decimal (digits ++ [c]) = 10 * decimal digits + (c.toNat - '0'.toNat) := by
  rw [decimal, List.reverse_concat, List.map_cons, Nat.ofDigits_cons, Nat.add_comm]
  rfl

/-- Digits are worth the same from the left, where each one multiplies those before it. -/
theorem ofDigitChars_eq_decimal (digits : List Char) :
    Nat.ofDigitChars 10 digits 0 = decimal digits := by
  induction digits using List.reverseRecOn with
  | nil => rfl
  | append_singleton digits c ih =>
      rw [Nat.ofDigitChars_append, ih, decimal_concat, Nat.ofDigitChars_cons, Nat.ofDigitChars_nil]

theorem natural?_eq_some_iff {digits : List Char} {n : Nat} :
    natural? digits = some n ↔
      digits ≠ [] ∧ (∀ c ∈ digits, c.isDigit) ∧ Nat.ofDigitChars 10 digits 0 = n := by
  rw [natural?, Option.ite_none_right_eq_some, List.all_eq_true, Option.some_inj, and_assoc]

theorem natural?_of_isDigit {digits : List Char} (hne : digits ≠ [])
    (hdigits : ∀ c ∈ digits, c.isDigit) : natural? digits = some (decimal digits) :=
  natural?_eq_some_iff.2 ⟨hne, hdigits, ofDigitChars_eq_decimal digits⟩

theorem exists_natural?_of_map {digits : List Char} {f : Int → Int} {n : Int}
    (h : (natural? digits).map f = some n) : ∃ m : Nat, natural? digits = some m ∧ f m = n := by
  cases hread : natural? digits with
  | none =>
      rw [hread] at h
      cases h
  | some m =>
      rw [hread] at h
      exact ⟨m, rfl, Option.some.inj h⟩

/-- A numeral is read with the sign in front of it. -/
theorem exists_natural?_of_integer? {text : List Char} {n : Int} (h : integer? text = some n) :
    ∃ digits m, natural? digits = some m ∧
      (text = '-' :: digits ∧ n = -m ∨ (text = digits ∨ text = '+' :: digits) ∧ n = m) := by
  unfold integer? at h
  split at h
  · next digits =>
    obtain ⟨m, hread, rfl⟩ := exists_natural?_of_map h
    exact ⟨digits, m, hread, .inl ⟨rfl, rfl⟩⟩
  · next digits =>
    obtain ⟨m, hread, rfl⟩ := exists_natural?_of_map h
    exact ⟨digits, m, hread, .inr ⟨.inr rfl, rfl⟩⟩
  · obtain ⟨m, hread, rfl⟩ := exists_natural?_of_map h
    exact ⟨text, m, hread, .inr ⟨.inl rfl, rfl⟩⟩

/-- Reading finds the integer that a text spells, and no other. -/
theorem integer?_eq_some_iff {text : List Char} {n : Int} :
    integer? text = some n ↔ Spells text n := by
  refine ⟨fun h => ?_, fun h => ?_⟩
  · obtain ⟨digits, m, hread, hsign⟩ := exists_natural?_of_integer? h
    obtain ⟨hne, hdigits, rfl⟩ := natural?_eq_some_iff.1 hread
    rw [ofDigitChars_eq_decimal] at hsign
    rcases hsign with ⟨rfl, rfl⟩ | ⟨rfl | rfl, rfl⟩
    · exact .minus hne hdigits
    · exact .unsigned hne hdigits
    · exact .plus hne hdigits
  · cases h with
    | unsigned hne hdigits =>
        obtain ⟨c, rest, rfl⟩ := List.exists_cons_of_ne_nil hne
        rw [integer?_of_isDigit (hdigits c List.mem_cons_self), natural?_of_isDigit hne hdigits]
        rfl
    | plus hne hdigits =>
        rw [integer?, natural?_of_isDigit hne hdigits]
        rfl
    | minus hne hdigits =>
        rw [integer?, natural?_of_isDigit hne hdigits]
        rfl

end Numeral

/-- A text is read as a number if it spells the integer that the number is. -/
theorem Number.read?_eq_some_iff {text : String} {m : Number} :
    read? text = some m ↔ Numeral.Spells text.toList m.toInt := by
  rw [read?, Option.bind_eq_some_iff, ← Numeral.integer?_eq_some_iff]
  simp only [ofInt?_eq_some_iff, exists_eq_right']

/-! ## Number nodes -/

namespace Value

theorem ofNumeral_eq_number_iff {text : String} {m : Number} :
    ofNumeral text = .number m ↔ Numeral.Spells text.toList m.toInt := by
  rw [← Number.read?_eq_some_iff, ofNumeral]
  cases Number.read? text with
  | none => simp
  | some n => simp

/-- What spells no number is quoted by the failure that it stands for. -/
theorem ofNumeral_eq_failure {text : String}
    (h : ∀ m : Number, ¬ Numeral.Spells text.toList m.toInt) :
    ofNumeral text = .failure (Cause.badLiteral text).failure := by
  rw [ofNumeral]
  cases hread : Number.read? text with
  | none => rfl
  | some m => exact absurd (Number.read?_eq_some_iff.1 hread) (h m)

theorem ofNumeral_cases (text : String) :
    (∃ m, ofNumeral text = .number m ∧ Numeral.Spells text.toList m.toInt) ∨
    ofNumeral text = .failure (Cause.badLiteral text).failure ∧
      ∀ m : Number, ¬ Numeral.Spells text.toList m.toInt := by
  by_cases h : ∃ m : Number, Numeral.Spells text.toList m.toInt
  · obtain ⟨m, hm⟩ := h
    exact .inl ⟨m, ofNumeral_eq_number_iff.2 hm, hm⟩
  · rw [not_exists] at h
    exact .inr ⟨ofNumeral_eq_failure h, h⟩

end Value

theorem SyntaxTree.kind_eq_number {tree : SyntaxTree}
    (h : "number".toList <:+: tree.tag.toList) : tree.kind = .number := by
  rw [kind, NodeKind.ofTag, if_pos]
  exact Tag.occursIn_iff.2 h

theorem Number.exists_toInt_eq_iff {n : Int} :
    (∃ m : Number, m.toInt = n) ↔ -2 ^ 63 ≤ n ∧ n ≤ 2 ^ 63 - 1 := by
  have hrange : InRange n ↔ -2 ^ 63 ≤ n ∧ n ≤ 2 ^ 63 - 1 := by
    unfold InRange
    omega
  rw [← hrange]
  refine ⟨?_, exists_toInt_eq⟩
  rintro ⟨m, rfl⟩
  exact inRange_toInt m

/-- Numerals are read exactly. A node that is tagged as a number stands for the integer that
its text spells, with a sign or not and with any zeros in front, if that integer is in range,
and in all other cases for a failure that quotes the text. The text that a number is rendered
as stands for that number again. -/
theorem Value.numerals_are_read_exactly {tag : String} (h : "number".toList <:+: tag.toList)
    (children : List SyntaxTree) :
    (∀ (text : String) (n : Int),
      (∃ m, Value.ofTree ⟨tag, text, children⟩ = .number m ∧ m.toInt = n) ↔
        Numeral.Spells text.toList n ∧ -2 ^ 63 ≤ n ∧ n ≤ 2 ^ 63 - 1) ∧
    (∀ text : String,
      (¬ ∃ n : Int, Numeral.Spells text.toList n ∧ -2 ^ 63 ≤ n ∧ n ≤ 2 ^ 63 - 1) →
        Value.ofTree ⟨tag, text, children⟩ =
          .failure ⟨.badNumber, some ("'" ++ text ++ "' is not a valid integer")⟩) ∧
    ∀ m : Number, Value.ofTree ⟨tag, (Value.number m).render, children⟩ = .number m := by
  have hnode (text : String) : Value.ofTree ⟨tag, text, children⟩ = ofNumeral text :=
    ofTree_number (SyntaxTree.kind_eq_number h)
  refine ⟨fun text n => ?_, fun text hspells => ?_, fun m => ?_⟩
  · rw [hnode, ← Number.exists_toInt_eq_iff]
    refine ⟨?_, ?_⟩
    · rintro ⟨m, hm, rfl⟩
      exact ⟨ofNumeral_eq_number_iff.1 hm, m, rfl⟩
    · rintro ⟨htext, m, rfl⟩
      exact ⟨m, ofNumeral_eq_number_iff.2 htext, rfl⟩
  · rw [hnode]
    apply ofNumeral_eq_failure
    intro m hm
    exact hspells ⟨m.toInt, hm, Number.exists_toInt_eq_iff.1 ⟨m, rfl⟩⟩
  · rw [hnode, render, ofNumeral, Number.read?_text]

theorem Value.numerals_are_read_exactly_at_range_end :
    let node (text : String) : SyntaxTree := ⟨"expr|number|regex", text, []⟩
    "number".toList <:+: "expr|number|regex".toList ∧
      Value.ofTree (node "-0009223372036854775808") = .number Int64.minValue ∧
      Value.ofTree (node "+9223372036854775808") =
        .failure ⟨.badNumber, some "'+9223372036854775808' is not a valid integer"⟩ ∧
      Value.ofTree (node "+-5") = .failure ⟨.badNumber, some "'+-5' is not a valid integer"⟩ ∧
      (Value.number Int64.minValue).render = "-9223372036854775808" ∧
      Value.ofTree (node "-9223372036854775808") = .number Int64.minValue := by
  intro node
  have htag : "number".toList <:+: "expr|number|regex".toList :=
    Tag.occursIn_iff.1 (by decide)
  obtain ⟨hnumber, hfailure, hrender⟩ := numerals_are_read_exactly htag []
  have hleast : Numeral.integer? "-0009223372036854775808".toList =
      some (-9223372036854775808) := by decide
  have hbeyond : Numeral.integer? "+9223372036854775808".toList = some 9223372036854775808 := by
    decide
  have hsigns : Numeral.integer? "+-5".toList = none := by decide
  have htext : (Value.number Int64.minValue).render = "-9223372036854775808" := by decide
  obtain ⟨m, hm, hvalue⟩ := (hnumber "-0009223372036854775808" _).2
    ⟨Numeral.integer?_eq_some_iff.1 hleast, by omega, by omega⟩
  obtain rfl : m = Int64.minValue := Int64.toInt_inj.1 hvalue
  refine ⟨htag, hm, hfailure _ ?_, hfailure _ ?_, htext, htext ▸ hrender Int64.minValue⟩
  · rintro ⟨n, hn, -, hle⟩
    rw [← Numeral.integer?_eq_some_iff, hbeyond] at hn
    cases hn
    omega
  · rintro ⟨n, hn, -⟩
    rw [← Numeral.integer?_eq_some_iff, hsigns] at hn
    cases hn

end PrefixCalc
