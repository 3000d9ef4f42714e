/-
# Numbers and numerals

The calculator's numbers are 64-bit signed integers. An integer becomes a number
only where it fits, so nothing in the library ever wraps around: `Number.ofInt?`
answers `none` outside the range instead.

The second half is the written form. `Numeral.integer?` reads an optional sign
and a run of decimal digits of any length as an exact integer, and `Number.read?`
keeps the result if it is in range. `Number.digits` is the canonical spelling:
reading it gives the number back.
-/

namespace PrefixCalc

/-- A number of the calculator: a 64-bit signed integer. -/
abbrev Number := Int64

namespace Number

/-- The integers that are numbers: those from minus two to the sixty-third, which is
one, up to two to the sixty-third, which is none. -/
def InRange (n : Int) : Prop := -9223372036854775808 ≤ n ∧ n < 9223372036854775808

instance (n : Int) : Decidable (InRange n) :=
  inferInstanceAs (Decidable (-9223372036854775808 ≤ n ∧ n < 9223372036854775808))

theorem inRange_toInt (m : Number) : InRange m.toInt :=
  ⟨m.le_toInt, m.toInt_lt⟩

theorem toInt_ofInt_of_inRange {n : Int} (h : InRange n) : (Int64.ofInt n).toInt = n :=
  Int64.toInt_ofInt_of_le h.1 h.2

/-- The number equal to an integer, if the integer is in range. -/
def ofInt? (n : Int) : Option Number :=
  if InRange n then some (Int64.ofInt n) else none

/-- An integer is a number exactly when it is the value of one. -/
theorem ofInt?_eq_some_iff {n : Int} {m : Number} : ofInt? n = some m ↔ m.toInt = n := by
  unfold ofInt?
  constructor
  · intro h
    split at h
    · next hn => cases h; exact toInt_ofInt_of_inRange hn
    · cases h
  · rintro rfl
    rw [if_pos (inRange_toInt m), Int64.ofInt_toInt]

@[simp]
theorem ofInt?_toInt (m : Number) : ofInt? m.toInt = some m := ofInt?_eq_some_iff.2 rfl

theorem ofInt?_eq_none_iff {n : Int} : ofInt? n = none ↔ ¬ InRange n := by
  unfold ofInt?
  split <;> simp_all

end Number

namespace Numeral

/-- The value of a non-empty run of decimal digits. -/
def natural? (digits : List Char) : Option Nat :=
  if digits ≠ [] ∧ digits.all Char.isDigit then some (Nat.ofDigitChars 10 digits 0) else none

/-- The value of an optional sign followed by a non-empty run of decimal digits. -/
def integer? : List Char → Option Int
  | '-' :: digits => (natural? digits).map fun n => -(n : Int)
  | '+' :: digits => (natural? digits).map fun n => (n : Int)
  | digits => (natural? digits).map fun n => (n : Int)

end Numeral

namespace Number

/-- The number a text spells. A text that is no numeral, or spells an integer out
of range, spells no number. -/
def read? (text : String) : Option Number :=
  (Numeral.integer? text.toList).bind ofInt?

/-- The canonical decimal spelling: a minus sign if negative, no leading zeros. -/
def digits (n : Number) : List Char :=
  (if n.toInt < 0 then ['-'] else []) ++ Nat.toDigits 10 n.toInt.natAbs

/-- The canonical spelling as text. -/
def text (n : Number) : String := String.ofList n.digits

end Number

/-! ## Reading back what is written -/

namespace Numeral

theorem natural?_toDigits (n : Nat) : natural? (Nat.toDigits 10 n) = some n := by
  have hdigits : (Nat.toDigits 10 n).all Char.isDigit :=
    List.all_eq_true.2 fun _ hc =>
      Nat.isDigit_of_mem_toDigits (by decide) (by decide) hc
  rw [natural?, if_pos ⟨Nat.toDigits_ne_nil, hdigits⟩,
    Nat.ofDigitChars_toDigits (by decide) (by decide)]

/-- A numeral without a sign is read as its digits. -/
theorem integer?_of_isDigit {c : Char} {rest : List Char} (h : c.isDigit) :
    integer? (c :: rest) = (natural? (c :: rest)).map fun n => (n : Int) := by
  unfold integer?
  split
  · next heq => cases heq; exact absurd h (by decide)
  · next heq => cases heq; exact absurd h (by decide)
  · rfl

end Numeral

namespace Number

/-- The canonical spelling of a number has the number's value. -/
theorem integer?_digits (n : Number) : Numeral.integer? n.digits = some n.toInt := by
  unfold digits
  split
  · next hneg =>
    rw [List.cons_append, List.nil_append, Numeral.integer?, Numeral.natural?_toDigits]
    exact congrArg some (show -(n.toInt.natAbs : Int) = n.toInt by omega)
  · next hpos =>
    have hread := Numeral.natural?_toDigits n.toInt.natAbs
    obtain ⟨c, rest, hc⟩ : ∃ c rest, Nat.toDigits 10 n.toInt.natAbs = c :: rest :=
      List.exists_cons_of_ne_nil Nat.toDigits_ne_nil
    have hmem : c ∈ Nat.toDigits 10 n.toInt.natAbs := by simp [hc]
    have hdigit : c.isDigit := Nat.isDigit_of_mem_toDigits (by decide) (by decide) hmem
    rw [hc] at hread ⊢
    rw [List.nil_append, Numeral.integer?_of_isDigit hdigit, hread]
    exact congrArg some (show (n.toInt.natAbs : Int) = n.toInt by omega)

/-- Reading the canonical spelling gives the number back. -/
theorem read?_text (n : Number) : read? n.text = some n := by
  simp [read?, text, integer?_digits]

end Number

end PrefixCalc
