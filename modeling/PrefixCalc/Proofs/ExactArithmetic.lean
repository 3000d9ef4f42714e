/-
# Exact arithmetic on numbers

What each operation on two numbers comes to, with no reference to what the library checks
before it carries the operation out. Sums, differences and products are exact or out of
range. Quotients and remainders exist for all divisors other than zero, except that the least
number is not divided by minus one, and they are those of a division that truncates: the
quotient times the divisor and the remainder make up the dividend, and the remainder is
smaller than the divisor and has the sign of the dividend.

The dividend can therefore be computed back from the two, and the calculator does so: neither
the product nor the sum leaves the range, however close to its ends the dividend is.
-/

import PrefixCalc.Evaluator
import PrefixCalc.Proofs.Arithmetic
import PrefixCalc.Proofs.Value.FirstFailure

namespace PrefixCalc

/-- Whether an operation fails, and with a certain kind of failure. -/
def FailsWith (result : Except Cause Number) (kind : FailureKind) : Prop :=
  ∃ cause, result = .error cause ∧ cause.kind = kind

namespace Operator

variable {op : Operator} {left right : Number}

/-! ## The outcomes of an operation -/

theorem exists_apply_eq_ok_iff :
    (∃ n, op.apply left right = .ok n ∧ n.toInt = op.exact left.toInt right.toInt) ↔
      ¬ (op.divides ∧ right = 0) ∧ Number.InRange (op.checked left.toInt right.toInt) := by
  refine ⟨fun h => ?_, fun h => ?_⟩
  · obtain ⟨n, happly, -⟩ := h
    obtain ⟨hdivisor, hrange, -⟩ := apply_eq_ok_iff.1 happly
    exact ⟨hdivisor, hrange⟩
  · obtain ⟨n, hn⟩ := Number.exists_toInt_eq (inRange_exact h.2)
    exact ⟨n, apply_eq_ok_iff.2 ⟨h.1, h.2, hn⟩, hn⟩

theorem failsWith_zeroDivisor_iff :
    FailsWith (op.apply left right) .zeroDivisor ↔ op.divides ∧ right = 0 := by
  refine ⟨fun h => ?_, fun h => ⟨_, apply_eq_zeroDivisor_iff.2 h, rfl⟩⟩
  obtain ⟨cause, hcause, hkind⟩ := h
  rcases cause_of_apply_eq_error hcause with ⟨-, hzero⟩ | rfl
  · exact hzero
  · cases hkind

theorem failsWith_badNumber_iff :
    FailsWith (op.apply left right) .badNumber ↔
      ¬ (op.divides ∧ right = 0) ∧ ¬ Number.InRange (op.checked left.toInt right.toInt) := by
  refine ⟨fun h => ?_, fun h => ⟨_, apply_eq_overflow_iff.2 h, rfl⟩⟩
  obtain ⟨cause, hcause, hkind⟩ := h
  rcases cause_of_apply_eq_error hcause with ⟨rfl, -⟩ | rfl
  · cases hkind
  · exact apply_eq_overflow_iff.1 hcause

/-- What does not divide is checked for its own result. -/
theorem checked_eq_exact (h : op.divides = false) (m n : Int) :
    op.checked m n = op.exact m n := by
  cases op with
  | add | sub | mul => rfl
  | div | rem => cases h

/-- What divides is checked for the quotient. -/
theorem checked_eq_tdiv (h : op.divides) (m n : Int) : op.checked m n = m.tdiv n := by
  cases op with
  | add | sub | mul => cases h
  | div | rem => rfl

/-- The one quotient of numbers that is no number. -/
theorem not_inRange_tdiv_iff (hright : right ≠ 0) :
    ¬ Number.InRange (left.toInt.tdiv right.toInt) ↔ left = Int64.minValue ∧ right = -1 := by
  have hzero : right.toInt ≠ 0 := fun h => hright (Int64.toInt_inj.1 h)
  rw [inRange_tdiv_iff (Number.inRange_toInt left) hzero, not_not, ← Int64.toInt_inj,
    ← Int64.toInt_inj]
  rfl

/-! ## Division with remainder -/

/-- A quotient and a remainder that truncation leads to: together they restore the dividend,
and the remainder is smaller than the divisor and has the sign of the dividend. -/
structure IsDivision (dividend divisor quotient remainder : Int) : Prop where
  /-- The dividend is made up of the two. -/
  restores : quotient * divisor + remainder = dividend
  /-- The remainder is smaller than the divisor. -/
  natAbs_lt : remainder.natAbs < divisor.natAbs
  /-- The remainder has the sign of the dividend. -/
  sign : remainder = 0 ∨ remainder.sign = dividend.sign

theorem isDivision_tdiv_tmod {dividend divisor : Int} (h : divisor ≠ 0) :
    IsDivision dividend divisor (dividend.tdiv divisor) (dividend.tmod divisor) where
  restores := Int.tdiv_mul_add_tmod dividend divisor
  natAbs_lt := by
    rw [Int.natAbs_tmod]
    exact Nat.mod_lt _ (Int.natAbs_pos.2 h)
  sign := by
    rw [← Int.sign_eq_zero_iff_zero, Int.sign_tmod]
    by_cases hdvd : divisor ∣ dividend
    · exact .inl (if_pos hdvd)
    · exact .inr (if_neg hdvd)

/-- The dividend less the remainder is in range, since the remainder does not point beyond
the dividend. -/
theorem inRange_tdiv_mul {dividend divisor : Int} (h : Number.InRange dividend) :
    Number.InRange (dividend.tdiv divisor * divisor) := by
  have hrestores := Int.tdiv_mul_add_tmod dividend divisor
  have hbetween := tmod_between dividend divisor
  unfold Number.InRange at *
  omega

/-- Where a quotient exists, so does the remainder, and the dividend is computed back from
them without an overflow. -/
theorem exists_division (hzero : right ≠ 0) (hexcept : ¬ (left = Int64.minValue ∧ right = -1)) :
    ∃ quotient remainder product : Number,
      div.apply left right = .ok quotient ∧ rem.apply left right = .ok remainder ∧
      IsDivision left.toInt right.toInt quotient.toInt remainder.toInt ∧
      mul.apply quotient right = .ok product ∧ add.apply product remainder = .ok left := by
  have hrange : Number.InRange (left.toInt.tdiv right.toInt) := by
    by_contra hrange
    exact hexcept ((not_inRange_tdiv_iff hzero).1 hrange)
  obtain ⟨quotient, hquotient, hq⟩ : ∃ n, div.apply left right = .ok n ∧
      n.toInt = left.toInt.tdiv right.toInt :=
    exists_apply_eq_ok_iff.2 ⟨fun h => hzero h.2, hrange⟩
  obtain ⟨remainder, hremainder, hr⟩ : ∃ n, rem.apply left right = .ok n ∧
      n.toInt = left.toInt.tmod right.toInt :=
    exists_apply_eq_ok_iff.2 ⟨fun h => hzero h.2, hrange⟩
  have hdivision : IsDivision left.toInt right.toInt quotient.toInt remainder.toInt := by
    rw [hq, hr]
    exact isDivision_tdiv_tmod fun h => hzero (Int64.toInt_inj.1 h)
  have hproductRange : Number.InRange (quotient.toInt * right.toInt) := by
    rw [hq]
    exact inRange_tdiv_mul (Number.inRange_toInt left)
  obtain ⟨product, hproduct, hp⟩ : ∃ n, mul.apply quotient right = .ok n ∧
      n.toInt = quotient.toInt * right.toInt :=
    exists_apply_eq_ok_iff.2 ⟨fun h => Bool.false_ne_true h.1, hproductRange⟩
  have hsum : left.toInt = product.toInt + remainder.toInt := by
    rw [hp, hdivision.restores]
  have hsumRange : Number.InRange (product.toInt + remainder.toInt) := by
    rw [← hsum]
    exact Number.inRange_toInt left
  exact ⟨quotient, remainder, product, hquotient, hremainder, hdivision, hproduct,
    apply_eq_ok_iff.2 ⟨fun h => Bool.false_ne_true h.1, hsumRange, hsum⟩⟩

end Operator

/-! ## In the calculator -/

namespace Value

variable {limit level : Nat}

/-- The expression that applies an operator to two values. -/
def binary (op : Operator) (left right : Value) : Value :=
  .expression [.symbol op.symbol, left, right]

/-- An operator applied to two values that reduce to numbers is applied to the numbers. -/
theorem outcome_reduceAt_binary {op : Operator} {left right : Value} {m n : Number}
    (hlevel : level ≤ limit) (hleft : (left.reduceAt limit (level + 1)).outcome = .ok m)
    (hright : (right.reduceAt limit (level + 1)).outcome = .ok n) :
    ((binary op left right).reduceAt limit level).outcome =
      (op.apply m n).mapError Cause.failure := by
  have hnumbers : outcomesAt limit (level + 1) [left, right] = [m, n].map .ok := by
    rw [outcomesAt_cons, outcomesAt_cons, hleft, hright]
    rfl
  rw [binary, reduceAt_expression_of_le _ hlevel, Reduction.outcome_visiting, reduceItems,
    outcome_reduceOperands_of_outcomesAt hnumbers, applyNamed_symbol, List.foldlM_cons]
  cases op.apply m n <;> rfl

theorem outcome_reduceAt_binary_of_eq_ok {op : Operator} {left right : Value} {m n result : Number}
    (hlevel : level ≤ limit) (hleft : (left.reduceAt limit (level + 1)).outcome = .ok m)
    (hright : (right.reduceAt limit (level + 1)).outcome = .ok n)
    (hresult : op.apply m n = .ok result) :
    ((binary op left right).reduceAt limit level).outcome = .ok result := by
  rw [outcome_reduceAt_binary hlevel hleft hright, hresult]
  rfl

/-- The dividend as it is computed back: the quotient times the divisor, and the
remainder. -/
def restored (dividend divisor : Number) : Value :=
  binary .add
    (binary .mul (binary .div (.number dividend) (.number divisor)) (.number divisor))
    (binary .rem (.number dividend) (.number divisor))

/-- The dividend is computed back at three levels of nesting. -/
theorem outcome_reduce_restored {dividend divisor quotient remainder product : Number}
    (hlimit : 3 ≤ limit) (hquotient : Operator.div.apply dividend divisor = .ok quotient)
    (hremainder : Operator.rem.apply dividend divisor = .ok remainder)
    (hproduct : Operator.mul.apply quotient divisor = .ok product)
    (hsum : Operator.add.apply product remainder = .ok dividend) :
    ((restored dividend divisor).reduce limit).outcome = .ok dividend := by
  have hnumber (n : Number) (level : Nat) : ((number n).reduceAt limit level).outcome = .ok n := by
    rw [reduceAt_number]
    rfl
  apply outcome_reduceAt_binary_of_eq_ok (by omega) _ _ hsum
  · apply outcome_reduceAt_binary_of_eq_ok (by omega) _ (hnumber divisor 3) hproduct
    exact outcome_reduceAt_binary_of_eq_ok hlimit (hnumber dividend 4) (hnumber divisor 4)
      hquotient
  · exact outcome_reduceAt_binary_of_eq_ok (by omega) (hnumber dividend 3) (hnumber divisor 3)
      hremainder

end Value

/-- Arithmetic is exact up to the ends of the range. A sum, a difference or a product is the
exact one if that is a number, and a bad number otherwise. A quotient or a remainder fails for
a zero divisor, and for the least number divided by minus one; all others make up a division
that truncates, and the calculator computes the dividend back from them without an
overflow. -/
theorem Operator.apply_is_exact (left right : Number) :
    (∀ op ∈ [add, sub, mul],
      ((∃ n, op.apply left right = .ok n ∧ n.toInt = op.exact left.toInt right.toInt) ↔
        Number.InRange (op.exact left.toInt right.toInt)) ∧
      (FailsWith (op.apply left right) .badNumber ↔
        ¬ Number.InRange (op.exact left.toInt right.toInt))) ∧
    (∀ op ∈ [div, rem],
      (FailsWith (op.apply left right) .zeroDivisor ↔ right = 0) ∧
      (FailsWith (op.apply left right) .badNumber ↔ left = Int64.minValue ∧ right = -1)) ∧
    (right ≠ 0 → ¬ (left = Int64.minValue ∧ right = -1) →
      ∃ quotient remainder product : Number,
        div.apply left right = .ok quotient ∧ rem.apply left right = .ok remainder ∧
        IsDivision left.toInt right.toInt quotient.toInt remainder.toInt ∧
        mul.apply quotient right = .ok product ∧ add.apply product remainder = .ok left ∧
        ∀ evaluator : Evaluator, 3 ≤ evaluator.limit →
          (evaluator.eval (Value.restored left right)).1 = .number left) := by
  refine ⟨fun op hop => ?_, fun op hop => ?_, fun hzero hexcept => ?_⟩
  · have hdivides : op.divides = false := by
      revert op
      decide
    rw [exists_apply_eq_ok_iff, failsWith_badNumber_iff, checked_eq_exact hdivides, hdivides]
    simp
  · have hdivides : op.divides = true := by
      revert op
      decide
    rw [failsWith_zeroDivisor_iff, failsWith_badNumber_iff, checked_eq_tdiv hdivides, hdivides]
    refine ⟨by simp, fun h => ?_, fun h => ?_⟩
    · exact (not_inRange_tdiv_iff fun hzero => h.1 ⟨rfl, hzero⟩).1 h.2
    · have hzero : right ≠ 0 := by
        rw [h.2]
        decide
      exact ⟨fun hboth => hzero hboth.2, (not_inRange_tdiv_iff hzero).2 h⟩
  · obtain ⟨quotient, remainder, product, hquotient, hremainder, hdivision, hproduct, hsum⟩ :=
      exists_division hzero hexcept
    refine ⟨quotient, remainder, product, hquotient, hremainder, hdivision, hproduct, hsum,
      fun evaluator hlimit => ?_⟩
    rw [Evaluator.eval_fst, Value.ofOutcome_eq_number_iff]
    exact Value.outcome_reduce_restored hlimit hquotient hremainder hproduct hsum

theorem Operator.apply_is_exact_of_least_number :
    let evaluator : Evaluator := ⟨3, 0⟩
    (10 : Number) ≠ 0 ∧ ¬ (Int64.minValue = Int64.minValue ∧ (10 : Number) = -1) ∧
      div.apply Int64.minValue 10 = .ok (-922337203685477580) ∧
      rem.apply Int64.minValue 10 = .ok (-8) ∧
      (evaluator.eval (Value.restored Int64.minValue 10)).1 = .number Int64.minValue := by
  intro evaluator
  have hzero : (10 : Number) ≠ 0 := by decide
  have hexcept : ¬ (Int64.minValue = Int64.minValue ∧ (10 : Number) = -1) := by decide
  obtain ⟨-, -, hdivision⟩ := apply_is_exact Int64.minValue 10
  obtain ⟨_, _, _, -, -, -, -, -, heval⟩ := hdivision hzero hexcept
  exact ⟨hzero, hexcept, by decide, by decide, heval evaluator (Nat.le_refl 3)⟩

end PrefixCalc
