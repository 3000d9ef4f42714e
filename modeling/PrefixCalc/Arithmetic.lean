/-
# Checked arithmetic

An operator applied to two numbers gives the exact integer result or says why
there is none; nothing wraps around. The main statements are
`Operator.apply_eq_ok_iff`, which says exactly when there is a result and which,
and its two companions for the two ways to fail.
-/

import PrefixCalc.Failure

namespace PrefixCalc

namespace Operator

/-- Carry out an operation on numbers. A zero divisor is looked for first; then the
checked integer has to be in range. -/
def apply (op : Operator) (left right : Number) : Except Cause Number :=
  if op.divides ∧ right = 0 then .error .zeroDivisor
  else if Number.InRange (op.checked left.toInt right.toInt) then
    .ok (Int64.ofInt (op.exact left.toInt right.toInt))
  else .error (.overflow op left right)

/-- A remainder lies between zero and the dividend. -/
theorem tmod_between (n divisor : Int) :
    0 ≤ n ∧ 0 ≤ n.tmod divisor ∧ n.tmod divisor ≤ n ∨
      n ≤ 0 ∧ n ≤ n.tmod divisor ∧ n.tmod divisor ≤ 0 := by
  have habs := Int.natAbs_tmod n divisor
  have hle : n.natAbs % divisor.natAbs ≤ n.natAbs := Nat.mod_le _ _
  rcases Int.le_total 0 n with hpos | hneg
  · have := Int.tmod_nonneg divisor hpos
    omega
  · have hneg' := Int.tmod_nonneg divisor (Int.neg_nonneg_of_nonpos hneg)
    rw [Int.neg_tmod] at hneg'
    omega

/-- Where the checked integer is in range, so is the exact result. -/
theorem inRange_exact {op : Operator} {left : Number} {right : Int}
    (h : Number.InRange (op.checked left.toInt right)) :
    Number.InRange (op.exact left.toInt right) := by
  cases op with
  | rem =>
    have hleft := Number.inRange_toInt left
    have hbetween := tmod_between left.toInt right
    unfold Number.InRange at *
    simp only [exact]
    omega
  | add => exact h
  | sub => exact h
  | mul => exact h
  | div => exact h

/-- An operation has a result exactly when its divisor, if any, is not zero and its
checked integer is in range; the result is then the exact one. -/
theorem apply_eq_ok_iff {op : Operator} {left right result : Number} :
    op.apply left right = .ok result ↔
      ¬ (op.divides ∧ right = 0) ∧ Number.InRange (op.checked left.toInt right.toInt) ∧
        result.toInt = op.exact left.toInt right.toInt := by
  unfold apply
  split
  · next hzero => simp [hzero]
  · next hzero =>
    split
    · next hrange =>
      have hexact := Number.toInt_ofInt_of_inRange (inRange_exact hrange)
      simp only [hzero, hrange, not_false_eq_true, true_and, Except.ok.injEq]
      rw [← Int64.toInt_inj, hexact, eq_comm]
    · next hrange => simp [hrange]

/-- A zero divisor is reported exactly when there is one. -/
theorem apply_eq_zeroDivisor_iff {op : Operator} {left right : Number} :
    op.apply left right = .error .zeroDivisor ↔ op.divides ∧ right = 0 := by
  unfold apply
  split
  · next hzero => simp [hzero]
  · next hzero => split <;> simp [hzero]

/-- Everything else that has no result is an overflow. -/
theorem apply_eq_overflow_iff {op : Operator} {left right : Number} :
    op.apply left right = .error (.overflow op left right) ↔
      ¬ (op.divides ∧ right = 0) ∧ ¬ Number.InRange (op.checked left.toInt right.toInt) := by
  unfold apply
  split
  · next hzero => simp [hzero]
  · next hzero => split <;> simp_all

end Operator

/-- Apply the operator that a symbol names. -/
def applyNamed (name : String) (left right : Number) : Except Cause Number :=
  match Operator.ofSymbol? name with
  | some op => op.apply left right
  | none => .error (.unknownOperator name)

end PrefixCalc
