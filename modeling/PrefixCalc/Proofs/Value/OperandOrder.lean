/-
# The order of operands

Over the unbounded integers the operands of a sum or a product may change places, and so
may those of a difference or a quotient other than the first. Numbers can carry out fewer
steps in one order than in another, so an expression need not come to a number in every
order. But if it does in one, then in any other it comes to the same number or
overflows on its way; in particular no order divides by zero.

The integers come first: `foldl_exact_eq_of_reorders` says that the exact fold does not
depend on the order. For quotients this is the law that dividing twice is dividing by the
product, which holds of truncation with all signs.
-/

import PrefixCalc.Evaluator
import PrefixCalc.Proofs.Arithmetic
import PrefixCalc.Proofs.Value.FirstFailure
import Mathlib.Data.List.Perm.Basic

namespace PrefixCalc

namespace Operator

/-! ## Orders of operands -/

/-- Whether operands may be given in another order: in a sum or a product all of them may
change places, in a difference or a quotient all but the first, in a remainder none. -/
def Reorders {α : Type} : Operator → List α → List α → Prop
  | .add, operands, reordered | .mul, operands, reordered => operands.Perm reordered
  | .sub, operands, reordered | .div, operands, reordered =>
    operands.Perm reordered ∧ operands.head? = reordered.head?
  | .rem, operands, reordered => operands = reordered

variable {α β : Type} {op : Operator}

theorem Reorders.perm {operands reordered : List α} (h : op.Reorders operands reordered) :
    operands.Perm reordered := by
  cases op with
  | add | mul => exact h
  | sub | div => exact h.1
  | rem => exact .of_eq h

/-- What operands come to is given in another order if they are. -/
theorem Reorders.map {operands reordered : List α} (h : op.Reorders operands reordered)
    (f : α → β) : op.Reorders (operands.map f) (reordered.map f) := by
  cases op with
  | add | mul => exact List.Perm.map f h
  | sub | div => exact ⟨h.1.map f, by rw [List.head?_map, List.head?_map, h.2]⟩
  | rem => exact congrArg (List.map f) h

/-- The operands of a difference or a quotient, first of all. -/
theorem Reorders.eq_and_perm {first first' : α} {rest rest' : List α}
    (h : op.Reorders (first :: rest) (first' :: rest')) (hop : op ≠ .add ∧ op ≠ .mul) :
    first = first' ∧ rest.Perm rest' := by
  cases op with
  | add => exact absurd rfl hop.1
  | mul => exact absurd rfl hop.2
  | sub | div =>
      obtain ⟨hperm, hhead⟩ := h
      obtain rfl : first = first' := Option.some.inj hhead
      exact ⟨rfl, hperm.cons_inv⟩
  | rem =>
      cases h
      exact ⟨rfl, .refl rest⟩

/-! ## Exact results -/

/-- Dividing twice is dividing by the product. -/
theorem tdiv_tdiv (n a b : Int) : (n.tdiv a).tdiv b = n.tdiv (a * b) := by
  rcases Int.eq_nat_or_neg n with ⟨n, rfl | rfl⟩ <;>
    rcases Int.eq_nat_or_neg a with ⟨a, rfl | rfl⟩ <;>
    rcases Int.eq_nat_or_neg b with ⟨b, rfl | rfl⟩ <;>
    simp only [Int.neg_tdiv, Int.tdiv_neg, Int.neg_mul, Int.mul_neg, Int.neg_neg,
      ← Int.ofNat_tdiv, ← Int.natCast_mul, Nat.div_div_eq_div_mul]

/-- Apart from the remainder, operands that stand behind the first may change places. -/
theorem exact_right_comm (hop : op ≠ .rem) (total a b : Int) :
    op.exact (op.exact total a) b = op.exact (op.exact total b) a := by
  cases op with
  | add => exact Int.add_right_comm total a b
  | sub => exact sub_right_comm total a b
  | mul => exact Int.mul_right_comm total a b
  | div =>
      rw [exact, exact, exact, exact, tdiv_tdiv, tdiv_tdiv, Int.mul_comm]
  | rem => exact absurd rfl hop

theorem foldl_exact_eq_of_perm (hop : op ≠ .rem) {operands reordered : List Int}
    (h : operands.Perm reordered) (total : Int) :
    operands.foldl op.exact total = reordered.foldl op.exact total :=
  h.foldl_eq' (fun a _ b _ total => exact_right_comm hop total a b) total

/-- The exact result is the same for operands in another order. -/
theorem foldl_exact_eq_of_reorders {first first' : Int} {rest rest' : List Int}
    (h : op.Reorders (first :: rest) (first' :: rest')) :
    rest.foldl op.exact first = rest'.foldl op.exact first' := by
  cases op with
  | add =>
      -- The first operand may change places too, once it is added to zero.
      have hfold := foldl_exact_eq_of_perm (show Operator.add ≠ .rem by decide) h 0
      rwa [List.foldl_cons, List.foldl_cons, exact, exact, Int.zero_add, Int.zero_add] at hfold
  | mul =>
      have hfold := foldl_exact_eq_of_perm (show Operator.mul ≠ .rem by decide) h 1
      rwa [List.foldl_cons, List.foldl_cons, exact, exact, Int.one_mul, Int.one_mul] at hfold
  | sub | div =>
      obtain ⟨rfl, hrest⟩ := h.eq_and_perm (by decide)
      exact foldl_exact_eq_of_perm (by decide) hrest first
  | rem =>
      obtain ⟨rfl, rfl⟩ := List.cons.inj h
      rfl

/-- Where the fold of some numbers goes through, the fold of the same numbers in another
order gives the same result or overflows. -/
theorem foldlM_apply_of_reorders {first first' result : Number} {rest rest' : List Number}
    (h : op.Reorders (first :: rest) (first' :: rest'))
    (hresult : rest.foldlM op.apply first = .ok result) :
    rest'.foldlM op.apply first' = .ok result ∨
      ∃ left right, rest'.foldlM op.apply first' = .error (.overflow op left right) := by
  obtain ⟨hexact, hdivisors⟩ := exact_of_foldlM_apply_eq_ok hresult
  cases hfold : rest'.foldlM op.apply first' with
  | ok result' =>
      left
      have hexact' := (exact_of_foldlM_apply_eq_ok hfold).1
      have hsame : (rest.map Int64.toInt).foldl op.exact first.toInt =
          (rest'.map Int64.toInt).foldl op.exact first'.toInt :=
        foldl_exact_eq_of_reorders (h.map Int64.toInt)
      rw [← hexact, ← hexact', Int64.toInt_inj] at hsame
      rw [hsame]
  | error cause =>
      right
      have hdivisors' : op.divides → 0 ∉ rest' := by
        intro hdivides
        have hop : op ≠ .add ∧ op ≠ .mul := by
          constructor <;> rintro rfl <;> cases hdivides
        obtain ⟨-, hrest⟩ := h.eq_and_perm hop
        rw [← hrest.mem_iff]
        exact hdivisors hdivides
      obtain ⟨left, right, rfl⟩ := overflow_of_foldlM_apply_eq_error hdivisors' hfold
      exact ⟨left, right, rfl⟩

end Operator

namespace Value

variable {limit level : Nat} {op : Operator} {operands reordered : List Value} {n : Number}

/-! ## Operands of any kind -/

/-- Where the operands of an expression come to a number in one order, they come to the same
number or overflow in another. -/
theorem outcome_reduceOperands_of_reorders (h : op.Reorders operands reordered)
    (hn : (reduceOperands limit level op.symbol operands).outcome = .ok n) :
    (reduceOperands limit level op.symbol reordered).outcome = .ok n ∨
      ∃ left right, (reduceOperands limit level op.symbol reordered).outcome =
        .error (Cause.overflow op left right).failure := by
  -- Each operand reduces to a number of its own, whatever its place is.
  have hnumbers : ∀ operand ∈ operands, ∃ m,
      (operand.reduceAt limit level).outcome = .ok m := by
    intro operand hoperand
    obtain ⟨index, hindex⟩ := List.mem_iff_getElem?.1 hoperand
    exact exists_outcome_eq_ok_of_getElem? hn hindex
  choose! number hnumber using hnumbers
  have houtcomes := outcomesAt_eq_map_ok hnumber
  have houtcomes' : outcomesAt limit level reordered = (reordered.map number).map .ok :=
    outcomesAt_eq_map_ok fun operand hoperand =>
      hnumber operand (h.perm.mem_iff.2 hoperand)
  have hreorders := h.map number
  cases operands with
  | nil =>
      rw [reduceOperands] at hn
      cases hn
  | cons first rest =>
      cases reordered with
      | nil => exact absurd h.perm.eq_nil (List.cons_ne_nil first rest)
      | cons first' rest' =>
          rw [outcome_reduceOperands_eq_ok_iff_of_outcomesAt houtcomes, applyNamed_symbol] at hn
          rw [outcome_reduceOperands_of_outcomesAt houtcomes', applyNamed_symbol]
          rcases Operator.foldlM_apply_of_reorders hreorders hn with
            hsame | ⟨left, right, hoverflow⟩
          · left
            rw [hsame]
            rfl
          · right
            exact ⟨left, right, by rw [hoverflow]; rfl⟩

theorem outcome_reduceAt_of_reorders (h : op.Reorders operands reordered)
    (hn : ((expression (symbol op.symbol :: operands)).reduceAt limit level).outcome = .ok n) :
    ((expression (symbol op.symbol :: reordered)).reduceAt limit level).outcome = .ok n ∨
      ∃ left right, ((expression (symbol op.symbol :: reordered)).reduceAt limit level).outcome =
        .error (Cause.overflow op left right).failure := by
  obtain ⟨hlevel, name, _, hitems, houtcome⟩ := exists_operands_of_outcome_eq_ok hn
  cases hitems
  rw [reduceAt_expression_of_le _ hlevel, Reduction.outcome_visiting, reduceItems]
  exact outcome_reduceOperands_of_reorders h houtcome

end Value

/-- The order of operands matters only through overflow. Where an expression evaluates to a
number, the expression with its operands in another order evaluates to the same number or
fails with a bad number, because a step on its way overflows. All operands of a sum or a
product may change places, and all but the first of a difference or a quotient. -/
theorem Evaluator.eval_reordered (evaluator : Evaluator) {op : Operator}
    {operands reordered : List Value} {n : Number} (hreorders : op.Reorders operands reordered)
    (hn : (evaluator.eval (.expression (.symbol op.symbol :: operands))).1 = .number n) :
    let answer := (evaluator.eval (.expression (.symbol op.symbol :: reordered))).1
    answer = .number n ∨
      ∃ left right, answer = .failure ⟨.badNumber, (Cause.overflow op left right).detail⟩ := by
  intro answer
  rw [eval_fst, Value.ofOutcome_eq_number_iff] at hn
  rcases Value.outcome_reduceAt_of_reorders hreorders hn with hsame | ⟨left, right, hoverflow⟩
  · left
    exact Value.ofOutcome_eq_number_iff.2 hsame
  · right
    exact ⟨left, right, Value.ofOutcome_eq_failure_iff.2 hoverflow⟩

theorem Evaluator.eval_reordered_of_overflowing_product :
    let evaluator : Evaluator := ⟨2, 0⟩
    let zero : Value := .expression [.symbol "+", .number 2, .number (-2)]
    let operands : List Value := [.number 4611686018427387904, zero, .number 4]
    let reordered : List Value := [.number 4611686018427387904, .number 4, zero]
    let answer := (evaluator.eval (.expression (.symbol Operator.mul.symbol :: reordered))).1
    Operator.mul.Reorders operands reordered ∧
      (evaluator.eval (.expression (.symbol Operator.mul.symbol :: operands))).1 = .number 0 ∧
      answer ≠ .number 0 ∧
      ∃ left right, answer =
        .failure ⟨.badNumber, (Cause.overflow Operator.mul left right).detail⟩ := by
  intro evaluator zero operands reordered answer
  have hreorders : Operator.mul.Reorders operands reordered :=
    List.Perm.cons _ (.swap _ _ _)
  have hn : (evaluator.eval (.expression (.symbol Operator.mul.symbol :: operands))).1 =
      .number 0 := by rfl
  have hne : answer ≠ .number 0 := by decide
  have hanswer := eval_reordered evaluator hreorders hn
  exact ⟨hreorders, hn, hne, hanswer.resolve_left hne⟩

end PrefixCalc
