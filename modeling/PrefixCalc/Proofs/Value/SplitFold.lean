/-
# Splitting a fold

The operands of an expression are folded from the left, so some of them, counted from the
first, may be put into an expression of their own with the same symbol: what they come to is
the total from which the others are folded. This holds of any symbol and any outcome. A
failure among the operands in front ends the inner expression and then the outer one, and a
symbol that names no operator is reported at the same combination as before, since no
expression combines a single operand.

The inner expression costs one visit more and lies one level deeper, so that there has to be
room for the operands in front. How deeply those behind nest does not matter.
-/

import PrefixCalc.Proofs.Value.FirstFailure
import PrefixCalc.Proofs.Value.NestingLimit
import Mathlib.Data.List.Forall2

namespace PrefixCalc

/-- The visit of a node may be counted before or after what follows the node. -/
theorem Reduction.visiting_bind {α β : Type} (first : Reduction α) (next : α → Reduction β) :
    first.visiting >>= next = (first >>= next).visiting := by
  ext1
  · rw [outcome_visiting, outcome_bind, outcome_bind, outcome_visiting]
  · rw [visits_visiting, visits_bind, visits_bind, outcome_visiting, visits_visiting,
      Nat.add_right_comm]

namespace Value

variable {limit level : Nat} {name : String} {front : List Value}

/-- Operands are reduced alike at two levels, if both leave room for their nesting. -/
theorem reduceOperands_eq_of_room {operands : List Value} {other otherLevel : Nat}
    (hroom : ∀ operand ∈ operands, level + operand.depth ≤ limit + 1)
    (hroom' : ∀ operand ∈ operands, otherLevel + operand.depth ≤ other + 1) :
    reduceOperands limit level name operands =
      reduceOperands other otherLevel name operands := by
  cases operands with
  | nil => rw [reduceOperands, reduceOperands]
  | cons first rest =>
      have hsame : ∀ operand ∈ first :: rest,
          operand.reduceAt limit level = operand.reduceAt other otherLevel :=
        fun operand hoperand =>
          operand.reduceAt_eq_of_room (hroom operand hoperand) (hroom' operand hoperand)
      rw [reduceOperands, reduceOperands, hsame first List.mem_cons_self]
      congr 1
      funext total
      apply foldOperands_related Reduction.isCongruence_eq
      exact List.forall₂_same.2 fun operand hoperand =>
        hsame operand (List.mem_cons_of_mem _ hoperand)

/-- Where there is room for some operands at a level, the level is within the limit. -/
theorem le_limit_of_room (hfront : front ≠ [])
    (hroom : ∀ operand ∈ front, level + operand.depth ≤ limit) : level ≤ limit := by
  obtain ⟨first, rest, rfl⟩ := List.exists_cons_of_ne_nil hfront
  exact Nat.le_of_add_right_le (hroom first List.mem_cons_self)

/-- Operands may be gathered in an expression of their own, which takes one visit. -/
theorem reduceOperands_split (hfront : front ≠ []) (back : List Value)
    (hroom : ∀ operand ∈ front, level + operand.depth ≤ limit) :
    reduceOperands limit level name (expression (symbol name :: front) :: back) =
      (reduceOperands limit level name (front ++ back)).visiting := by
  have hinner : reduceOperands limit (level + 1) name front =
      reduceOperands limit level name front := by
    refine reduceOperands_eq_of_room (fun operand hoperand => ?_) (fun operand hoperand => ?_)
    · have := hroom operand hoperand
      omega
    · have := hroom operand hoperand
      omega
  calc reduceOperands limit level name (expression (symbol name :: front) :: back)
      = (expression (symbol name :: front)).reduceAt limit level >>= fun total =>
          foldOperands limit level name total back := by rw [reduceOperands]
    _ = (reduceOperands limit level name front).visiting >>= fun total =>
          foldOperands limit level name total back := by
        rw [reduceAt_expression_of_le _ (le_limit_of_room hfront hroom), reduceItems, hinner]
    _ = (reduceOperands limit level name front >>= fun total =>
          foldOperands limit level name total back).visiting := Reduction.visiting_bind _ _
    _ = (reduceOperands limit level name (front ++ back)).visiting := by
        rw [reduceOperands_append hfront]

theorem reduceAt_split (hfront : front ≠ []) (back : List Value)
    (hroom : ∀ operand ∈ front, level + 1 + operand.depth ≤ limit) :
    (expression (symbol name :: expression (symbol name :: front) :: back)).reduceAt limit level =
      ((expression (symbol name :: (front ++ back))).reduceAt limit level).visiting := by
  have hlevel : level ≤ limit := Nat.le_of_succ_le (le_limit_of_room hfront hroom)
  rw [reduceAt_expression_of_le _ hlevel, reduceAt_expression_of_le _ hlevel, reduceItems,
    reduceItems, reduceOperands_split hfront back hroom]

end Value

/-- A fold can be split at any point. Whatever the symbol, and whatever the outcome, the first
few operands of an expression may be put into an expression of their own with the same
symbol: the answer stays the same, a failure included, and the evaluation takes exactly one
visit more. There has to be room for one more level around the operands that are put
together. -/
theorem Evaluator.eval_split_fold (evaluator : Evaluator) (name : String)
    {front : List Value} (hfront : front ≠ []) (back : List Value)
    (hdepth : ∀ operand ∈ front, operand.depth + 2 ≤ evaluator.limit) :
    let whole : Value := .expression (.symbol name :: (front ++ back))
    let split : Value := .expression (.symbol name :: .expression (.symbol name :: front) :: back)
    (evaluator.eval split).1 = (evaluator.eval whole).1 ∧
      (evaluator.eval split).2.visited = (evaluator.eval whole).2.visited + 1 := by
  intro whole split
  have hroom : ∀ operand ∈ front, 1 + 1 + operand.depth ≤ evaluator.limit := by
    intro operand hoperand
    rw [Nat.add_comm]
    exact hdepth operand hoperand
  have hsplit : split.reduce evaluator.limit = (whole.reduce evaluator.limit).visiting :=
    Value.reduceAt_split hfront back hroom
  refine ⟨?_, ?_⟩
  · rw [eval_fst, eval_fst, hsplit, Reduction.outcome_visiting]
  · rw [visited_eval, visited_eval, hsplit, Reduction.visits_visiting, Nat.add_assoc]

theorem Evaluator.eval_split_fold_of_differences :
    let evaluator : Evaluator := ⟨3, 0⟩
    let front : List Value := [.number 10, .expression [.symbol "+", .number 1, .number 2]]
    let whole (back : List Value) : Value := .expression (.symbol "-" :: (front ++ back))
    let split (back : List Value) : Value :=
      .expression (.symbol "-" :: .expression (.symbol "-" :: front) :: back)
    let numbers : List Value := [.number 4, .number (-6)]
    let failing : List Value := [.number 4, .symbol "x", .expression []]
    front ≠ [] ∧ (∀ operand ∈ front, operand.depth + 2 ≤ evaluator.limit) ∧
      (evaluator.eval (whole numbers)).1 = .number 9 ∧
      (evaluator.eval (split numbers)).1 = .number 9 ∧
      (evaluator.eval (whole numbers)).2.visited = 7 ∧
      (evaluator.eval (split numbers)).2.visited = 7 + 1 ∧
      (evaluator.eval (whole failing)).1 = .failure (Cause.bareSymbol "x").failure ∧
      (evaluator.eval (split failing)).1 = .failure (Cause.bareSymbol "x").failure ∧
      (evaluator.eval (whole failing)).2.visited = 7 ∧
      (evaluator.eval (split failing)).2.visited = 7 + 1 := by
  intro evaluator front whole split numbers failing
  have hfront : front ≠ [] := List.cons_ne_nil _ _
  have hdepth : ∀ operand ∈ front, operand.depth + 2 ≤ evaluator.limit := by decide
  obtain ⟨hnumber, hvisitsNumber⟩ := eval_split_fold evaluator "-" hfront numbers hdepth
  obtain ⟨hfailure, hvisitsFailure⟩ := eval_split_fold evaluator "-" hfront failing hdepth
  exact ⟨hfront, hdepth, by rfl, hnumber, by rfl, hvisitsNumber, by rfl, hfailure, by rfl,
    hvisitsFailure⟩

end PrefixCalc
