/-
# Compositional evaluation

An operand counts for what it evaluates to: put the answer to an operand in the place of
the operand, at any address that passes through operands only, and the whole value has
the same answer as before, after at most as many visits. The answer may be a failure,
and the operand need not be one that is reached.

An exchange of operands carries any relation between their reductions up to the whole
value (`reduceAt_replaceAt_related`). It remains to compare an operand with its answer.
-/

import PrefixCalc.Proofs.Value.Address
import PrefixCalc.Proofs.Value.NestingLimit
import Mathlib.Data.List.Forall2

namespace PrefixCalc

namespace Reduction

/-- Two reductions come to the same, and the first one visits no more nodes for it. -/
structure NoCostlier (first second : Reduction Number) : Prop where
  /-- The outcome is the same. -/
  outcome : first.outcome = second.outcome
  /-- The visits are no more. -/
  visits : first.visits ≤ second.visits

theorem isCongruence_noCostlier : IsCongruence NoCostlier where
  refl _ := ⟨rfl, Nat.le_refl _⟩
  visiting h := ⟨h.outcome, Nat.add_le_add_right h.visits 1⟩
  bind {first second next next'} h hnext := by
    refine ⟨?_, ?_⟩
    · rw [outcome_bind, outcome_bind, h.outcome]
      exact congrArg _ (funext fun n => (hnext n).outcome)
    · rw [visits_bind, visits_bind, h.outcome]
      apply Nat.add_le_add h.visits
      cases second.outcome with
      | ok n => exact (hnext n).visits
      | error failure => exact Nat.le_refl 0

end Reduction

namespace Value

variable {Related : Reduction Number → Reduction Number → Prop} {limit level : Nat}

/-- Lists that differ in one member are related member by member, if that member is. -/
theorem forall₂_modify {α : Type} {R : α → α → Prop} (hrefl : ∀ item, R item item)
    {change : α → α} {items : List α} {index : Nat} {item : α}
    (hitem : items[index]? = some item) (hchange : R (change item) item) :
    List.Forall₂ R (items.modify index change) items := by
  induction items generalizing index with
  | nil => cases hitem
  | cons first rest ih =>
      cases index with
      | zero =>
          cases hitem
          exact .cons hchange (List.forall₂_same.2 fun item _ => hrefl item)
      | succ index => exact .cons (hrefl first) (ih hitem)

/-- A value in which an operand is exchanged for another one is reduced as the operand
is, up to any relation that reduction keeps. -/
theorem reduceAt_replaceAt_related (hrelated : Reduction.IsCongruence Related)
    {value node new : Value} {address : List Nat} (hnode : value.nodeAt? address = some node)
    (hoperands : ∀ index ∈ address, 1 ≤ index)
    (hnew : Related (new.reduceAt limit (level + address.length))
      (node.reduceAt limit (level + address.length))) :
    Related ((value.replaceAt address new).reduceAt limit level) (value.reduceAt limit level) := by
  induction address generalizing value level with
  | nil =>
      cases hnode
      rw [replaceAt_nil]
      exact hnew
  | cons index rest ih =>
      obtain ⟨items, item, rfl, hitem, hrest⟩ := nodeAt?_cons_eq_some_iff.1 hnode
      obtain ⟨hindex, hoperandsRest⟩ := List.forall_mem_cons.1 hoperands
      obtain ⟨index, rfl⟩ := Nat.exists_eq_add_of_le' hindex
      rw [List.length_cons, Nat.add_comm rest.length, ← Nat.add_assoc] at hnew
      have hitemRelated := ih hrest hoperandsRest hnew
      rw [replaceAt_expression_cons]
      by_cases hlevel : level ≤ limit
      · rw [reduceAt_expression_of_le _ hlevel, reduceAt_expression_of_le _ hlevel]
        apply hrelated.visiting
        cases items with
        | nil => cases hitem
        | cons head operands =>
            rw [List.getElem?_cons_succ] at hitem
            rw [List.modify_succ_cons]
            apply reduceItems_cons_related hrelated (fun name => Iff.rfl)
            refine forall₂_modify (fun operand => ?_) hitem hitemRelated
            exact hrelated.refl _
      · -- Neither expression is entered, so it does not matter what became of the items.
        rw [reduceAt_expression_of_lt _ (Nat.not_le.1 hlevel),
          reduceAt_expression_of_lt _ (Nat.not_le.1 hlevel)]
        exact hrelated.refl _

/-- The answer to a value stands for the value at every level that leaves room for its
nesting: it comes to the same, with a single visit. -/
theorem reduceAt_ofOutcome_noCostlier (value : Value) (hroom : level + value.depth ≤ limit + 1)
    (hdepth : value.depth ≤ limit) :
    Reduction.NoCostlier ((ofOutcome (value.reduce limit).outcome).reduceAt limit level)
      (value.reduceAt limit level) := by
  have hsame : value.reduceAt limit level = value.reduce limit :=
    value.reduceAt_eq_of_room hroom (by omega)
  have hvisits : 1 ≤ (value.reduceAt limit level).visits := value.one_le_visits_reduceAt
  rw [hsame] at hvisits ⊢
  cases houtcome : (value.reduce limit).outcome with
  | ok n =>
      rw [ofOutcome, reduceAt_number]
      exact ⟨houtcome.symm, hvisits⟩
  | error failure =>
      rw [ofOutcome, reduceAt_failure]
      exact ⟨houtcome.symm, hvisits⟩

end Value

/-- Evaluation is compositional. Where the nesting of a value is within the limit, any
operand in it, at whatever depth, may be exchanged for what it evaluates to by itself:
the answer to the whole stays the same, a failure included, and no more nodes are
visited for it. -/
theorem Evaluator.eval_replaceAt_answer (evaluator : Evaluator) {value operand : Value}
    {address : List Nat} (hdepth : value.depth ≤ evaluator.limit)
    (hoperand : value.nodeAt? address = some operand) (hindices : ∀ index ∈ address, 1 ≤ index) :
    let reduced := value.replaceAt address (evaluator.eval operand).1
    (evaluator.eval reduced).1 = (evaluator.eval value).1 ∧
      (evaluator.eval reduced).2.visited ≤ (evaluator.eval value).2.visited := by
  intro reduced
  have hbelow := Value.length_add_depth_le_of_nodeAt? hoperand
  have hnew : Reduction.NoCostlier
      ((evaluator.eval operand).1.reduceAt evaluator.limit (1 + address.length))
      (operand.reduceAt evaluator.limit (1 + address.length)) := by
    rw [eval_fst]
    exact operand.reduceAt_ofOutcome_noCostlier (by omega) (by omega)
  have hwhole : Reduction.NoCostlier (reduced.reduce evaluator.limit)
      (value.reduce evaluator.limit) :=
    Value.reduceAt_replaceAt_related Reduction.isCongruence_noCostlier hoperand hindices hnew
  refine ⟨?_, ?_⟩
  · rw [eval_fst, eval_fst, hwhole.outcome]
  · rw [visited_eval, visited_eval]
    exact Nat.add_le_add_left hwhole.visits _

theorem Evaluator.eval_replaceAt_answer_in_products :
    let evaluator : Evaluator := ⟨4, 0⟩
    let product (operand last : Value) : Value :=
      .expression [.symbol "*", .number 5, .expression [.symbol "foo", operand], last]
    let failing : Value := .expression [.symbol "%", .number 7,
      .expression [.symbol "+", .number 2, .number (-2)], .symbol "x"]
    let seven : Value := .expression [.symbol "-", .number 9, .expression [.symbol "+", .number 2]]
    let failure : Value := .failure ⟨.zeroDivisor, none⟩
    (∀ index ∈ [2, 1], 1 ≤ index) ∧
      ((product failing (.expression [])).depth ≤ evaluator.limit ∧
        (product failing (.expression [])).nodeAt? [2, 1] = some failing ∧
        (product failing (.expression [])).replaceAt [2, 1] (evaluator.eval failing).1 =
          product failure (.expression []) ∧
        (evaluator.eval (product failure (.expression []))).1 = failure ∧
        (evaluator.eval (product failing (.expression []))).1 = failure ∧
        (evaluator.eval (product failure (.expression []))).2.visited ≤
          (evaluator.eval (product failing (.expression []))).2.visited) ∧
      (product seven (.number (-2))).depth ≤ evaluator.limit ∧
      (product seven (.number (-2))).nodeAt? [2, 1] = some seven ∧
      (product seven (.number (-2))).replaceAt [2, 1] (evaluator.eval seven).1 =
        product (.number 7) (.number (-2)) ∧
      (evaluator.eval (product (.number 7) (.number (-2)))).1 = .number (-70) ∧
      (evaluator.eval (product seven (.number (-2)))).1 = .number (-70) ∧
      (evaluator.eval (product (.number 7) (.number (-2)))).2.visited ≤
        (evaluator.eval (product seven (.number (-2)))).2.visited := by
  intro evaluator product failing seven failure
  have hindices : ∀ index ∈ [2, 1], 1 ≤ index := by decide
  have hfailingDepth : (product failing (.expression [])).depth ≤ evaluator.limit := by decide
  have hfailing : (product failing (.expression [])).nodeAt? [2, 1] = some failing := by rfl
  have hfailure : (evaluator.eval (product failure (.expression []))).1 = failure := by rfl
  obtain ⟨hsameFailure, hfewerFailure⟩ :=
    eval_replaceAt_answer evaluator hfailingDepth hfailing hindices
  have hsevenDepth : (product seven (.number (-2))).depth ≤ evaluator.limit := by decide
  have hseven : (product seven (.number (-2))).nodeAt? [2, 1] = some seven := by rfl
  have hnumber : (evaluator.eval (product (.number 7) (.number (-2)))).1 = .number (-70) := by rfl
  obtain ⟨hsameNumber, hfewerNumber⟩ :=
    eval_replaceAt_answer evaluator hsevenDepth hseven hindices
  refine ⟨hindices, ⟨hfailingDepth, hfailing, by rfl, hfailure, ?_, hfewerFailure⟩, hsevenDepth,
    hseven, by rfl, hnumber, ?_, hfewerNumber⟩
  · exact hsameFailure.symm.trans hfailure
  · exact hsameNumber.symm.trans hnumber

end PrefixCalc
