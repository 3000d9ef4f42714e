/-
# Below the nesting limit

An expression that is nested more deeply than the limit is not entered, so its items
cannot matter. `AgreeAbove` says that two values differ in such items only, and
reduction cannot tell two such values apart, neither by what comes out nor by the number
of visits. Where a number comes out nothing has been left aside, and they are the same.

`truncate` takes away all that does not matter. What is left nests at most one level
more deeply than the limit, however deep the value was, and is reduced alike.
-/

import PrefixCalc.Evaluator
import PrefixCalc.Proofs.Value.FirstFailure
import PrefixCalc.Proofs.Value.Reduce
import Mathlib.Data.List.Forall2

namespace PrefixCalc

namespace Value

/-- Two values at a nesting level are the same, except that expressions below the limit
may have any items. -/
inductive AgreeAbove (limit : Nat) : Nat → Value → Value → Prop
  | same (level : Nat) (value : Value) : AgreeAbove limit level value value
  | cutOff {level : Nat} (items items' : List Value) :
      limit < level → AgreeAbove limit level (.expression items) (.expression items')
  | itemwise {level : Nat} {items items' : List Value} :
      items.length = items'.length →
      (∀ (index : Nat) (h : index < items.length) (h' : index < items'.length),
        AgreeAbove limit (level + 1) items[index] items'[index]) →
      AgreeAbove limit level (.expression items) (.expression items')

variable {limit level : Nat} {value value' : Value}

theorem AgreeAbove.eq_symbol_iff (h : AgreeAbove limit level value value') (name : String) :
    value = symbol name ↔ value' = symbol name := by
  cases h with
  | same => exact Iff.rfl
  | cutOff items items' _ => exact ⟨nofun, nofun⟩
  | itemwise _ _ => exact ⟨nofun, nofun⟩

/-- Values that agree above the limit are reduced alike. -/
theorem reduceAt_eq_of_agreeAbove (h : AgreeAbove limit level value value') :
    value.reduceAt limit level = value'.reduceAt limit level := by
  induction h with
  | same => rfl
  | cutOff items items' hlevel =>
      rw [reduceAt_expression_of_lt items hlevel, reduceAt_expression_of_lt items' hlevel]
  | @itemwise level items items' hlength hitems ih =>
      by_cases hlevel : level ≤ limit
      · rw [reduceAt_expression_of_le items hlevel, reduceAt_expression_of_le items' hlevel]
        congr 1
        apply reduceItems_related Reduction.isCongruence_eq
        apply List.forall₂_of_length_eq_of_get hlength
        intro index hindex hindex'
        exact ⟨(hitems index hindex hindex').eq_symbol_iff, ih index hindex hindex'⟩
      · rw [reduceAt_expression_of_lt items (Nat.not_le.1 hlevel),
          reduceAt_expression_of_lt items' (Nat.not_le.1 hlevel)]

/-- The same for programs. The root lies at level zero and its items at level one,
whether or not the root is reduced itself. -/
theorem reduceProgram_eq_of_agreeAbove {root root' : Value}
    (h : AgreeAbove limit 0 root root') :
    root.reduceProgram limit = root'.reduceProgram limit := by
  have hroots := reduceAt_eq_of_agreeAbove h
  cases h with
  | same => rfl
  | cutOff items items' hlevel => exact absurd hlevel (Nat.not_lt_zero limit)
  | @itemwise _ items items' hlength hitems =>
      have hsole : (∃ item, items = [item]) ↔ ∃ item, items' = [item] := by
        rw [← List.length_eq_one_iff, ← List.length_eq_one_iff, hlength]
      rcases reduceProgram_cases (expression items) with ⟨item, hroot, hitem⟩ | ⟨hmany, hroot⟩
      · cases hroot
        obtain ⟨item', rfl⟩ := hsole.1 ⟨item, rfl⟩
        rw [reduceProgram_singleton, reduceProgram_singleton]
        exact reduceAt_eq_of_agreeAbove (hitems 0 Nat.one_pos Nat.one_pos)
      · rcases reduceProgram_cases (expression items') with ⟨item', hroot', -⟩ | ⟨-, hroot'⟩
        · cases hroot'
          obtain ⟨item, rfl⟩ := hsole.2 ⟨item', rfl⟩
          exact absurd rfl (hmany item)
        · rw [hroot, hroot', hroots]

/-- A number is made of everything in a value: values that agree above the limit are the
same, if one of them comes to a number. -/
theorem eq_of_agreeAbove_of_outcome_eq_ok {n : Number} (h : AgreeAbove limit level value value')
    (hnumber : (value.reduceAt limit level).outcome = .ok n) : value = value' := by
  induction h generalizing n with
  | same => rfl
  | cutOff items items' hlevel =>
      rw [reduceAt_expression_of_lt items hlevel] at hnumber
      cases hnumber
  | @itemwise level items items' hlength hitems ih =>
      obtain ⟨-, name, operands, rfl, houtcome⟩ := exists_operands_of_outcome_eq_ok hnumber
      congr 1
      apply List.ext_getElem hlength
      intro index hindex hindex'
      -- The first item is the symbol in both values, and all others come to numbers.
      cases index with
      | zero => exact ((hitems 0 hindex hindex').eq_symbol_iff name |>.1 rfl).symm
      | succ index =>
          obtain ⟨m, hm⟩ := exists_outcome_eq_ok_of_getElem? houtcome
            (List.getElem?_eq_getElem (Nat.lt_of_succ_lt_succ hindex))
          exact ih (index + 1) hindex hindex' hm

/-! ## Truncation -/

mutual

/-- The value without the items of expressions below the limit. -/
def truncate (limit level : Nat) : Value → Value
  | .expression items =>
    .expression (if limit < level then [] else truncateItems limit (level + 1) items)
  | value => value

/-- The items of an expression, each truncated. -/
def truncateItems (limit level : Nat) : List Value → List Value
  | [] => []
  | item :: rest => item.truncate limit level :: truncateItems limit level rest

end

theorem truncateItems_eq_map (items : List Value) :
    truncateItems limit level items = items.map (truncate limit level) := by
  induction items with
  | nil => rw [truncateItems, List.map_nil]
  | cons item rest ih => rw [truncateItems, ih, List.map_cons]

theorem truncate_of_items_eq_nil (h : value.items = []) :
    value.truncate limit level = value := by
  cases value with
  | expression items =>
      obtain rfl : items = [] := h
      rw [truncate, truncateItems_eq_map, List.map_nil, ite_self]
  | number n => rw [truncate]; nofun
  | symbol name => rw [truncate]; nofun
  | failure f => rw [truncate]; nofun

theorem truncate_expression_of_lt (items : List Value) (h : limit < level) :
    (expression items).truncate limit level = .expression [] := by
  rw [truncate, if_pos h]

theorem truncate_expression_of_le (items : List Value) (h : level ≤ limit) :
    (expression items).truncate limit level =
      .expression (items.map (truncate limit (level + 1))) := by
  rw [truncate, if_neg (Nat.not_lt.2 h), truncateItems_eq_map]

theorem agreeAbove_truncate (value : Value) (limit level : Nat) :
    AgreeAbove limit level value (value.truncate limit level) := by
  induction value generalizing level with
  | number _ | symbol _ | failure _ =>
      rw [truncate_of_items_eq_nil rfl]
      exact .same level _
  | expression items ih =>
      by_cases hlevel : level ≤ limit
      · rw [truncate_expression_of_le items hlevel]
        apply AgreeAbove.itemwise (List.length_map _).symm
        intro index hindex _
        rw [List.getElem_map]
        exact ih _ (List.getElem_mem hindex) (level + 1)
      · rw [truncate_expression_of_lt items (Nat.not_le.1 hlevel)]
        exact .cutOff items [] (Nat.not_le.1 hlevel)

/-- Below the limit there is one level of expressions left, and these are empty. -/
theorem depth_truncate_le (value : Value) (hlevel : level ≤ limit + 1) :
    level + (value.truncate limit level).depth ≤ limit + 2 := by
  induction value generalizing level with
  | number n =>
      rw [truncate_of_items_eq_nil rfl, depth_number]
      omega
  | symbol name =>
      rw [truncate_of_items_eq_nil rfl, depth_symbol]
      omega
  | failure f =>
      rw [truncate_of_items_eq_nil rfl, depth_failure]
      omega
  | expression items ih =>
      by_cases hentered : level ≤ limit
      · have hitems : depths (items.map (truncate limit (level + 1))) ≤ limit + 1 - level := by
          rw [depths_le_iff, List.forall_mem_map]
          intro item hitem
          have := ih item hitem (show level + 1 ≤ limit + 1 by omega)
          omega
        rw [truncate_expression_of_le items hentered, depth_expression]
        omega
      · rw [truncate_expression_of_lt items (Nat.not_le.1 hentered), depth_expression, depths_nil]
        omega

end Value

/-- An evaluator never looks below its limit. Two values that agree down to it have the
same answer and cost the same visits, and so have two programs, whose roots lie at level
zero. All that counts of a value is therefore what is left of it by truncation, which
has a bounded depth, and which is the whole value where the answer is a number. -/
theorem Evaluator.eval_ignores_below_limit (evaluator : Evaluator) :
    (∀ value value', Value.AgreeAbove evaluator.limit 1 value value' →
      evaluator.eval value = evaluator.eval value') ∧
    (∀ root root', Value.AgreeAbove evaluator.limit 0 root root' →
      evaluator.evalProgram root = evaluator.evalProgram root') ∧
    ∀ value root,
      (value.truncate evaluator.limit 1).depth ≤ evaluator.limit + 1 ∧
      evaluator.eval (value.truncate evaluator.limit 1) = evaluator.eval value ∧
      (∀ n, (evaluator.eval value).1 = .number n → value.truncate evaluator.limit 1 = value) ∧
      (root.truncate evaluator.limit 0).depth ≤ evaluator.limit + 2 ∧
      evaluator.evalProgram (root.truncate evaluator.limit 0) = evaluator.evalProgram root := by
  have hvalue : ∀ value value', Value.AgreeAbove evaluator.limit 1 value value' →
      evaluator.eval value = evaluator.eval value' := fun value value' h =>
    congrArg evaluator.record (Value.reduceAt_eq_of_agreeAbove h)
  have hroot : ∀ root root', Value.AgreeAbove evaluator.limit 0 root root' →
      evaluator.evalProgram root = evaluator.evalProgram root' := fun root root' h =>
    congrArg evaluator.record (Value.reduceProgram_eq_of_agreeAbove h)
  refine ⟨hvalue, hroot, fun value root => ⟨?_, ?_, fun n hn => ?_, ?_, ?_⟩⟩
  · have := value.depth_truncate_le (Nat.le_add_left 1 evaluator.limit)
    omega
  · exact (hvalue _ _ (value.agreeAbove_truncate _ _)).symm
  · rw [eval_fst, Value.ofOutcome_eq_number_iff] at hn
    exact (Value.eq_of_agreeAbove_of_outcome_eq_ok (value.agreeAbove_truncate _ 1) hn).symm
  · have := root.depth_truncate_le (Nat.zero_le (evaluator.limit + 1))
    omega
  · exact (hroot _ _ (root.agreeAbove_truncate _ _)).symm

theorem Evaluator.eval_ignores_below_limit_in_sums :
    let evaluator : Evaluator := ⟨1, 0⟩
    let sum (items : List Value) : Value :=
      .expression [.symbol "+", .number 1, .expression items, .number 2]
    let deep : List Value := [.symbol "*", .expression [.expression [.number 3]]]
    let product : List Value := [.symbol "*", .number 3, .number 4]
    (Value.AgreeAbove 1 1 (sum deep) (sum []) ∧
      (sum deep).depth = 4 ∧ (sum []).depth = 2 ∧
      evaluator.eval (sum deep) = evaluator.eval (sum []) ∧
      (evaluator.eval (sum deep)).1 =
        .failure ⟨.malformed, some "maximum nesting depth of 1 exceeded"⟩ ∧
      (evaluator.eval (sum deep)).2.visited = 3) ∧
      (sum product).truncate 1 1 = sum [] ∧
      (evaluator.evalProgram (sum product)).1 = .number 15 ∧
      (evaluator.evalProgram ((sum product).truncate 1 0)).1 = .number 15 ∧
      ((Evaluator.mk 2 0).eval (sum product)).1 = .number 15 ∧
      (sum product).truncate 2 1 = sum product := by
  intro evaluator sum deep product
  have hagree : Value.AgreeAbove 1 1 (sum deep) (sum []) := by
    refine .itemwise ?_ fun index hindex _ => ?_
    · rfl
    · match index, hindex with
      | 0, _ | 1, _ | 3, _ => exact .same _ _
      | 2, _ => exact .cutOff _ _ (by decide)
  obtain ⟨hvalue, -, htruncate⟩ := eval_ignores_below_limit evaluator
  have hsame : evaluator.eval (sum deep) = evaluator.eval (sum []) := hvalue _ _ hagree
  -- As a program the sum has one level more than as a value.
  obtain ⟨-, -, -, -, hprogram⟩ := htruncate (sum product) (sum product)
  have hroot : (evaluator.evalProgram (sum product)).1 = .number 15 := by rfl
  obtain ⟨-, -, hwhole, -⟩ :=
    (eval_ignores_below_limit ⟨2, 0⟩).2.2 (sum product) (sum product)
  have hnumber : ((Evaluator.mk 2 0).eval (sum product)).1 = .number 15 := by rfl
  exact ⟨⟨hagree, by decide, by decide, hsame, by decide, by rfl⟩, by rfl, hroot,
    (congrArg Prod.fst hprogram).trans hroot, hnumber, hwhole 15 hnumber⟩

end PrefixCalc
