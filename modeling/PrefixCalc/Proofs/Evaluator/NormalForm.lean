/-
# Answers are normal forms

An answer is a number or a failure, and neither is changed by another evaluation. Within an
evaluation this holds of every total and of every operand of a fold, so that it is always two
numbers that are combined. The machine of `RunningCount` has an answer for other values as
well; `evalAt?` is the same machine without it, which would be stuck there, and it never is.

A failure that comes out was in the value, or the calculator has a `Cause` for it. What the
machine answers for values that are not numbers is the detail of no cause.
-/

import PrefixCalc.Proofs.Evaluator.RunningCount
import PrefixCalc.Proofs.Value.Address

namespace PrefixCalc

/-- No cause is worded like the answer for operands that are not numbers. -/
theorem Cause.detail_ne (cause : Cause) :
    cause.detail ≠ some "operand did not reduce to a number" := by
  cases cause <;> simp [Cause.detail, ← String.toList_inj]

namespace Value

/-- A value that stands for itself. -/
inductive IsNormal : Value → Prop
  | number (n : Number) : IsNormal (.number n)
  | failure (f : Failure) : IsNormal (.failure f)

theorem isNormal_ofOutcome (outcome : Except Failure Number) : (ofOutcome outcome).IsNormal := by
  cases outcome with
  | ok n => exact .number n
  | error f => exact .failure f

/-- Combine two numbers by the operator that a symbol names. Other values cannot be
combined. -/
def combine? (name : String) : Value → Value → Option Value
  | .number m, .number n => some (combine name (.number m) (.number n))
  | _, _ => none

/-! ## Where failures come from -/

variable {limit level : Nat} {name : String}

/-- A fold fails as one of its operands does, or for a cause. -/
theorem exists_of_outcome_foldOperands_eq_error {operands : List Value} {total : Number}
    {f : Failure} (h : (foldOperands limit level name total operands).outcome = .error f) :
    (∃ operand ∈ operands, (operand.reduceAt limit level).outcome = .error f) ∨
      ∃ cause : Cause, cause.failure = f := by
  induction operands generalizing total with
  | nil =>
      rw [foldOperands_nil] at h
      cases h
  | cons operand rest ih =>
      rw [foldOperands_cons, Reduction.outcome_bind_eq_error_iff] at h
      rcases h with hoperand | ⟨right, -, hcombined⟩
      · exact .inl ⟨operand, List.mem_cons_self, hoperand⟩
      · rcases Reduction.outcome_bind_eq_error_iff.1 hcombined with hcause | ⟨next, -, hrest⟩
        · rw [Reduction.outcome_ofExcept] at hcause
          cases happly : applyNamed name total right with
          | ok next =>
              rw [happly] at hcause
              cases hcause
          | error cause =>
              rw [happly] at hcause
              cases hcause
              exact .inr ⟨cause, rfl⟩
        · rcases ih hrest with ⟨later, hlater, houtcome⟩ | hcause
          · exact .inl ⟨later, List.mem_cons_of_mem _ hlater, houtcome⟩
          · exact .inr hcause

/-- An expression fails as one of its items does, or for a cause. -/
theorem exists_of_outcome_reduceItems_eq_error {items : List Value} {f : Failure}
    (h : (reduceItems limit level items).outcome = .error f) :
    (∃ item ∈ items, (item.reduceAt limit (level + 1)).outcome = .error f) ∨
      ∃ cause : Cause, cause.failure = f := by
  unfold reduceItems at h
  split at h
  · exact .inr ⟨_, Except.error.inj h⟩
  · next name operands =>
      cases operands with
      | nil =>
          rw [reduceOperands] at h
          exact .inr ⟨_, Except.error.inj h⟩
      | cons first rest =>
          rw [reduceOperands, Reduction.outcome_bind_eq_error_iff] at h
          rcases h with hfirst | ⟨total, -, hfold⟩
          · exact .inl ⟨first, by simp, hfirst⟩
          · rcases exists_of_outcome_foldOperands_eq_error hfold with ⟨operand, hmem, houtcome⟩ |
              hcause
            · exact .inl ⟨operand, by simp [hmem], houtcome⟩
            · exact .inr hcause
  · exact .inr ⟨_, Except.error.inj h⟩

/-- A value fails in the way of a failure that stands in it, or for a cause. -/
theorem exists_of_outcome_reduceAt_eq_error {value : Value} {f : Failure}
    (h : (value.reduceAt limit level).outcome = .error f) :
    (∃ address, value.nodeAt? address = some (.failure f)) ∨
      ∃ cause : Cause, cause.failure = f := by
  induction value generalizing level with
  | number n =>
      rw [reduceAt_number] at h
      cases h
  | symbol name =>
      rw [reduceAt_symbol] at h
      exact .inr ⟨_, Except.error.inj h⟩
  | failure g =>
      rw [reduceAt_failure] at h
      cases h
      exact .inl ⟨[], rfl⟩
  | expression items ih =>
      by_cases hlevel : level ≤ limit
      · rw [reduceAt_expression_of_le items hlevel, Reduction.outcome_visiting] at h
        rcases exists_of_outcome_reduceItems_eq_error h with ⟨item, hitem, houtcome⟩ | hcause
        · rcases ih item hitem houtcome with ⟨address, haddress⟩ | hcause
          · obtain ⟨index, hindex⟩ := List.mem_iff_getElem?.1 hitem
            exact .inl ⟨index :: address,
              nodeAt?_cons_eq_some_iff.2 ⟨items, item, rfl, hindex, haddress⟩⟩
          · exact .inr hcause
        · exact .inr hcause
      · rw [reduceAt_expression_of_lt items (Nat.not_le.1 hlevel)] at h
        exact .inr ⟨_, Except.error.inj h⟩

/-- The answer for operands that are not numbers comes out only if it went in. -/
theorem exists_nodeAt?_of_detail_eq {value : Value} {f : Failure}
    (h : (value.reduceAt limit level).outcome = .error f)
    (hdetail : f.detail = some "operand did not reduce to a number") :
    ∃ address, value.nodeAt? address = some (.failure f) := by
  rcases exists_of_outcome_reduceAt_eq_error h with haddress | ⟨cause, rfl⟩
  · exact haddress
  · exact absurd hdetail cause.detail_ne

end Value

namespace Evaluator

/-! ## A machine for numbers only -/

/-- Evaluate a value that lies at nesting level `level`. There is no answer if anything but
two numbers would have to be combined for it. -/
def evalAt? (evaluator : Evaluator) (level : Nat) (value : Value) : Option (Value × Evaluator) :=
  evalAtWith Value.combine? evaluator level value

variable {level : Nat}

/-- The machine answers with a number or a failure. -/
theorem isNormal_evalAt (evaluator : Evaluator) (level : Nat) (value : Value) :
    (evaluator.evalAt level value).1.IsNormal := by
  rw [evalAt_eq_record]
  exact Value.isNormal_ofOutcome _

/-- Whatever the value, the machine combines numbers only. -/
theorem evalAt?_eq_some (evaluator : Evaluator) (level : Nat) (value : Value) :
    evaluator.evalAt? level value = some (evaluator.evalAt level value) := by
  have hcombine : CombinesNumbers Value.combine? := fun _ _ _ => rfl
  rw [evalAt?, recordsReduction hcombine value evaluator level, evalAt_eq_record]
  rfl

/-! ## Answers as values -/

/-- What the machine answers for operands that are not numbers is an answer only to values
that it stands in. -/
theorem exists_nodeAt?_of_evalAt {evaluator : Evaluator} {value : Value} {f : Failure}
    (h : (evaluator.evalAt level value).1 = .failure f)
    (hdetail : f.detail = some "operand did not reduce to a number") :
    ∃ address, value.nodeAt? address = some (.failure f) := by
  rw [evalAt_eq_record] at h
  exact Value.exists_nodeAt?_of_detail_eq (Value.ofOutcome_eq_failure_iff.1 h) hdetail

/-- The root of a program is evaluated itself, or one of its items is. -/
theorem exists_evalAt_eq_evalProgram (evaluator : Evaluator) (root : Value) :
    ∃ level address node, root.nodeAt? address = some node ∧
      evaluator.evalProgram root = evaluator.evalAt level node := by
  rcases root.reduceProgram_cases with ⟨item, rfl, hitem⟩ | ⟨-, hroot⟩
  · refine ⟨1, [0], item, rfl, ?_⟩
    rw [evalProgram, hitem, evalAt_eq_record]
  · refine ⟨0, [], root, rfl, ?_⟩
    rw [evalProgram, hroot, evalAt_eq_record]

theorem evalAt_of_isNormal {value : Value} (h : value.IsNormal) (evaluator : Evaluator)
    (level : Nat) : evaluator.evalAt level value = (value, evaluator.visiting) := by
  rw [evalAt]
  cases h with
  | number n => rw [evalAtWith, Id.run_pure]
  | failure f => rw [evalAtWith, Id.run_pure]

/-- A normal value is the answer to itself, as a value and as a program, after one visit. -/
theorem eval_of_isNormal {value : Value} (h : value.IsNormal) (evaluator : Evaluator) :
    evaluator.eval value = (value, evaluator.visiting) ∧
      evaluator.evalProgram value = (value, evaluator.visiting) := by
  have hrecord : ∀ level, evaluator.record (value.reduceAt evaluator.limit level) =
      (value, evaluator.visiting) := fun level => by
    rw [← evalAt_eq_record, evalAt_of_isNormal h]
  refine ⟨hrecord 1, ?_⟩
  -- A normal value is no expression, so that the program is the value at level 0.
  cases h with
  | number n => exact hrecord 0
  | failure f => exact hrecord 0

/-- Answers are normal forms. Every value comes to a number or a failure at every level, and
on the way only numbers are combined: the machine that could combine nothing else is never
stuck and does the same. The detail of a failure for other operands comes out only where it
went in. An answer, to a value or a program, is therefore the answer to itself, for every
evaluator and with a single visit. -/
theorem answers_are_normal_forms (evaluator : Evaluator) :
    (∀ level value,
      (evaluator.evalAt level value).1.IsNormal ∧
      evaluator.evalAt? level value = some (evaluator.evalAt level value) ∧
      ∀ f : Failure, (evaluator.evalAt level value).1 = .failure f →
        f.detail = some "operand did not reduce to a number" →
        ∃ address, value.nodeAt? address = some (.failure f)) ∧
    ∀ value answer,
      answer = (evaluator.eval value).1 ∨ answer = (evaluator.evalProgram value).1 →
      answer.IsNormal ∧
      (∀ f : Failure, answer = .failure f →
        f.detail = some "operand did not reduce to a number" →
        ∃ address, value.nodeAt? address = some (.failure f)) ∧
      ∀ other : Evaluator,
        other.eval answer = (answer, ⟨other.limit, other.visited + 1⟩) ∧
        other.evalProgram answer = (answer, ⟨other.limit, other.visited + 1⟩) := by
  refine ⟨fun level value => ⟨?_, ?_, fun f hf hdetail => ?_⟩, fun value answer hanswer => ?_⟩
  · exact evaluator.isNormal_evalAt level value
  · exact evaluator.evalAt?_eq_some level value
  · exact exists_nodeAt?_of_evalAt hf hdetail
  · obtain ⟨level, address, node, hnode, rfl⟩ : ∃ level address node,
        value.nodeAt? address = some node ∧ answer = (evaluator.evalAt level node).1 := by
      rcases hanswer with rfl | rfl
      · exact ⟨1, [], value, rfl, congrArg Prod.fst (evaluator.evalAt_eq_record 1 value).symm⟩
      · obtain ⟨level, address, node, hnode, hprogram⟩ :=
          evaluator.exists_evalAt_eq_evalProgram value
        exact ⟨level, address, node, hnode, congrArg Prod.fst hprogram⟩
    refine ⟨evaluator.isNormal_evalAt level node, fun f hf hdetail => ?_, fun other => ?_⟩
    · obtain ⟨below, hbelow⟩ := exists_nodeAt?_of_evalAt hf hdetail
      exact ⟨address ++ below, by rw [Value.nodeAt?_append, hnode]; exact hbelow⟩
    · exact eval_of_isNormal (evaluator.isNormal_evalAt level node) other

theorem answers_are_normal_forms_of_failing_operand :
    let evaluator : Evaluator := ⟨2, 0⟩
    let f : Failure := ⟨.malformed, some "operand did not reduce to a number"⟩
    let value : Value := .expression [.symbol "+", .number 1,
      .expression [.symbol "x", .failure f], .symbol "y"]
    (evaluator.evalAt 1 value).1 = .failure f ∧
      (∃ address, value.nodeAt? address = some (.failure f)) ∧
      .failure f = (evaluator.eval value).1 ∧
      (Evaluator.mk 0 7).eval (.failure f) = (.failure f, ⟨0, 8⟩) ∧
      (Evaluator.mk 0 7).evalProgram (.failure f) = (.failure f, ⟨0, 8⟩) := by
  intro evaluator f value
  have hmachine : (evaluator.evalAt 1 value).1 = .failure f := by rfl
  have hanswer : .failure f = (evaluator.eval value).1 := by rfl
  obtain ⟨hat, hagain⟩ := answers_are_normal_forms evaluator
  obtain ⟨-, -, hsame⟩ := hagain value (.failure f) (.inl hanswer)
  obtain ⟨heval, hprogram⟩ := hsame ⟨0, 7⟩
  exact ⟨hmachine, (hat 1 value).2.2 f hmachine rfl, hanswer, heval, hprogram⟩

end Evaluator

end PrefixCalc
