/-
# Evaluation with a running count

An evaluator may be run as a machine instead: it walks through a value, counts every
node where it meets it, and passes itself on. Failures are values there like any others.
The fold looks at its total before each operand and at the operand before it combines
the two, and there is even an answer for a combination of values that are not numbers.

How two values are combined is left to a parameter of the machine, which may have an effect
of any monad. `recordsReduction` says that this is no second kind of evaluation: as long as
numbers are combined by arithmetic, the machine has no effect and gives the value and the
count that are recorded of a reduction, from whatever count it was started with. The count is
added to and never looked at, and it makes no difference what other values would come to.
-/

import PrefixCalc.Evaluator
import PrefixCalc.Proofs.Value.Reduce

namespace PrefixCalc

/-- Combine two values by the operator that a symbol names. -/
def Value.combine (name : String) (left right : Value) : Value :=
  match left.number?, right.number? with
  | some m, some n => .ofOutcome ((applyNamed name m n).mapError Cause.failure)
  | _, _ => .failure ⟨.malformed, some "operand did not reduce to a number"⟩

theorem Value.combine_number (name : String) (m n : Number) :
    Value.combine name (.number m) (.number n) =
      .ofOutcome ((applyNamed name m n).mapError Cause.failure) := rfl

namespace Evaluator

/-- The evaluator that has visited one more node. -/
def visiting (evaluator : Evaluator) : Evaluator :=
  { evaluator with visited := evaluator.visited + 1 }

variable {m : Type → Type} [Monad m]

mutual

/-- Evaluate a value that lies at nesting level `level`. -/
def evalAtWith (combine : String → Value → Value → m Value) (evaluator : Evaluator)
    (level : Nat) : Value → m (Value × Evaluator)
  | .number n => pure (.number n, evaluator.visiting)
  | .symbol name => pure (.failure (Cause.bareSymbol name).failure, evaluator.visiting)
  | .failure f => pure (.failure f, evaluator.visiting)
  | .expression items =>
    if evaluator.limit < level then
      pure (.failure (Cause.tooDeep evaluator.limit).failure, evaluator.visiting)
    else evalItemsWith combine evaluator.visiting level items

/-- Evaluate an expression at nesting level `level`, given its items. -/
def evalItemsWith (combine : String → Value → Value → m Value) (evaluator : Evaluator)
    (level : Nat) : List Value → m (Value × Evaluator)
  | [] => pure (.failure Cause.emptyExpression.failure, evaluator)
  | .symbol name :: operands => evalOperandsWith combine evaluator (level + 1) name operands
  | _ :: _ => pure (.failure Cause.noOperator.failure, evaluator)

/-- Apply a symbol to operands that lie at nesting level `level`. -/
def evalOperandsWith (combine : String → Value → Value → m Value) (evaluator : Evaluator)
    (level : Nat) (name : String) : List Value → m (Value × Evaluator)
  | [] => pure (.failure (Cause.noOperands name).failure, evaluator)
  | first :: rest => do
    let (total, evaluator) ← evalAtWith combine evaluator level first
    evalFoldWith combine evaluator level name total rest

/-- Go on from a value with further operands, as long as nothing is a failure. -/
def evalFoldWith (combine : String → Value → Value → m Value) (evaluator : Evaluator)
    (level : Nat) (name : String) (total : Value) : List Value → m (Value × Evaluator)
  | [] => pure (total, evaluator)
  | operand :: rest =>
    if total.failure?.isSome then pure (total, evaluator)
    else do
      let (right, evaluator) ← evalAtWith combine evaluator level operand
      if right.failure?.isSome then pure (right, evaluator)
      else evalFoldWith combine evaluator level name (← combine name total right) rest

end

/-- Evaluate a value that lies at nesting level `level`, with an answer for any two values
that are combined. -/
def evalAt (evaluator : Evaluator) (level : Nat) (value : Value) : Value × Evaluator :=
  Id.run (evalAtWith (fun name left right => pure (left.combine name right)) evaluator level value)

/-! ## What is recorded -/

variable {evaluator : Evaluator} {first : Reduction Number} {next : Number → Reduction Number}

theorem record_visiting (evaluator : Evaluator) (reduction : Reduction Number) :
    evaluator.record reduction.visiting = evaluator.visiting.record reduction := by
  rw [record, record, visiting, Reduction.outcome_visiting, Reduction.visits_visiting,
    Nat.add_right_comm, Nat.add_assoc]

theorem record_of_eq_ok {n : Number} (h : first.outcome = .ok n) :
    evaluator.record first = (.number n, (evaluator.record first).2) := by
  rw [record, h]
  rfl

theorem record_of_eq_error {f : Failure} (h : first.outcome = .error f) :
    evaluator.record first = (.failure f, (evaluator.record first).2) := by
  rw [record, h]
  rfl

/-- What follows a result is recorded by the evaluator that recorded the result. -/
theorem record_bind_of_eq_ok {n : Number} (h : first.outcome = .ok n) :
    evaluator.record (first >>= next) = (evaluator.record first).2.record (next n) := by
  rw [record, record, record, Reduction.visits_bind_of_eq_ok h, Reduction.outcome_bind, h,
    Nat.add_assoc]
  rfl

/-- Behind a failure there is nothing to be recorded. -/
theorem record_bind_of_eq_error {f : Failure} (h : first.outcome = .error f) :
    evaluator.record (first >>= next) = (.failure f, (evaluator.record first).2) := by
  rw [Reduction.bind_eq_of_outcome_eq_error h]
  rfl

/-! ## The two evaluations agree -/

variable {combine : String → Value → Value → m Value} {level : Nat} {name : String}

/-- Numbers are combined by arithmetic, without any effect. Other values may come to
anything. -/
def CombinesNumbers (combine : String → Value → Value → m Value) : Prop :=
  ∀ name a b, combine name (.number a) (.number b) =
    pure (Value.combine name (.number a) (.number b))

/-- The machine gives what is recorded of the reduction of a value, at every level and
from every count. -/
def RecordsReduction (combine : String → Value → Value → m Value) (value : Value) : Prop :=
  ∀ (evaluator : Evaluator) (level : Nat), evalAtWith combine evaluator level value =
    pure (evaluator.record (value.reduceAt evaluator.limit level))

theorem evalFoldWith_failure (combine : String → Value → Value → m Value) (evaluator : Evaluator)
    (level : Nat) (name : String) (f : Failure) (operands : List Value) :
    evalFoldWith combine evaluator level name (.failure f) operands =
      pure (.failure f, evaluator) := by
  cases operands with
  | nil => rw [evalFoldWith]
  | cons operand rest =>
      rw [evalFoldWith, if_pos (show (Value.failure f).failure?.isSome from rfl)]

variable [LawfulMonad m]

/-- A fold that goes on from a number combines numbers only: an operand that is a failure ends
it, and so does a failure of the combination. -/
theorem evalFoldWith_eq_record (hcombine : CombinesNumbers combine) {operands : List Value}
    (h : ∀ operand ∈ operands, RecordsReduction combine operand) (evaluator : Evaluator)
    (total : Number) :
    evalFoldWith combine evaluator level name (.number total) operands =
      pure (evaluator.record (Value.foldOperands evaluator.limit level name total operands)) := by
  induction operands generalizing evaluator total with
  | nil =>
      rw [evalFoldWith, Value.foldOperands_nil]
      rfl
  | cons operand rest ih =>
      obtain ⟨hoperand, hrest⟩ := List.forall_mem_cons.1 h
      have htotal : ¬ (Value.number total).failure?.isSome := Bool.false_ne_true
      rw [evalFoldWith, if_neg htotal, hoperand evaluator level, pure_bind,
        Value.foldOperands_cons]
      cases houtcome : (operand.reduceAt evaluator.limit level).outcome with
      | error f =>
          rw [record_of_eq_error houtcome, record_bind_of_eq_error houtcome]
          exact if_pos rfl
      | ok right =>
          rw [record_of_eq_ok houtcome, record_bind_of_eq_ok houtcome]
          have hright : ¬ (Value.number right).failure?.isSome := Bool.false_ne_true
          refine (if_neg hright).trans ?_
          rw [hcombine, pure_bind, Value.combine_number]
          cases applyNamed name total right with
          | ok next =>
              have hnext : (Reduction.ofExcept (.ok next)).outcome = .ok next := rfl
              rw [record_bind_of_eq_ok hnext]
              exact ih hrest _ next
          | error cause =>
              rw [record_bind_of_eq_error rfl]
              exact evalFoldWith_failure combine _ level name cause.failure rest

theorem evalItemsWith_eq_record (hcombine : CombinesNumbers combine) {items : List Value}
    (h : ∀ item ∈ items, RecordsReduction combine item) (evaluator : Evaluator) (level : Nat) :
    evalItemsWith combine evaluator level items =
      pure (evaluator.record (Value.reduceItems evaluator.limit level items)) := by
  match items with
  | [] =>
      rw [evalItemsWith, Value.reduceItems]
      rfl
  | [.symbol name] =>
      rw [evalItemsWith, evalOperandsWith, Value.reduceItems, Value.reduceOperands]
      rfl
  | .symbol name :: first :: rest =>
      obtain ⟨hfirst, hrest⟩ := List.forall_mem_cons.1 (List.forall_mem_cons.1 h).2
      rw [evalItemsWith, evalOperandsWith, Value.reduceItems, Value.reduceOperands, hfirst,
        pure_bind]
      cases houtcome : (first.reduceAt evaluator.limit (level + 1)).outcome with
      | ok total =>
          rw [record_of_eq_ok houtcome, record_bind_of_eq_ok houtcome]
          exact evalFoldWith_eq_record hcombine hrest _ total
      | error f =>
          rw [record_of_eq_error houtcome, record_bind_of_eq_error houtcome]
          exact evalFoldWith_failure combine _ _ _ f rest
  | .number _ :: _ | .failure _ :: _ | .expression _ :: _ =>
      rw [evalItemsWith, Value.reduceItems]
      · rfl
      · rintro name ⟨⟩
      · rintro name ⟨⟩

/-- Whatever the value, the machine gives what is recorded of its reduction. -/
theorem recordsReduction (hcombine : CombinesNumbers combine) (value : Value) :
    RecordsReduction combine value := by
  induction value with
  | number n =>
      intro evaluator level
      rw [evalAtWith, Value.reduceAt_number, record_visiting]
      rfl
  | symbol name =>
      intro evaluator level
      rw [evalAtWith, Value.reduceAt_symbol, record_visiting]
      rfl
  | failure f =>
      intro evaluator level
      rw [evalAtWith, Value.reduceAt_failure, record_visiting]
      rfl
  | expression items ih =>
      intro evaluator level
      rw [evalAtWith]
      by_cases hlevel : level ≤ evaluator.limit
      · rw [if_neg (Nat.not_lt.2 hlevel), Value.reduceAt_expression_of_le items hlevel,
          record_visiting]
        exact evalItemsWith_eq_record hcombine ih evaluator.visiting level
      · rw [if_pos (Nat.not_le.1 hlevel),
          Value.reduceAt_expression_of_lt items (Nat.not_le.1 hlevel), record_visiting]
        rfl

/-- The machine with an answer for everything gives what is recorded of a reduction. -/
theorem evalAt_eq_record (evaluator : Evaluator) (level : Nat) (value : Value) :
    evaluator.evalAt level value =
      evaluator.record (value.reduceAt evaluator.limit level) := by
  have hcombine : CombinesNumbers (m := Id) fun name left right =>
      pure (left.combine name right) := fun _ _ _ => rfl
  rw [evalAt, recordsReduction hcombine value evaluator level, Id.run_pure]

theorem eval_eq_evalAt (evaluator : Evaluator) (value : Value) :
    evaluator.eval value = evaluator.evalAt 1 value :=
  (evaluator.evalAt_eq_record 1 value).symm

/-- The only item of a program is evaluated like a value, and any other root one level
above its items. -/
theorem evalProgram_eq_evalAt (evaluator : Evaluator) (root : Value) :
    evaluator.evalProgram root =
      match root.soleItem? with
      | some only => evaluator.evalAt 1 only
      | none => evaluator.evalAt 0 root := by
  rw [evalProgram, Value.reduceProgram]
  cases root.soleItem? with
  | some only => exact (evaluator.evalAt_eq_record 1 only).symm
  | none => exact (evaluator.evalAt_eq_record 0 root).symm

end Evaluator

end PrefixCalc
