/-
# Evaluators

An evaluator has a nesting limit and counts the nodes it visits. It may be used for
any number of values; all that one use leaves behind for the next is the count.
-/

import PrefixCalc.Settings
import PrefixCalc.Value.Reduce

namespace PrefixCalc

/-- A nesting limit and the number of nodes visited so far. -/
structure Evaluator where
  /-- How deeply expressions may nest. -/
  limit : Nat
  /-- How many nodes have been visited. -/
  visited : Nat := 0
  deriving DecidableEq

namespace Evaluator

/-- A fresh evaluator with the nesting limit of some settings. -/
def ofSettings (settings : Settings) : Evaluator := ⟨settings.nestingLimit, 0⟩

/-- The value that a reduction gives, and the evaluator that has carried it out. -/
def record (evaluator : Evaluator) (reduction : Reduction Number) : Value × Evaluator :=
  (.ofOutcome reduction.outcome,
    { evaluator with visited := evaluator.visited + reduction.visits })

/-- Evaluate a value. The answer is a number or a failure. -/
def eval (evaluator : Evaluator) (value : Value) : Value × Evaluator :=
  evaluator.record (value.reduce evaluator.limit)

/-- Evaluate the root of a program. The answer is a number or a failure. -/
def evalProgram (evaluator : Evaluator) (root : Value) : Value × Evaluator :=
  evaluator.record (root.reduceProgram evaluator.limit)

@[simp] theorem eval_fst (evaluator : Evaluator) (value : Value) :
    (evaluator.eval value).1 = .ofOutcome (value.reduce evaluator.limit).outcome := rfl

@[simp] theorem evalProgram_fst (evaluator : Evaluator) (root : Value) :
    (evaluator.evalProgram root).1 = .ofOutcome (root.reduceProgram evaluator.limit).outcome := rfl

@[simp] theorem visited_eval (evaluator : Evaluator) (value : Value) :
    (evaluator.eval value).2.visited =
      evaluator.visited + (value.reduce evaluator.limit).visits := rfl

@[simp] theorem visited_evalProgram (evaluator : Evaluator) (root : Value) :
    (evaluator.evalProgram root).2.visited =
      evaluator.visited + (root.reduceProgram evaluator.limit).visits := rfl

end Evaluator

/-- Evaluate a value with the default settings. -/
def Value.eval (value : Value) : Value := ((Evaluator.ofSettings {}).eval value).1

end PrefixCalc
