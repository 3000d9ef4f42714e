/-
# Using an evaluator again

One evaluator may be given any number of tasks, values and programs in any order. Each
is answered as a fresh evaluator with the same limit would answer it, whatever came
before and however it ended; the limit stays, and the count grows by what the fresh
evaluator would have counted.

The statement about a single task holds of the evaluator as a machine that carries its
count through the recursion, since the machine agrees with the evaluation by reductions.
An induction on the tasks does the rest.
-/

import PrefixCalc.Proofs.Evaluator.RunningCount
import Mathlib.Algebra.Ring.Nat

namespace PrefixCalc

namespace Evaluator

/-- Something to be evaluated. -/
inductive Task where
  /-- A value by itself. -/
  | value (value : Value)
  /-- The root of a program. -/
  | program (root : Value)

/-- Carry out one task. The evaluator that is left goes on to the next one. -/
def perform (evaluator : Evaluator) : Task → Value × Evaluator
  | .value value => evaluator.eval value
  | .program root => evaluator.evalProgram root

/-- Carry out one task as a machine, with the count carried along. -/
def walk (evaluator : Evaluator) : Task → Value × Evaluator
  | .value value => evaluator.evalAt 1 value
  | .program root =>
    match root.soleItem? with
    | some only => evaluator.evalAt 1 only
    | none => evaluator.evalAt 0 root

/-- Carry out some tasks, one after the other. -/
def performAll (evaluator : Evaluator) : List Task → List Value × Evaluator
  | [] => ([], evaluator)
  | task :: rest =>
    match evaluator.perform task with
    | (answer, next) =>
      match next.performAll rest with
      | (answers, last) => (answer :: answers, last)

/-- An evaluator that has not visited anything yet. -/
def fresh (limit : Nat) : Evaluator := ⟨limit, 0⟩

/-- The machine performs every task like the evaluator. -/
theorem walk_eq_perform (evaluator : Evaluator) (task : Task) :
    evaluator.walk task = evaluator.perform task := by
  cases task with
  | value value => exact (evaluator.eval_eq_evalAt value).symm
  | program root => exact (evaluator.evalProgram_eq_evalAt root).symm

/-- A task is performed as by a fresh evaluator; only the count goes on from where it
was. -/
theorem perform_eq (evaluator : Evaluator) (task : Task) :
    evaluator.perform task =
      (((fresh evaluator.limit).perform task).1,
        ⟨evaluator.limit,
          evaluator.visited + ((fresh evaluator.limit).perform task).2.visited⟩) := by
  cases task with
  | value value =>
      rw [perform, perform, visited_eval, fresh, Nat.zero_add]
      rfl
  | program root =>
      rw [perform, perform, visited_evalProgram, fresh, Nat.zero_add]
      rfl

theorem performAll_cons (evaluator : Evaluator) (task : Task) (rest : List Task) :
    evaluator.performAll (task :: rest) =
      ((evaluator.perform task).1 :: ((evaluator.perform task).2.performAll rest).1,
        ((evaluator.perform task).2.performAll rest).2) := rfl

/-- Tasks are performed as by a fresh evaluator for each of them, and the counts add
up. -/
theorem performAll_eq (evaluator : Evaluator) (tasks : List Task) :
    evaluator.performAll tasks =
      (tasks.map fun task => ((fresh evaluator.limit).perform task).1,
        ⟨evaluator.limit, evaluator.visited +
          (tasks.map fun task => ((fresh evaluator.limit).perform task).2.visited).sum⟩) := by
  induction tasks generalizing evaluator with
  | nil => rfl
  | cons task rest ih =>
      rw [performAll_cons, ih, perform_eq, List.map_cons, List.map_cons, List.sum_cons,
        Nat.add_assoc]

/-- An evaluator may safely be used again. Whatever tasks it has performed, it answers
each further one like a fresh evaluator with its limit, which never changes, and counts
as many visits for it, added to those before. It makes no difference to carry the count
along through the evaluation. -/
theorem reuse_is_safe (evaluator : Evaluator) :
    (∀ tasks, evaluator.performAll tasks =
      (tasks.map fun task => ((fresh evaluator.limit).perform task).1,
        ⟨evaluator.limit, evaluator.visited +
          (tasks.map fun task => ((fresh evaluator.limit).perform task).2.visited).sum⟩)) ∧
    ∀ before task,
      let reached := (evaluator.performAll before).2
      reached.limit = evaluator.limit ∧
      reached.perform task = reached.walk task ∧
      (reached.perform task).1 = ((fresh evaluator.limit).perform task).1 ∧
      (reached.perform task).2.limit = evaluator.limit ∧
      (reached.perform task).2.visited =
        reached.visited + ((fresh evaluator.limit).perform task).2.visited := by
  refine ⟨evaluator.performAll_eq, fun before task => ?_⟩
  intro reached
  have hlimit : reached.limit = evaluator.limit := by
    rw [show reached = _ from congrArg Prod.snd (evaluator.performAll_eq before)]
  have hperform := reached.perform_eq task
  rw [hlimit] at hperform
  refine ⟨hlimit, (reached.walk_eq_perform task).symm, ?_, ?_, ?_⟩
  · rw [hperform]
  · rw [hperform]
  · rw [hperform]

end Evaluator

end PrefixCalc
