/-
# Reductions

A reduction is the record of an evaluation: what came out, a result or a failure,
and how many nodes were visited on the way. Reductions are combined one after the
other; the first failure is the outcome of the whole and nothing behind it is
visited, so the count makes visible where an evaluation stopped.

`outcome_bind` and `visits_bind` describe the combination through its two views.
-/

import PrefixCalc.Failure

namespace PrefixCalc

/-- What came out of an evaluation, and the number of nodes visited for it. -/
structure Reduction (α : Type) where
  /-- The result, or the failure that ended the evaluation. -/
  outcome : Except Failure α
  /-- How many nodes were visited. -/
  visits : Nat

namespace Reduction

variable {α β : Type}

/-- The second reduction goes on where the first one left a result. -/
@[always_inline, inline]
def andThen (first : Reduction α) (next : α → Reduction β) : Reduction β :=
  match first with
  | ⟨.ok a, visits⟩ =>
    match next a with
    | ⟨outcome, more⟩ => ⟨outcome, visits + more⟩
  | ⟨.error failure, visits⟩ => ⟨.error failure, visits⟩

@[always_inline]
instance : Monad Reduction where
  pure a := ⟨.ok a, 0⟩
  bind := andThen

/-- End with a failure. -/
def stop (failure : Failure) : Reduction α := ⟨.error failure, 0⟩

/-- End with the failure that a cause leads to. -/
def fail (cause : Cause) : Reduction α := stop cause.failure

/-- A result that may not exist, for a cause. -/
def ofExcept : Except Cause α → Reduction α
  | .ok a => pure a
  | .error cause => fail cause

/-- The same outcome, with the visit of one more node. -/
def visiting (reduction : Reduction α) : Reduction α :=
  { reduction with visits := reduction.visits + 1 }

/-! ## The two views -/

@[ext]
theorem ext {first second : Reduction α} (outcome : first.outcome = second.outcome)
    (visits : first.visits = second.visits) : first = second := by
  cases first
  cases second
  simp_all

@[simp] theorem outcome_pure (a : α) : (pure a : Reduction α).outcome = .ok a := rfl
@[simp] theorem visits_pure (a : α) : (pure a : Reduction α).visits = 0 := rfl
@[simp] theorem outcome_stop (f : Failure) : (stop f : Reduction α).outcome = .error f := rfl
@[simp] theorem visits_stop (f : Failure) : (stop f : Reduction α).visits = 0 := rfl
@[simp] theorem outcome_fail (c : Cause) : (fail c : Reduction α).outcome = .error c.failure := rfl
@[simp] theorem visits_fail (c : Cause) : (fail c : Reduction α).visits = 0 := rfl
@[simp] theorem outcome_visiting (r : Reduction α) : r.visiting.outcome = r.outcome := rfl
@[simp] theorem visits_visiting (r : Reduction α) : r.visiting.visits = r.visits + 1 := rfl

/-- The outcome of two reductions, one after the other, forgets the visits. -/
@[simp]
theorem outcome_bind (first : Reduction α) (next : α → Reduction β) :
    (first >>= next).outcome = first.outcome >>= fun a => (next a).outcome := by
  rcases first with ⟨_ | _, _⟩ <;> rfl

/-- The visits of two reductions, one after the other, add up, unless the first one
fails and the second is never begun. -/
theorem visits_bind (first : Reduction α) (next : α → Reduction β) :
    (first >>= next).visits = first.visits +
      match first.outcome with
      | .ok a => (next a).visits
      | .error _ => 0 := by
  rcases first with ⟨_ | _, _⟩ <;> rfl

instance : LawfulMonad Reduction :=
  LawfulMonad.mk' Reduction
    (fun r => by rcases r with ⟨_ | _, _⟩ <;> rfl)
    (fun a next => by
      ext
      · rfl
      · simp [visits_bind])
    (fun r next last => by
      rcases r with ⟨_ | a, _⟩
      · rfl
      · simp only [bind, andThen]
        rcases next a with ⟨_ | _, _⟩
        · rfl
        · simp only [Nat.add_assoc])

end Reduction

end PrefixCalc
