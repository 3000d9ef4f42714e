/-
# The nesting limit of a reduction

A higher limit can change a reduction in one way only: where the lower one cut it
off, it goes on. `Reduction.CutOff` is this relation between two runs, and it is kept
by everything that reductions are built from, because a cut-off ends the whole
reduction unchanged. Where the nesting is within the lower limit nothing is cut off,
and the limit does not matter at all.
-/

import PrefixCalc.Evaluator
import PrefixCalc.Proofs.Value.Reduce

namespace PrefixCalc

namespace Reduction

variable {limit : Nat}

/-- Two reductions are the same, or the first one was cut off by a limit on its way. -/
def CutOff (limit : Nat) (first second : Reduction Number) : Prop :=
  first = second ∨
    first.outcome = .error (Cause.tooDeep limit).failure ∧ first.visits ≤ second.visits

theorem isCongruence_cutOff (limit : Nat) : IsCongruence (CutOff limit) where
  refl _ := .inl rfl
  visiting h := by
    rcases h with rfl | ⟨houtcome, hvisits⟩
    · exact .inl rfl
    · exact .inr ⟨houtcome, Nat.add_le_add_right hvisits 1⟩
  bind {first second next next'} h hnext := by
    rcases h with rfl | ⟨houtcome, hvisits⟩
    · rcases first with ⟨failure | n, visits⟩
      · exact .inl rfl
      · rcases hnext n with heq | ⟨houtcome, hvisits⟩
        · left
          simp only [Bind.bind, andThen, heq]
        · right
          rw [outcome_bind, visits_bind, visits_bind]
          exact ⟨houtcome, Nat.add_le_add_left hvisits visits⟩
    · right
      rw [outcome_bind, houtcome, visits_bind_of_eq_error houtcome]
      exact ⟨rfl, Nat.le_trans hvisits (visits_le_visits_bind second next')⟩

theorem CutOff.eq_of_ne {first second : Reduction Number} (h : CutOff limit first second)
    (hne : first.outcome ≠ .error (Cause.tooDeep limit).failure) : first = second := by
  rcases h with heq | ⟨houtcome, -⟩
  · exact heq
  · exact absurd houtcome hne

theorem CutOff.visits_le {first second : Reduction Number} (h : CutOff limit first second) :
    first.visits ≤ second.visits := by
  rcases h with rfl | ⟨-, hvisits⟩
  · exact Nat.le_refl _
  · exact hvisits

end Reduction

namespace Value

variable {limit larger level : Nat}

/-- With a lower limit a reduction is the same or cut off. -/
theorem reduceAt_cutOff (value : Value) (h : limit ≤ larger) :
    Reduction.CutOff limit (value.reduceAt limit level) (value.reduceAt larger level) := by
  induction value generalizing level with
  | number n =>
      rw [reduceAt_number, reduceAt_number]
      exact .inl rfl
  | symbol name =>
      rw [reduceAt_symbol, reduceAt_symbol]
      exact .inl rfl
  | failure f =>
      rw [reduceAt_failure, reduceAt_failure]
      exact .inl rfl
  | expression items ih =>
      by_cases hlevel : level ≤ limit
      · rw [reduceAt_expression_of_le items hlevel,
          reduceAt_expression_of_le items (Nat.le_trans hlevel h)]
        apply (Reduction.isCongruence_cutOff limit).visiting
        apply reduceItems_related (Reduction.isCongruence_cutOff limit)
        rw [List.forall₂_same]
        exact fun item hitem => ⟨fun name => Iff.rfl, ih item hitem⟩
      · right
        rw [reduceAt_expression_of_lt items (Nat.not_le.1 hlevel)]
        exact ⟨rfl, one_le_visits_reduceAt _⟩

/-- Neither the level nor the limit matters where the limit leaves room for the
nesting. -/
theorem reduceAt_eq_of_room (value : Value) {other otherLevel : Nat}
    (hroom : level + value.depth ≤ limit + 1)
    (hroom' : otherLevel + value.depth ≤ other + 1) :
    value.reduceAt limit level = value.reduceAt other otherLevel := by
  induction value generalizing level otherLevel with
  | number n => rw [reduceAt_number, reduceAt_number]
  | symbol name => rw [reduceAt_symbol, reduceAt_symbol]
  | failure f => rw [reduceAt_failure, reduceAt_failure]
  | expression items ih =>
      rw [depth_expression] at hroom hroom'
      rw [reduceAt_expression_of_le items (show level ≤ limit by omega),
        reduceAt_expression_of_le items (show otherLevel ≤ other by omega)]
      congr 1
      apply reduceItems_related Reduction.isCongruence_eq
      rw [List.forall₂_same]
      intro item hitem
      have hbound := depths_le_iff.1 (Nat.le_refl (depths items)) item hitem
      exact ⟨fun name => Iff.rfl, ih item hitem (by omega) (by omega)⟩

/-- Where the nesting is within the lower limit, both limits give the same
reduction. -/
theorem reduceAt_eq_of_depth_le (value : Value) (h : limit ≤ larger)
    (hdepth : level + value.depth ≤ limit + 1) :
    value.reduceAt limit level = value.reduceAt larger level :=
  value.reduceAt_eq_of_room hdepth (by omega)

/-! ## Programs -/

theorem reduceProgram_cutOff (root : Value) (h : limit ≤ larger) :
    Reduction.CutOff limit (root.reduceProgram limit) (root.reduceProgram larger) := by
  rcases reduceProgram_cases root with ⟨item, -, hitem⟩ | ⟨-, hroot⟩
  · rw [hitem, hitem]
    exact reduceAt_cutOff item h
  · rw [hroot, hroot]
    exact reduceAt_cutOff root h

/-- A program is reduced alike with all limits that its nesting is within. The root
of a program does not count as a level. -/
theorem reduceProgram_eq_of_depth_le (root : Value) (hlimit : root.depth ≤ limit + 1)
    (hlarger : root.depth ≤ larger + 1) :
    root.reduceProgram limit = root.reduceProgram larger := by
  rcases reduceProgram_cases root with ⟨item, rfl, hitem⟩ | ⟨-, hroot⟩
  · rw [hitem, hitem]
    simp only [depth_expression, depths_cons, depths_nil] at hlimit hlarger
    exact reduceAt_eq_of_room item (by omega) (by omega)
  · rw [hroot, hroot]
    exact reduceAt_eq_of_room root (by omega) (by omega)

end Value

/-! ## Evaluators -/

/-- The answer of a cut-off, in the words the user reads. -/
theorem Value.ofOutcome_eq_cutOff_iff {outcome : Except Failure Number} {limit : Nat} :
    Value.ofOutcome outcome = .failure
        ⟨.malformed, some ("maximum nesting depth of " ++ toString limit ++ " exceeded")⟩ ↔
      outcome = .error (Cause.tooDeep limit).failure :=
  Value.ofOutcome_eq_failure_iff

/-- A higher nesting limit changes no answer that was not a cut-off, and neither the
number of visits for it. Where the nesting is within the lower limit, even an answer
that reads like a cut-off stays, since it can only have been a failure of the value
itself. With the lower limit never more is visited. -/
theorem Evaluator.eval_with_higher_limit (evaluator : Evaluator) {limit : Nat}
    (h : evaluator.limit ≤ limit) (value root : Value) :
    let higher : Evaluator := { evaluator with limit }
    let cutOff : Value := .failure ⟨.malformed,
      some ("maximum nesting depth of " ++ toString evaluator.limit ++ " exceeded")⟩
    ((evaluator.eval value).1 ≠ cutOff ∨ value.depth ≤ evaluator.limit →
      (higher.eval value).1 = (evaluator.eval value).1 ∧
        (higher.eval value).2.visited = (evaluator.eval value).2.visited) ∧
    (evaluator.eval value).2.visited ≤ (higher.eval value).2.visited ∧
    ((evaluator.evalProgram root).1 ≠ cutOff ∨ root.depth ≤ evaluator.limit + 1 →
      (higher.evalProgram root).1 = (evaluator.evalProgram root).1 ∧
        (higher.evalProgram root).2.visited = (evaluator.evalProgram root).2.visited) ∧
    (evaluator.evalProgram root).2.visited ≤ (higher.evalProgram root).2.visited := by
  intro higher cutOff
  have hvalue : Reduction.CutOff evaluator.limit (value.reduce evaluator.limit)
      (value.reduce limit) := value.reduceAt_cutOff h
  have hroot := root.reduceProgram_cutOff h
  refine ⟨fun hstable => ?_, ?_, fun hstable => ?_, ?_⟩
  · have hsame : value.reduce evaluator.limit = value.reduce limit := by
      rcases hstable with hne | hdepth
      · rw [eval_fst, Ne, Value.ofOutcome_eq_cutOff_iff] at hne
        exact hvalue.eq_of_ne hne
      · exact value.reduceAt_eq_of_depth_le h (by omega)
    simp [higher, hsame]
  · rw [visited_eval, visited_eval]
    exact Nat.add_le_add_left hvalue.visits_le _
  · have hsame : root.reduceProgram evaluator.limit = root.reduceProgram limit := by
      rcases hstable with hne | hdepth
      · rw [evalProgram_fst, Ne, Value.ofOutcome_eq_cutOff_iff] at hne
        exact hroot.eq_of_ne hne
      · exact root.reduceProgram_eq_of_depth_le hdepth (by omega)
    simp [higher, hsame]
  · rw [visited_evalProgram, visited_evalProgram]
    exact Nat.add_le_add_left hroot.visits_le _

theorem Evaluator.eval_with_higher_limit_of_unreached_depth :
    let evaluator : Evaluator := ⟨1, 0⟩
    let cutOff : Value := .failure
      ⟨.malformed, some ("maximum nesting depth of " ++ toString evaluator.limit ++ " exceeded")⟩
    let value : Value := .expression [.symbol "/", .number 1, .number 0,
      .expression [.expression [.symbol "+", .number 1]]]
    let root : Value := .expression [.expression [.symbol "+", cutOff]]
    (value.depth = 3 ∧ (evaluator.eval value).1 = .failure ⟨.zeroDivisor, none⟩ ∧
      ((Evaluator.mk 9 0).eval value).1 = .failure ⟨.zeroDivisor, none⟩ ∧
      ((Evaluator.mk 9 0).eval value).2.visited = 3) ∧
    root.depth = 2 ∧ (evaluator.evalProgram root).1 = cutOff ∧
      ((Evaluator.mk 9 0).evalProgram root).1 = cutOff := by
  intro evaluator cutOff value root
  have hanswer : (evaluator.eval value).1 = .failure ⟨.zeroDivisor, none⟩ := by rfl
  have hvisited : (evaluator.eval value).2.visited = 3 := by rfl
  have hne : (evaluator.eval value).1 ≠ cutOff := by
    rw [hanswer]
    simp [cutOff]
  have hdepth : root.depth = 2 := by decide
  have hcut : (evaluator.evalProgram root).1 = cutOff := by rfl
  obtain ⟨hvalue, -, hroot, -⟩ :=
    eval_with_higher_limit evaluator (show evaluator.limit ≤ 9 by decide) value root
  obtain ⟨hsame, hsameVisits⟩ := hvalue (.inl hne)
  obtain ⟨hsameRoot, -⟩ := hroot (.inr (Nat.le_of_eq hdepth))
  refine ⟨⟨by decide, hanswer, ?_, ?_⟩, hdepth, hcut, ?_⟩
  · rw [← hanswer, ← hsame]
  · rw [← hvisited, ← hsameVisits]
  · rw [← hcut, ← hsameRoot]

end PrefixCalc
