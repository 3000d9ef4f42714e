/-
# Layers around a value

An expression of a symbol and a single operand is a layer around the operand. The symbol is
never looked up, so a layer adds nothing but one visit and one level of nesting, whether the
symbol names an operator or not.

Any number of layers therefore come to what is inside of them, numbers and failures alike, as
long as the limit leaves room for all. Layers that are too many by themselves are cut off at
the first one below the limit. What is inside is then never looked at.
-/

import PrefixCalc.Proofs.Value.NestingLimit

namespace PrefixCalc

namespace Value

variable {limit level : Nat}

/-- A layer within the limit is one visit more, and what is inside lies one level deeper. -/
theorem reduceAt_wrap (name : String) (value : Value) (h : level ≤ limit) :
    (wrap name value).reduceAt limit level = (value.reduceAt limit (level + 1)).visiting := by
  rw [wrap, reduceAt_expression_of_le _ h, reduceItems, reduceOperands]
  simp only [foldOperands_nil, bind_pure]

/-- Layers within the limit are one visit each, and what is inside of all lies as much
deeper. -/
theorem reduceAt_layers (names : List String) (value : Value)
    (h : level + names.length ≤ limit + 1) :
    (names.foldr wrap value).reduceAt limit level =
      ⟨(value.reduceAt limit (level + names.length)).outcome,
        (value.reduceAt limit (level + names.length)).visits + names.length⟩ := by
  induction names generalizing level with
  | nil => rfl
  | cons name names ih =>
      rw [List.length_cons] at h ⊢
      have hdeeper : level + 1 + names.length = level + (names.length + 1) := by omega
      rw [List.foldr_cons, reduceAt_wrap _ _ (show level ≤ limit by omega),
        ih (show level + 1 + names.length ≤ limit + 1 by omega), hdeeper]
      rfl

/-- Layers that go below the limit are cut off there, after one visit for each level down
to the first one too many. -/
theorem reduceAt_layers_of_lt (names : List String) (value : Value) (hlevel : level ≤ limit + 1)
    (h : limit + 1 < level + names.length) :
    ((names.foldr wrap value).reduceAt limit level).outcome =
        .error (Cause.tooDeep limit).failure ∧
      ((names.foldr wrap value).reduceAt limit level).visits + level = limit + 2 := by
  induction names generalizing level with
  | nil => exact absurd h (Nat.not_lt.2 hlevel)
  | cons name names ih =>
      rw [List.length_cons] at h
      rw [List.foldr_cons]
      by_cases hroom : level ≤ limit
      · obtain ⟨houtcome, hvisits⟩ := ih (show level + 1 ≤ limit + 1 by omega) (by omega)
        rw [reduceAt_wrap _ _ hroom, Reduction.outcome_visiting, Reduction.visits_visiting]
        exact ⟨houtcome, by omega⟩
      · rw [wrap, reduceAt_expression_of_lt _ (Nat.not_le.1 hroom), Reduction.outcome_visiting,
          Reduction.visits_visiting]
        exact ⟨rfl, show 0 + 1 + level = limit + 2 by omega⟩

end Value

/-- Layers around a value, each of any symbol, pass on what the value comes to. With room for
the layers and the value, the answer is that to the value, and the count is higher by one for
each layer. With more layers than the limit permits, the evaluation is cut off at the first
one too many, whatever the value is. -/
theorem Evaluator.eval_layers (evaluator : Evaluator) (names : List String) (value : Value) :
    let layered : Value := names.foldr Value.wrap value
    (names.length + value.depth ≤ evaluator.limit →
      (evaluator.eval layered).1 = (evaluator.eval value).1 ∧
      (evaluator.eval layered).2.visited = (evaluator.eval value).2.visited + names.length) ∧
    (evaluator.limit < names.length →
      (evaluator.eval layered).1 = .failure ⟨.malformed, some ("maximum nesting depth of " ++
        toString evaluator.limit ++ " exceeded")⟩ ∧
      (evaluator.eval layered).2.visited = evaluator.visited + (evaluator.limit + 1)) := by
  intro layered
  refine ⟨fun hroom => ?_, fun hlimit => ?_⟩
  · have hlayers : layered.reduce evaluator.limit =
        ⟨(value.reduceAt evaluator.limit (1 + names.length)).outcome,
          (value.reduceAt evaluator.limit (1 + names.length)).visits + names.length⟩ :=
      Value.reduceAt_layers names value (by omega)
    have hvalue : value.reduceAt evaluator.limit (1 + names.length) =
        value.reduce evaluator.limit :=
      value.reduceAt_eq_of_room (by omega) (by omega)
    rw [eval_fst, eval_fst, visited_eval, visited_eval, hlayers, hvalue]
    exact ⟨rfl, (Nat.add_assoc ..).symm⟩
  · obtain ⟨houtcome, hvisits⟩ : (layered.reduce evaluator.limit).outcome =
          .error (Cause.tooDeep evaluator.limit).failure ∧
        (layered.reduce evaluator.limit).visits + 1 = evaluator.limit + 2 :=
      Value.reduceAt_layers_of_lt names value (Nat.le_add_left 1 _) (by omega)
    rw [eval_fst, visited_eval, Value.ofOutcome_eq_cutOff_iff]
    exact ⟨houtcome, by omega⟩

theorem Evaluator.eval_layers_around_failing_quotient :
    let evaluator : Evaluator := ⟨3, 5⟩
    let quotient : Value := .expression [.symbol "/", .number 1, .number 0]
    ["-", "foo"].length + quotient.depth ≤ evaluator.limit ∧
      evaluator.limit < ["-", "foo", "", "*"].length ∧
      (evaluator.eval (["-", "foo"].foldr Value.wrap quotient)).1 = .failure ⟨.zeroDivisor, none⟩ ∧
      (evaluator.eval (["-", "foo"].foldr Value.wrap quotient)).2.visited = 5 + 3 + 2 ∧
      (evaluator.eval (["-", "foo", "", "*"].foldr Value.wrap quotient)).1 =
        .failure ⟨.malformed, some "maximum nesting depth of 3 exceeded"⟩ ∧
      (evaluator.eval (["-", "foo", "", "*"].foldr Value.wrap quotient)).2.visited = 5 + 4 := by
  intro evaluator quotient
  have hroom : ["-", "foo"].length + quotient.depth ≤ evaluator.limit := by decide
  have hlimit : evaluator.limit < ["-", "foo", "", "*"].length := by decide
  obtain ⟨hanswer, hvisited⟩ := (eval_layers evaluator ["-", "foo"] quotient).1 hroom
  obtain ⟨hcut, hvisitedCut⟩ := (eval_layers evaluator ["-", "foo", "", "*"] quotient).2 hlimit
  exact ⟨hroom, hlimit, hanswer.trans (by rfl), hvisited.trans (by rfl), hcut.trans (by decide),
    hvisitedCut⟩

end PrefixCalc
