/-
# Counting visits

A value takes one visit for itself, and no node of it is visited twice. How many visits are
spent depends on where the first failure is, but not if there is none: a value that comes to
a number takes one visit for every node other than the symbols in front of its
expressions. Since each expression then has exactly one of them, the visits are the nodes
less the expressions, two measures for which nothing has to be reduced.
-/

import PrefixCalc.Evaluator
import PrefixCalc.Proofs.Value.FirstFailure

namespace PrefixCalc

namespace Value

variable {limit level : Nat} {name : String} {operands : List Value} {n : Number}

/-! ## Expressions in a value -/

mutual

/-- The number of expressions in a value, itself included. -/
def expressionCount : Value → Nat
  | .expression items => 1 + expressionCounts items
  | _ => 0

/-- The number of expressions in a list of values. -/
def expressionCounts : List Value → Nat
  | [] => 0
  | value :: rest => value.expressionCount + expressionCounts rest

end

@[simp] theorem expressionCount_number (n : Number) : (number n).expressionCount = 0 := by
  rw [expressionCount]; nofun
@[simp] theorem expressionCount_symbol (name : String) : (symbol name).expressionCount = 0 := by
  rw [expressionCount]; nofun
@[simp] theorem expressionCount_expression (items : List Value) :
    (expression items).expressionCount = 1 + expressionCounts items := by rw [expressionCount]

@[simp] theorem expressionCounts_nil : expressionCounts [] = 0 := by rw [expressionCounts]
@[simp] theorem expressionCounts_cons (value : Value) (rest : List Value) :
    expressionCounts (value :: rest) = value.expressionCount + expressionCounts rest := by
  rw [expressionCounts]

/-! ## At most one visit for a node -/

theorem visitsAt_le_nodeCounts
    (h : ∀ operand ∈ operands, (operand.reduceAt limit level).visits ≤ operand.nodeCount) :
    visitsAt limit level operands ≤ nodeCounts operands := by
  induction operands with
  | nil => exact Nat.le_refl 0
  | cons operand rest ih =>
    obtain ⟨hoperand, hrest⟩ := List.forall_mem_cons.1 h
    rw [visitsAt_cons, nodeCounts_cons]
    exact Nat.add_le_add hoperand (ih hrest)

theorem visits_reduceOperands_le (limit level : Nat) (name : String) (operands : List Value) :
    (reduceOperands limit level name operands).visits ≤ visitsAt limit level operands := by
  obtain ⟨count, -, hvisits⟩ := exists_count_of_visited limit level name operands
  calc (reduceOperands limit level name operands).visits
      = visitsAt limit level (operands.take count) := hvisits
    _ ≤ visitsAt limit level (operands.take count) + visitsAt limit level (operands.drop count) :=
        Nat.le_add_right _ _
    _ = visitsAt limit level operands := by rw [← visitsAt_append, List.take_append_drop]

theorem visits_reduceAt_le_nodeCount (value : Value) (limit level : Nat) :
    (value.reduceAt limit level).visits ≤ value.nodeCount := by
  induction value generalizing level with
  | number n => simp
  | symbol name => simp
  | failure f => simp
  | expression items ih =>
    by_cases hentered : ∃ name operands, items = symbol name :: operands ∧ level ≤ limit
    · obtain ⟨name, operands, rfl, hlevel⟩ := hentered
      have hoperands := visitsAt_le_nodeCounts fun operand hoperand =>
        ih operand (List.mem_cons_of_mem _ hoperand) (level + 1)
      have hvisits := visits_reduceOperands_le limit (level + 1) name operands
      rw [reduceAt_expression_of_le _ hlevel, Reduction.visits_visiting, reduceItems,
        nodeCount_expression, nodeCounts_cons, nodeCount_symbol]
      omega
    · have hone : ((expression items).reduceAt limit level).visits = 1 := by
        apply visits_reduceAt_of_not_entered
        intro name operands hitems
        cases hitems
        by_contra hlevel
        exact hentered ⟨name, operands, rfl, Nat.not_lt.1 hlevel⟩
      rw [hone]
      exact one_le_nodeCount _

/-! ## The visits that a number takes -/

theorem visitsAt_add_expressionCounts
    (h : ∀ operand ∈ operands,
      (operand.reduceAt limit level).visits + operand.expressionCount = operand.nodeCount) :
    visitsAt limit level operands + expressionCounts operands = nodeCounts operands := by
  induction operands with
  | nil => rfl
  | cons operand rest ih =>
    obtain ⟨hoperand, hrest⟩ := List.forall_mem_cons.1 h
    rw [visitsAt_cons, expressionCounts_cons, nodeCounts_cons, ← hoperand, ← ih hrest]
    omega

/-- The visits for a number and the expressions make up the nodes. -/
theorem visits_add_expressionCount {value : Value}
    (h : (value.reduceAt limit level).outcome = .ok n) :
    (value.reduceAt limit level).visits + value.expressionCount = value.nodeCount := by
  induction value generalizing level n with
  | number m => simp
  | symbol name =>
    rw [reduceAt_symbol] at h
    cases h
  | failure f =>
    rw [reduceAt_failure] at h
    cases h
  | expression items ih =>
    obtain ⟨hlevel, name, operands, rfl, houtcome⟩ := exists_operands_of_outcome_eq_ok h
    have hoperands : visitsAt limit (level + 1) operands + expressionCounts operands =
        nodeCounts operands := by
      apply visitsAt_add_expressionCounts
      intro operand hoperand
      obtain ⟨index, hindex⟩ := List.mem_iff_getElem?.1 hoperand
      obtain ⟨m, hm⟩ := exists_outcome_eq_ok_of_getElem? houtcome hindex
      exact ih operand (List.mem_cons_of_mem _ hoperand) hm
    -- One visit is for the expression, and the symbol is a node without a visit.
    rw [reduceAt_expression_of_le _ hlevel, Reduction.visits_visiting, reduceItems,
      visits_reduceOperands_of_outcome_eq_ok houtcome, expressionCount_expression,
      nodeCount_expression, expressionCounts_cons, nodeCounts_cons, expressionCount_symbol,
      nodeCount_symbol]
    omega

/-- On the way to a number every node is visited that is not a symbol. -/
theorem reaches_iff_of_outcome_eq_ok {value node : Value} {address : List Nat}
    (h : (value.reduceAt limit level).outcome = .ok n)
    (hnode : value.nodeAt? address = some node) :
    Reaches limit level value address ↔ ∀ name, node ≠ symbol name := by
  induction address generalizing value level n with
  | nil =>
    cases hnode
    refine ⟨fun _ => ?_, fun _ => .here level node⟩
    rintro name rfl
    rw [reduceAt_symbol] at h
    cases h
  | cons index rest ih =>
    obtain ⟨items, item, rfl, hitem, hrest⟩ := nodeAt?_cons_eq_some_iff.1 hnode
    obtain ⟨hlevel, name, operands, rfl, houtcome⟩ := exists_operands_of_outcome_eq_ok h
    cases index with
    | zero =>
      -- The symbol in front is the only node that begins like this.
      cases hitem
      cases rest with
      | nil =>
        cases hrest
        exact ⟨nofun, fun hsymbol => absurd rfl (hsymbol name)⟩
      | cons index rest =>
        obtain ⟨_, _, hsymbol, -⟩ := nodeAt?_cons_eq_some_iff.1 hrest
        cases hsymbol
    | succ index =>
      rw [List.getElem?_cons_succ] at hitem
      obtain ⟨m, hm⟩ := exists_outcome_eq_ok_of_getElem? houtcome hitem
      rw [← ih hm hrest]
      refine ⟨fun hreaches => ?_, fun hreaches => ?_⟩
      · cases hreaches with
        | operand _ hoperand _ hoperandReaches =>
          rw [hitem] at hoperand
          cases hoperand
          exact hoperandReaches
      · exact .operand hlevel hitem (succeedsBefore_of_outcome_eq_ok houtcome index) hreaches

end Value

/-- Visits are accounted for exactly. An evaluation counts at least one visit and at most one
for each node, and it counts the nodes that are visited. If the answer is a number, then every
node is visited other than the symbols, and the count goes up by the nodes less the
expressions. The same holds of a program, for its only item if it has just one, and for its
root otherwise. -/
theorem Evaluator.visits_are_accounted_for (evaluator : Evaluator) (value root : Value) :
    (∃ visits, (evaluator.eval value).2.visited = evaluator.visited + visits ∧
      1 ≤ visits ∧ visits ≤ value.nodeCount ∧
      {address | Value.Reaches evaluator.limit 1 value address}.ncard = visits ∧
      ∀ n, (evaluator.eval value).1 = .number n →
        visits + value.expressionCount = value.nodeCount ∧
        ∀ address node, value.nodeAt? address = some node →
          (Value.Reaches evaluator.limit 1 value address ↔ ∀ name, node ≠ .symbol name)) ∧
    ∃ visits, (evaluator.evalProgram root).2.visited = evaluator.visited + visits ∧
      ∀ n, (evaluator.evalProgram root).1 = .number n →
        (∀ item, root.items = [item] → visits + item.expressionCount = item.nodeCount) ∧
        ((∀ item, root.items ≠ [item]) → visits + root.expressionCount = root.nodeCount) := by
  refine ⟨⟨_, evaluator.visited_eval value, ?_, ?_, ?_, fun n hn => ⟨?_, ?_⟩⟩,
    ⟨_, evaluator.visited_evalProgram root, fun n hn => ?_⟩⟩
  · exact value.one_le_visits_reduceAt
  · exact value.visits_reduceAt_le_nodeCount evaluator.limit 1
  · exact value.ncard_reached evaluator.limit 1
  · rw [eval_fst, Value.ofOutcome_eq_number_iff] at hn
    exact Value.visits_add_expressionCount hn
  · rw [eval_fst, Value.ofOutcome_eq_number_iff] at hn
    exact fun address node hnode => Value.reaches_iff_of_outcome_eq_ok hn hnode
  · rw [evalProgram_fst, Value.ofOutcome_eq_number_iff] at hn
    rcases root.reduceProgram_cases with ⟨item, rfl, hitem⟩ | ⟨hmany, hroot⟩
    · rw [hitem] at hn ⊢
      refine ⟨fun other hother => ?_, fun hmany => absurd rfl (hmany item)⟩
      cases hother
      exact Value.visits_add_expressionCount hn
    · rw [hroot] at hn ⊢
      exact ⟨fun item honly => absurd honly (hmany item),
        fun _ => Value.visits_add_expressionCount hn⟩

/-- Seven nodes less two expressions are five visits. -/
example : ((Evaluator.mk 2 0).eval (.expression [.symbol "*",
    .expression [.symbol "+", .number 1, .number 2], .number 3])).2.visited = 5 := by rfl

end PrefixCalc
