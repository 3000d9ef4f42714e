/-
# What a value denotes

`Value.Denotes` gives values a meaning over the unbounded integers without any
reduction: no limit, no order of visits, no failure. A number denotes its integer,
and an expression the left fold of what its operands denote, provided that numbers
could carry out every step. Symbols and failures denote nothing.

The main statement is that evaluation under a nesting limit finds this integer
wherever there is one and the nesting is within the limit, and finds a number
nowhere else. An induction on values carries it, over every nesting level that a
value can be reached at.
-/

import PrefixCalc.Evaluator
import PrefixCalc.Proofs.Arithmetic
import PrefixCalc.Proofs.Value.Reduce
import Mathlib.Data.List.Forall2

namespace PrefixCalc

namespace Value

/-- The integer that a value stands for. -/
inductive Denotes : Value → Int → Prop
  /-- A number is its own meaning. -/
  | number (m : Number) : Denotes (.number m) m.toInt
  /-- A single operand is passed on, whatever symbol stands before it. -/
  | lone (name : String) {operand : Value} {n : Int} :
      Denotes operand n → Denotes (.expression [.symbol name, operand]) n
  /-- Two operands or more are folded from the left. -/
  | fold (op : Operator) {operands : List Value} {first second : Int} {more : List Int} :
      List.Forall₂ Denotes operands (first :: second :: more) →
      op.PermitsFold first (second :: more) →
      Denotes (.expression (.symbol op.symbol :: operands))
        ((second :: more).foldl op.exact first)

/-- Only numbers are denoted. -/
theorem Denotes.inRange {value : Value} {n : Int} (h : value.Denotes n) :
    Number.InRange n := by
  induction value generalizing n with
  | number m =>
      cases h
      exact Number.inRange_toInt m
  | symbol name => cases h
  | failure f => cases h
  | expression items ih =>
      cases h with
      | lone name hoperand => exact ih _ (by simp) hoperand
      | fold op hoperands hpermits => exact hpermits.2.inRange hpermits.1.result

variable {limit level : Nat}

/-- Reduction at a level finds what the value denotes, and does so exactly if the
nesting from there on is within the limit. -/
def IsExactAt (limit level : Nat) (value : Value) : Prop :=
  ∀ n : Number, (value.reduceAt limit level).outcome = .ok n ↔
    level + value.depth ≤ limit + 1 ∧ value.Denotes n.toInt

/-- A fold that has to apply its symbol needs the symbol to name an operator. -/
theorem exists_operator_of_foldOperands {name : String} {total n : Number} {operand : Value}
    {rest : List Value}
    (h : (foldOperands limit level name total (operand :: rest)).outcome = .ok n) :
    ∃ op : Operator, name = op.symbol := by
  obtain ⟨right, next, -, hnext, -⟩ := outcome_foldOperands_cons_eq_ok_iff.1 h
  obtain ⟨op, hop, -⟩ := applyNamed_eq_ok_iff.1 hnext
  exact ⟨op, hop⟩

/-- If reduction is exact on the operands, so is the fold over them. -/
theorem outcome_foldOperands_eq_ok_iff {op : Operator} {operands : List Value}
    (hexact : ∀ operand ∈ operands, operand.IsExactAt limit level) (total n : Number) :
    (foldOperands limit level op.symbol total operands).outcome = .ok n ↔
      (∀ operand ∈ operands, level + operand.depth ≤ limit + 1) ∧
        ∃ ns, List.Forall₂ Denotes operands ns ∧ op.PermitsFold total.toInt ns ∧
          n.toInt = ns.foldl op.exact total.toInt := by
  induction operands generalizing total with
  | nil =>
      rw [foldOperands_nil]
      refine ⟨fun h => ?_, fun h => ?_⟩
      · cases h
        exact ⟨by simp, [], .nil, trivial, rfl⟩
      · obtain ⟨-, ns, hns, -, hfold⟩ := h
        cases hns
        exact congrArg Except.ok (Int64.toInt_inj.1 hfold.symm)
  | cons operand rest ih =>
      obtain ⟨hhere, hlater⟩ := List.forall_mem_cons.1 hexact
      have hrest := ih hlater
      rw [outcome_foldOperands_cons_eq_ok_iff]
      refine ⟨fun h => ?_, fun h => ?_⟩
      · obtain ⟨right, next, hright, hnext, hfold⟩ := h
        rw [applyNamed_symbol] at hnext
        obtain ⟨hpermits, hvalue⟩ := Operator.apply_eq_ok_iff_permits.1 hnext
        obtain ⟨hdepth, hdenotes⟩ := (hhere right).1 hright
        obtain ⟨hdepths, ns, hns, hpermitsRest, hresult⟩ := (hrest next).1 hfold
        rw [hvalue] at hpermitsRest hresult
        exact ⟨List.forall_mem_cons.2 ⟨hdepth, hdepths⟩, right.toInt :: ns, .cons hdenotes hns,
          ⟨hpermits, hpermitsRest⟩, hresult⟩
      · obtain ⟨hdepths, ns, hns, hpermits, hresult⟩ := h
        obtain ⟨hdepth, hdepthsRest⟩ := List.forall_mem_cons.1 hdepths
        cases hns with
        | @cons _ second _ more hdenotes hmore =>
            obtain ⟨right, rfl⟩ := Number.exists_toInt_eq hdenotes.inRange
            obtain ⟨next, hvalue⟩ := Number.exists_toInt_eq hpermits.1.result
            have happly := Operator.apply_eq_ok_iff_permits.2 ⟨hpermits.1, hvalue⟩
            rw [← applyNamed_symbol] at happly
            refine ⟨right, next, (hhere right).2 ⟨hdepth, hdenotes⟩, happly, ?_⟩
            apply (hrest next).2
            rw [hvalue]
            exact ⟨hdepthsRest, more, hmore, hpermits.2, hresult⟩

/-- If an expression reduces to a number, its nesting is within the limit and it
denotes that number. -/
theorem denotes_of_outcome_reduceAt_expression {items : List Value} {n : Number}
    (hexact : level ≤ limit → ∀ item ∈ items, item.IsExactAt limit (level + 1))
    (h : ((expression items).reduceAt limit level).outcome = .ok n) :
    level + (expression items).depth ≤ limit + 1 ∧ (expression items).Denotes n.toInt := by
  obtain ⟨hle, name, first, rest, total, rfl, hfirst, hfold⟩ :=
    outcome_reduceAt_expression_eq_ok_iff.1 h
  obtain ⟨hexactFirst, hexactRest⟩ :=
    List.forall_mem_cons.1 (List.forall_mem_cons.1 (hexact hle)).2
  obtain ⟨hdepth, hdenotes⟩ := (hexactFirst total).1 hfirst
  rw [depth_expression, depths_cons, depths_cons, depth_symbol]
  cases rest with
  | nil =>
      rw [foldOperands_nil] at hfold
      cases hfold
      refine ⟨?_, .lone name hdenotes⟩
      rw [depths_nil]
      omega
  | cons second more =>
      obtain ⟨op, rfl⟩ := exists_operator_of_foldOperands hfold
      obtain ⟨hdepths, ns, hns, hpermits, hresult⟩ :=
        (outcome_foldOperands_eq_ok_iff hexactRest total n).1 hfold
      have hbound : depths (second :: more) ≤ limit - level := by
        rw [depths_le_iff]
        intro item hitem
        have := hdepths item hitem
        omega
      refine ⟨by omega, ?_⟩
      cases hns with
      | cons hsecond hmore =>
          rw [hresult]
          exact .fold op (.cons hdenotes (.cons hsecond hmore)) hpermits

/-- An expression that denotes a number reduces to it, if its nesting is within the
limit. -/
theorem outcome_reduceAt_expression_of_denotes {items : List Value} {n : Number}
    (hexact : ∀ item ∈ items, item.IsExactAt limit (level + 1))
    (hdepth : level + (expression items).depth ≤ limit + 1)
    (hdenotes : (expression items).Denotes n.toInt) :
    ((expression items).reduceAt limit level).outcome = .ok n := by
  rw [depth_expression] at hdepth
  have hitems : ∀ item ∈ items, level + 1 + item.depth ≤ limit + 1 := by
    intro item hitem
    have := depths_le_iff.1 (Nat.le_refl (depths items)) item hitem
    omega
  rw [outcome_reduceAt_expression_eq_ok_iff]
  refine ⟨by omega, ?_⟩
  generalize hn : n.toInt = k at hdenotes
  cases hdenotes with
  | @lone name operand _ hoperand =>
      subst hn
      refine ⟨name, operand, [], n, rfl, ?_, by rw [foldOperands_nil]; rfl⟩
      exact (hexact operand (by simp) n).2 ⟨hitems operand (by simp), hoperand⟩
  | @fold op operands first second more hoperands hpermits =>
      cases hoperands with
      | @cons operand _ rest _ hfirst hrest =>
          obtain ⟨hexactFirst, hexactRest⟩ :=
            List.forall_mem_cons.1 (List.forall_mem_cons.1 hexact).2
          obtain ⟨hdepthFirst, hdepthRest⟩ :=
            List.forall_mem_cons.1 (List.forall_mem_cons.1 hitems).2
          obtain ⟨total, rfl⟩ := Number.exists_toInt_eq hfirst.inRange
          refine ⟨op.symbol, operand, rest, total, rfl, ?_, ?_⟩
          · exact (hexactFirst total).2 ⟨hdepthFirst, hfirst⟩
          · apply (outcome_foldOperands_eq_ok_iff hexactRest total n).2
            exact ⟨hdepthRest, second :: more, hrest, hpermits, hn⟩

/-- Reduction is exact at every level that the limit lets a value be reached at. -/
theorem isExactAt (value : Value) (hlevel : level ≤ limit + 1) : value.IsExactAt limit level := by
  induction value generalizing level with
  | number m =>
      intro n
      rw [reduceAt_number, depth_number]
      refine ⟨fun h => ?_, fun h => ?_⟩
      · cases h
        exact ⟨hlevel, .number m⟩
      · generalize hn : n.toInt = k at h
        cases h.2
        exact congrArg Except.ok (Int64.toInt_inj.1 hn.symm)
  | symbol name =>
      intro n
      rw [reduceAt_symbol]
      exact ⟨nofun, nofun⟩
  | failure f =>
      intro n
      rw [reduceAt_failure]
      exact ⟨nofun, nofun⟩
  | expression items ih =>
      intro n
      refine ⟨fun h => ?_, fun h => ?_⟩
      · apply denotes_of_outcome_reduceAt_expression _ h
        exact fun hle item hitem => ih item hitem (by omega)
      · obtain ⟨hdepth, hdenotes⟩ := h
        apply outcome_reduceAt_expression_of_denotes _ hdepth hdenotes
        intro item hitem
        -- The expression is one level itself, so its items may be reached.
        rw [depth_expression] at hdepth
        exact ih item hitem (by omega)

theorem outcome_reduce_eq_ok_iff {value : Value} {n : Number} :
    (value.reduce limit).outcome = .ok n ↔ value.depth ≤ limit ∧ value.Denotes n.toInt := by
  rw [reduce, isExactAt value (Nat.le_add_left 1 limit), Nat.add_comm, Nat.add_le_add_iff_right]

theorem outcome_reduceProgram_eq_ok_iff {root : Value} {n : Number} :
    (root.reduceProgram limit).outcome = .ok n ↔
      (∃ item, root.items = [item] ∧ item.depth ≤ limit ∧ item.Denotes n.toInt) ∨
      (∀ item, root.items ≠ [item]) ∧ root.depth ≤ limit + 1 ∧ root.Denotes n.toInt := by
  rcases reduceProgram_cases root with ⟨item, rfl, hitem⟩ | ⟨hmany, hroot⟩
  · rw [hitem, ← reduce, outcome_reduce_eq_ok_iff]
    simp
  · rw [hroot, isExactAt root (Nat.zero_le _), Nat.zero_add]
    simp [hmany]

/-- A program that comes to a number is within the limit. -/
theorem depth_le_of_outcome_reduceProgram_eq_ok {root : Value} {n : Number}
    (h : (root.reduceProgram limit).outcome = .ok n) : root.depth ≤ limit + 1 := by
  rcases outcome_reduceProgram_eq_ok_iff.1 h with ⟨item, hitem, hdepth, -⟩ | ⟨-, hdepth, -⟩
  · cases root with
    | expression items =>
        obtain rfl : items = [item] := hitem
        rw [depth_expression, depths_cons, depths_nil]
        omega
    | number m => cases hitem
    | symbol name => cases hitem
    | failure f => cases hitem
  · exact hdepth

end Value

/-- Evaluation is sound and complete for exact integer arithmetic: with any nesting
limit, the answer is a number exactly where the nesting is within the limit and the
value denotes that number. A program of one item is that item, and the root of any
other program does not count as a level. -/
theorem Evaluator.answers_number_iff_denotes (evaluator : Evaluator) (value root : Value)
    (n : Number) :
    ((evaluator.eval value).1 = .number n ↔
      value.depth ≤ evaluator.limit ∧ value.Denotes n.toInt) ∧
    ((evaluator.evalProgram root).1 = .number n ↔
      (∃ item, root.items = [item] ∧ item.depth ≤ evaluator.limit ∧ item.Denotes n.toInt) ∨
      (∀ item, root.items ≠ [item]) ∧ root.depth ≤ evaluator.limit + 1 ∧
        root.Denotes n.toInt) := by
  rw [eval_fst, evalProgram_fst, Value.ofOutcome_eq_number_iff, Value.ofOutcome_eq_number_iff]
  exact ⟨Value.outcome_reduce_eq_ok_iff, Value.outcome_reduceProgram_eq_ok_iff⟩

end PrefixCalc
