/-
# Steps of a reduction

What each stage of a reduction can do, said once: the equations by which a
reduction goes on, and for each stage the exact conditions under which it ends in
a number. Everything that is proved about reductions rests on these lemmas and on
the induction on values; nothing else looks into the recursion.
-/

import PrefixCalc.Value.Reduce
import Mathlib.Data.List.Forall2

namespace PrefixCalc

namespace Reduction

variable {α β : Type}

/-- A reduction after another one ends in a result exactly if both do. -/
theorem outcome_bind_eq_ok_iff {first : Reduction α} {next : α → Reduction β} {b : β} :
    (first >>= next).outcome = .ok b ↔
      ∃ a, first.outcome = .ok a ∧ (next a).outcome = .ok b := by
  rw [outcome_bind]
  cases first.outcome with
  | ok a => simp [bind, Except.bind]
  | error failure => simp [bind, Except.bind]

/-- A reduction after another one fails exactly if one of them does. -/
theorem outcome_bind_eq_error_iff {first : Reduction α} {next : α → Reduction β} {f : Failure} :
    (first >>= next).outcome = .error f ↔
      first.outcome = .error f ∨ ∃ a, first.outcome = .ok a ∧ (next a).outcome = .error f := by
  rw [outcome_bind]
  cases first.outcome with
  | ok a => simp [bind, Except.bind]
  | error failure => simp [bind, Except.bind]

@[simp]
theorem outcome_ofExcept_eq_ok_iff {result : Except Cause α} {a : α} :
    (ofExcept result).outcome = .ok a ↔ result = .ok a := by
  cases result <;> simp [ofExcept]

/-- Nothing happens behind a failure. -/
theorem bind_eq_of_outcome_eq_error {first : Reduction α} {next : α → Reduction β} {f : Failure}
    (h : first.outcome = .error f) : first >>= next = ⟨.error f, first.visits⟩ := by
  rcases first with ⟨_ | _, _⟩
  · cases h
    rfl
  · cases h

theorem visits_bind_of_eq_ok {first : Reduction α} {next : α → Reduction β} {a : α}
    (h : first.outcome = .ok a) :
    (first >>= next).visits = first.visits + (next a).visits := by
  rw [visits_bind, h]

theorem outcome_ofExcept (result : Except Cause α) :
    (ofExcept result).outcome = result.mapError Cause.failure := by
  cases result <;> rfl

@[simp]
theorem visits_ofExcept (result : Except Cause α) : (ofExcept result).visits = 0 := by
  cases result <;> rfl

theorem visits_le_visits_bind (first : Reduction α) (next : α → Reduction β) :
    first.visits ≤ (first >>= next).visits := by
  rw [visits_bind]
  exact Nat.le_add_right _ _

/-- Nothing is visited behind a failure. -/
theorem visits_bind_of_eq_error {first : Reduction α} {next : α → Reduction β} {f : Failure}
    (h : first.outcome = .error f) : (first >>= next).visits = first.visits := by
  rw [bind_eq_of_outcome_eq_error h]

/-- A relation between reductions that is kept when reductions are run one after the
other, and when a node is visited before them. -/
structure IsCongruence (Related : Reduction Number → Reduction Number → Prop) : Prop where
  /-- Every reduction is related to itself. -/
  refl (reduction : Reduction Number) : Related reduction reduction
  /-- Both visit one more node. -/
  visiting {first second : Reduction Number} :
    Related first second → Related first.visiting second.visiting
  /-- Both go on in related ways. -/
  bind {first second : Reduction Number} {next next' : Number → Reduction Number} :
    Related first second → (∀ n, Related (next n) (next' n)) →
    Related (first >>= next) (second >>= next')

theorem isCongruence_eq : IsCongruence Eq where
  refl _ := rfl
  visiting h := by rw [h]
  bind h hnext := by rw [h, funext hnext]

end Reduction

namespace Value

variable {limit level : Nat} {name : String}

/-! ## Equations -/

@[simp]
theorem reduceAt_number (limit level : Nat) (n : Number) :
    (number n).reduceAt limit level = (pure n : Reduction Number).visiting := by
  rw [reduceAt]

@[simp]
theorem reduceAt_symbol (limit level : Nat) (name : String) :
    (symbol name).reduceAt limit level = (Reduction.fail (.bareSymbol name)).visiting := by
  rw [reduceAt]

@[simp]
theorem reduceAt_failure (limit level : Nat) (f : Failure) :
    (failure f).reduceAt limit level = (Reduction.stop f).visiting := by
  rw [reduceAt]

/-- An expression below the limit is not entered. -/
theorem reduceAt_expression_of_lt (items : List Value) (h : limit < level) :
    (expression items).reduceAt limit level = (Reduction.fail (.tooDeep limit)).visiting := by
  rw [reduceAt, if_pos h]

theorem reduceAt_expression_of_le (items : List Value) (h : level ≤ limit) :
    (expression items).reduceAt limit level = (reduceItems limit level items).visiting := by
  rw [reduceAt, if_neg (Nat.not_lt.2 h)]

/-- Every value is visited itself. -/
theorem one_le_visits_reduceAt (value : Value) :
    1 ≤ (value.reduceAt limit level).visits := by
  cases value with
  | expression items =>
      by_cases hlevel : level ≤ limit
      · rw [reduceAt_expression_of_le items hlevel, Reduction.visits_visiting]
        omega
      · rw [reduceAt_expression_of_lt items (Nat.not_le.1 hlevel), Reduction.visits_visiting]
        omega
  | number n => simp
  | symbol name => simp
  | failure f => simp

theorem foldOperands_nil (total : Number) :
    foldOperands limit level name total [] = pure total := by
  rw [foldOperands]

theorem foldOperands_cons (total : Number) (operand : Value) (rest : List Value) :
    foldOperands limit level name total (operand :: rest) =
      operand.reduceAt limit level >>= fun right =>
        Reduction.ofExcept (applyNamed name total right) >>= fun next =>
          foldOperands limit level name next rest := by
  rw [foldOperands]

/-! ## Reductions that end in a number -/

theorem outcome_reduceItems_eq_ok_iff {items : List Value} {n : Number} :
    (reduceItems limit level items).outcome = .ok n ↔
      ∃ name first rest total, items = .symbol name :: first :: rest ∧
        (first.reduceAt limit (level + 1)).outcome = .ok total ∧
        (foldOperands limit (level + 1) name total rest).outcome = .ok n := by
  unfold reduceItems
  split
  · simp
  · next name operands =>
      cases operands with
      | nil => simp [reduceOperands]
      | cons first rest =>
          rw [reduceOperands, Reduction.outcome_bind_eq_ok_iff]
          refine ⟨fun h => ?_, fun h => ?_⟩
          · obtain ⟨total, hfirst, hfold⟩ := h
            exact ⟨name, first, rest, total, rfl, hfirst, hfold⟩
          · obtain ⟨_, _, _, total, hitems, hfirst, hfold⟩ := h
            cases hitems
            exact ⟨total, hfirst, hfold⟩
  · next head tail hhead =>
      refine ⟨fun h => ?_, fun h => ?_⟩
      · cases h
      · obtain ⟨name, first, rest, total, hitems, -⟩ := h
        cases hitems
        exact absurd rfl (hhead name)

/-- An expression reduces to a number exactly if it lies within the limit, starts
with a symbol, has an operand, and the fold over its operands ends in that number. -/
theorem outcome_reduceAt_expression_eq_ok_iff {items : List Value} {n : Number} :
    ((expression items).reduceAt limit level).outcome = .ok n ↔
      level ≤ limit ∧ ∃ name first rest total, items = .symbol name :: first :: rest ∧
        (first.reduceAt limit (level + 1)).outcome = .ok total ∧
        (foldOperands limit (level + 1) name total rest).outcome = .ok n := by
  rw [← outcome_reduceItems_eq_ok_iff]
  by_cases hlevel : level ≤ limit
  · rw [reduceAt_expression_of_le items hlevel]
    simp [hlevel]
  · rw [reduceAt_expression_of_lt items (Nat.not_le.1 hlevel)]
    simp [hlevel]

/-- An expression that comes to a number is a symbol in front of operands that do. -/
theorem exists_operands_of_outcome_eq_ok {items : List Value} {n : Number}
    (h : ((expression items).reduceAt limit level).outcome = .ok n) :
    level ≤ limit ∧ ∃ name operands, items = symbol name :: operands ∧
      (reduceOperands limit (level + 1) name operands).outcome = .ok n := by
  obtain ⟨hlevel, name, first, rest, total, rfl, hfirst, hfold⟩ :=
    outcome_reduceAt_expression_eq_ok_iff.1 h
  refine ⟨hlevel, name, first :: rest, rfl, ?_⟩
  rw [reduceOperands]
  exact Reduction.outcome_bind_eq_ok_iff.2 ⟨total, hfirst, hfold⟩

/-- A fold goes on exactly if the next operand reduces to a number that the named
operator can be applied to. -/
theorem outcome_foldOperands_cons_eq_ok_iff {total n : Number} {operand : Value}
    {rest : List Value} :
    (foldOperands limit level name total (operand :: rest)).outcome = .ok n ↔
      ∃ right next, (operand.reduceAt limit level).outcome = .ok right ∧
        applyNamed name total right = .ok next ∧
        (foldOperands limit level name next rest).outcome = .ok n := by
  rw [foldOperands_cons]
  simp only [Reduction.outcome_bind_eq_ok_iff, Reduction.outcome_ofExcept_eq_ok_iff]
  refine ⟨fun h => ?_, fun h => ?_⟩
  · obtain ⟨right, hright, next, hnext, hrest⟩ := h
    exact ⟨right, next, hright, hnext, hrest⟩
  · obtain ⟨right, next, hright, hnext, hrest⟩ := h
    exact ⟨right, hright, next, hnext, hrest⟩

/-! ## Programs -/

theorem reduceProgram_singleton (limit : Nat) (item : Value) :
    (expression [item]).reduceProgram limit = item.reduceAt limit 1 := rfl

/-- A program is reduced as its only item at level one, or as its root at level
zero. -/
theorem reduceProgram_cases (root : Value) :
    (∃ item, root = expression [item] ∧
      ∀ limit, root.reduceProgram limit = item.reduceAt limit 1) ∨
    (∀ item, root.items ≠ [item]) ∧ ∀ limit, root.reduceProgram limit = root.reduceAt limit 0 := by
  cases hsole : root.soleItem? with
  | none =>
      right
      refine ⟨fun item hitem => ?_, fun limit => ?_⟩
      · rw [soleItem?_eq_some_iff.2 hitem] at hsole
        cases hsole
      · rw [reduceProgram, hsole]
  | some item =>
      left
      have hitems := soleItem?_eq_some_iff.1 hsole
      cases root with
      | expression items =>
          obtain rfl : items = [item] := hitems
          exact ⟨item, rfl, fun limit => reduceProgram_singleton limit item⟩
      | number n => cases hitems
      | symbol name => cases hitems
      | failure f => cases hitems

/-! ## Two reductions side by side -/

variable {Related : Reduction Number → Reduction Number → Prop} {other otherLevel : Nat}

/-- Folds are related if the reductions of the operands are, one by one. -/
theorem foldOperands_related (hrelated : Reduction.IsCongruence Related)
    {operands operands' : List Value}
    (h : List.Forall₂
      (fun v w => Related (v.reduceAt limit level) (w.reduceAt other otherLevel))
      operands operands')
    (total : Number) :
    Related (foldOperands limit level name total operands)
      (foldOperands other otherLevel name total operands') := by
  induction h generalizing total with
  | nil =>
      rw [foldOperands_nil, foldOperands_nil]
      exact hrelated.refl _
  | cons hoperand _ ih =>
      rw [foldOperands_cons, foldOperands_cons]
      apply hrelated.bind hoperand
      intro right
      apply hrelated.bind (hrelated.refl _)
      intro next
      exact ih next

/-- Expressions reduce in related ways if their operands do, one by one, and the same
symbol, or none, stands in front. -/
theorem reduceItems_cons_related (hrelated : Reduction.IsCongruence Related)
    {head head' : Value} {operands operands' : List Value}
    (hhead : ∀ name, head = symbol name ↔ head' = symbol name)
    (h : List.Forall₂
      (fun v w => Related (v.reduceAt limit (level + 1)) (w.reduceAt other (otherLevel + 1)))
      operands operands') :
    Related (reduceItems limit level (head :: operands))
      (reduceItems other otherLevel (head' :: operands')) := by
  by_cases hsymbol : ∃ name, head = symbol name
  · obtain ⟨name, rfl⟩ := hsymbol
    obtain rfl := (hhead name).1 rfl
    rw [reduceItems, reduceItems]
    cases h with
    | nil =>
        rw [reduceOperands, reduceOperands]
        exact hrelated.refl _
    | cons hfirst hmore =>
        rw [reduceOperands, reduceOperands]
        apply hrelated.bind hfirst
        intro total
        exact foldOperands_related hrelated hmore total
  · have hhead' : ∀ name, head' ≠ symbol name := fun name heq =>
      hsymbol ⟨name, (hhead name).2 heq⟩
    rw [reduceItems, reduceItems]
    · exact hrelated.refl _
    · exact hhead'
    · exact fun name heq => hsymbol ⟨name, heq⟩

/-- Expressions reduce in related ways if their items do, one by one, and the same
symbols stand in them. -/
theorem reduceItems_related (hrelated : Reduction.IsCongruence Related)
    {items items' : List Value}
    (h : List.Forall₂
      (fun v w => (∀ name, v = symbol name ↔ w = symbol name) ∧
        Related (v.reduceAt limit (level + 1)) (w.reduceAt other (otherLevel + 1)))
      items items') :
    Related (reduceItems limit level items) (reduceItems other otherLevel items') := by
  cases h with
  | nil =>
      rw [reduceItems, reduceItems]
      exact hrelated.refl _
  | cons hhead hrest =>
      exact reduceItems_cons_related hrelated hhead.1 (hrest.imp fun _ _ hitem => hitem.2)

end Value

end PrefixCalc
