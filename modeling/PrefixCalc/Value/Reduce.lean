/-
# Reducing values

Reduction turns a value into a number or a failure. Numbers and failures stand for
themselves, a symbol has no value of its own, and an expression applies the operator
named by its first item to the others, folding them from the left. The first operand
starts the fold, so an operator with a single operand is never applied, and need not
even exist.

The fold stops at the first failure, whether an operand's or an operation's, and the
operands behind it are not visited. An expression nested more deeply than a limit is
not entered.
-/

import PrefixCalc.Arithmetic
import PrefixCalc.Reduction
import PrefixCalc.Value.Basic

namespace PrefixCalc

namespace Value

mutual

/-- Reduce a value that lies at nesting level `level`. -/
def reduceAt (limit level : Nat) : Value → Reduction Number
  | .number n => (pure n : Reduction Number).visiting
  | .symbol name => (Reduction.fail (.bareSymbol name)).visiting
  | .failure f => (Reduction.stop f).visiting
  | .expression items =>
    if limit < level then (Reduction.fail (.tooDeep limit)).visiting
    else (reduceItems limit level items).visiting

/-- Reduce an expression at nesting level `level`, given its items. -/
def reduceItems (limit level : Nat) : List Value → Reduction Number
  | [] => .fail .emptyExpression
  | .symbol name :: operands => reduceOperands limit (level + 1) name operands
  | _ :: _ => .fail .noOperator

/-- Apply a symbol to operands that lie at nesting level `level`. -/
def reduceOperands (limit level : Nat) (name : String) : List Value → Reduction Number
  | [] => .fail (.noOperands name)
  | first :: rest => do foldOperands limit level name (← first.reduceAt limit level) rest

/-- Go on from a number with further operands, each reduced only when its turn
comes. -/
def foldOperands (limit level : Nat) (name : String) (total : Number) :
    List Value → Reduction Number
  | [] => pure total
  | operand :: rest => do
    let right ← operand.reduceAt limit level
    foldOperands limit level name (← .ofExcept (applyNamed name total right)) rest

end

/-- Reduce a value by itself: it lies at nesting level one. -/
def reduce (limit : Nat) (value : Value) : Reduction Number := value.reduceAt limit 1

/-- Reduce the root of a program. A program of one item is that item; any other is
itself an expression of its items, but one without parentheses, so that its items lie
at nesting level one in either case. -/
def reduceProgram (limit : Nat) (root : Value) : Reduction Number :=
  match root.soleItem? with
  | some only => only.reduceAt limit 1
  | none => root.reduceAt limit 0

/-- The value that an outcome is. -/
def ofOutcome : Except Failure Number → Value
  | .ok n => .number n
  | .error f => .failure f

@[simp]
theorem ofOutcome_eq_number_iff {outcome : Except Failure Number} {n : Number} :
    ofOutcome outcome = .number n ↔ outcome = .ok n := by
  cases outcome <;> simp [ofOutcome]

@[simp]
theorem ofOutcome_eq_failure_iff {outcome : Except Failure Number} {f : Failure} :
    ofOutcome outcome = .failure f ↔ outcome = .error f := by
  cases outcome <;> simp [ofOutcome]

end Value

end PrefixCalc
