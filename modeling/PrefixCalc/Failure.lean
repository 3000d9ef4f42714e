/-
# Failures

A failure is a value like any other: it has a kind and may carry a detail, and
programs can be built by hand around failures with any detail whatever. The
calculator itself fails only for a `Cause`, and `Cause.failure` is the one place
that says which kind a cause has and how its detail is worded.
-/

import PrefixCalc.Number
import PrefixCalc.Operator

namespace PrefixCalc

/-- The kinds of failure a reader of the output can tell apart. -/
inductive FailureKind where
  /-- An integer that is no number: unreadable, or out of range. -/
  | badNumber
  /-- A division or remainder by zero. -/
  | zeroDivisor
  /-- A symbol that names no operator, where one had to be applied. -/
  | badOperator
  /-- A value that is not of the shape `(operator operand …)`, or is nested too deeply. -/
  | malformed
  deriving DecidableEq

namespace FailureKind

/-- The name that a displayed failure shows. -/
def name : FailureKind → String
  | .badNumber => "BadNumber"
  | .zeroDivisor => "DivByZero"
  | .badOperator => "BadOperator"
  | .malformed => "Malformed"

/-- The message that stands for a failed result. -/
def message : FailureKind → String
  | .badNumber => "Error: Invalid number."
  | .zeroDivisor => "Error: Division by zero."
  | .badOperator => "Error: Invalid operation."
  | .malformed => "Error: Unknown Error."

end FailureKind

/-- A failure as a value: its kind and, possibly, a detail. An empty detail is not
the same as none. -/
structure Failure where
  /-- What kind of failure it is. -/
  kind : FailureKind
  /-- What exactly went wrong. -/
  detail : Option String := none
  deriving DecidableEq

/-- The displayed form, in angle brackets. -/
def Failure.text (failure : Failure) : String :=
  match failure.detail with
  | none => "<error " ++ failure.kind.name ++ ">"
  | some detail => "<error " ++ failure.kind.name ++ ": " ++ detail ++ ">"

/-- The reasons for which the calculator itself fails. -/
inductive Cause where
  /-- A numeral that spells no number. -/
  | badLiteral (text : String)
  /-- A syntax node that stands for nothing. -/
  | unrecognizedNode (tag : String)
  /-- A symbol where a number was needed. -/
  | bareSymbol (name : String)
  /-- An expression without items. -/
  | emptyExpression
  /-- An expression whose first item is not a symbol. -/
  | noOperator
  /-- An expression that is only a symbol. -/
  | noOperands (name : String)
  /-- An expression nested below the limit. -/
  | tooDeep (limit : Nat)
  /-- A symbol that had to be applied and names no operator. -/
  | unknownOperator (name : String)
  /-- A zero on the right of a division or remainder. -/
  | zeroDivisor
  /-- An operation whose result, or quotient, is out of range. -/
  | overflow (op : Operator) (left right : Number)
  deriving DecidableEq

namespace Cause

/-- The kind of failure a cause leads to. -/
def kind : Cause → FailureKind
  | .badLiteral _ | .overflow _ _ _ => .badNumber
  | .zeroDivisor => .zeroDivisor
  | .unknownOperator _ => .badOperator
  | .unrecognizedNode _ | .bareSymbol _ | .emptyExpression | .noOperator | .noOperands _
  | .tooDeep _ => .malformed

/-- The wording of a cause. A zero divisor needs none. -/
def detail : Cause → Option String
  | .badLiteral text => some ("'" ++ text ++ "' is not a valid integer")
  | .unrecognizedNode tag => some ("unrecognized syntax node '" ++ tag ++ "'")
  | .bareSymbol name => some ("symbol '" ++ name ++ "' is not a value")
  | .emptyExpression => some "empty expression"
  | .noOperator => some "expression does not start with an operator"
  | .noOperands name => some ("operator '" ++ name ++ "' has no operands")
  | .tooDeep limit => some ("maximum nesting depth of " ++ toString limit ++ " exceeded")
  | .unknownOperator name => some ("'" ++ name ++ "' is not an operator")
  | .zeroDivisor => none
  | .overflow op left right =>
    some ("integer overflow in (" ++ op.symbol ++ " " ++ left.text ++ " " ++ right.text ++ ")")

/-- The failure that a cause leads to. -/
def failure (cause : Cause) : Failure := ⟨cause.kind, cause.detail⟩

end Cause

end PrefixCalc
