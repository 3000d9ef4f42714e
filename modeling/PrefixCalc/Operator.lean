/-
# Operators

The five binary operators, each written as one character. `Operator.exact` is
what an operator means over the unbounded integers: division truncates toward
zero and the remainder takes the sign of the dividend.

Whether a machine may carry the operation out is a separate question, and it is
asked of `Operator.checked`: for the remainder that is the quotient, because the
remainder is refused wherever its quotient would not be a number.
-/

namespace PrefixCalc

/-- A binary operator of the calculator. -/
inductive Operator where
  | add
  | sub
  | mul
  | div
  | rem
  deriving DecidableEq

namespace Operator

/-! ## Written form -/

/-- The character that writes an operator. -/
def glyph : Operator → Char
  | .add => '+'
  | .sub => '-'
  | .mul => '*'
  | .div => '/'
  | .rem => '%'

/-- The operator a character writes, if any. -/
def ofGlyph? : Char → Option Operator
  | '+' => some .add
  | '-' => some .sub
  | '*' => some .mul
  | '/' => some .div
  | '%' => some .rem
  | _ => none

@[simp]
theorem ofGlyph?_glyph (op : Operator) : ofGlyph? op.glyph = some op := by
  cases op <;> rfl

/-- Each operator is written by its own glyph and by nothing else. -/
theorem ofGlyph?_eq_some_iff {c : Char} {op : Operator} : ofGlyph? c = some op ↔ c = op.glyph := by
  constructor
  · unfold ofGlyph?
    split <;> rintro h <;> cases h <;> rfl
  · rintro rfl
    exact ofGlyph?_glyph op

/-- The glyph as the text of a symbol. -/
def symbol (op : Operator) : String := String.singleton op.glyph

/-- The operator a symbol names, if any: only one-character symbols name one. -/
def ofSymbol? (name : String) : Option Operator :=
  match name.toList with
  | [c] => ofGlyph? c
  | _ => none

@[simp]
theorem ofSymbol?_symbol (op : Operator) : ofSymbol? op.symbol = some op := by
  simp [ofSymbol?, symbol]

/-- A symbol names an operator exactly when it is that operator's glyph. -/
theorem ofSymbol?_eq_some_iff {name : String} {op : Operator} :
    ofSymbol? name = some op ↔ name = op.symbol := by
  constructor
  · unfold ofSymbol?
    split
    · next c hc =>
      intro h
      rw [ofGlyph?_eq_some_iff] at h
      rw [symbol, ← h, ← String.toList_inj, hc, String.toList_singleton]
    · intro h
      cases h
  · rintro rfl
    exact ofSymbol?_symbol op

/-! ## Meaning -/

/-- The exact integer result. -/
def exact : Operator → Int → Int → Int
  | .add, left, right => left + right
  | .sub, left, right => left - right
  | .mul, left, right => left * right
  | .div, left, right => left.tdiv right
  | .rem, left, right => left.tmod right

/-- Whether the right operand is a divisor, which must not be zero. -/
def divides : Operator → Bool
  | .div | .rem => true
  | .add | .sub | .mul => false

/-- The integer that has to be in range for the operation to be carried out: the
result itself, except that a remainder needs its quotient. -/
def checked : Operator → Int → Int → Int
  | .rem, left, right => left.tdiv right
  | op, left, right => op.exact left right

end Operator

end PrefixCalc
