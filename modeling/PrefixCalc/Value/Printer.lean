/-
# Displayed values

A value has two texts. Its *display* shows the whole tree and, for a value without
failures and with well-spelled symbols, can be read back as source. What is
*rendered* is an answer for the user: a number is its numeral and everything else
is a message.

The display is written in front of whatever text follows, so that a value of any
depth is written in one pass. `write_eq_append` says that what follows does not
influence what is written, and `chars_expression` gives the usual equation of an
expression: its items between parentheses, separated by single spaces.
-/

import PrefixCalc.Value.Basic

namespace PrefixCalc

namespace Value

mutual

/-- Write the display of a value in front of `rest`. -/
def write : Value → List Char → List Char
  | .number n, rest => n.digits ++ rest
  | .symbol name, rest => name.toList ++ rest
  | .failure f, rest => f.text.toList ++ rest
  | .expression items, rest => '(' :: writeItems items (')' :: rest)

/-- Write the displays of some values, separated by single spaces, in front of
`rest`. -/
def writeItems : List Value → List Char → List Char
  | [], rest => rest
  | [value], rest => value.write rest
  | value :: next :: more, rest => value.write (' ' :: writeItems (next :: more) rest)

end

/-- The characters of the display. -/
def chars (value : Value) : List Char := value.write []

/-- The display as text. -/
def display (value : Value) : String := String.ofList value.chars

mutual

/-- What follows a value does not influence how it is written. -/
theorem write_eq_append (value : Value) (rest : List Char) :
    value.write rest = value.chars ++ rest := by
  cases value with
  | expression items =>
    simp [chars, write, writeItems_eq_append items (')' :: rest), writeItems_eq_append items [')']]
  | _ => simp [chars, write]

theorem writeItems_eq_append (values : List Value) (rest : List Char) :
    writeItems values rest = writeItems values [] ++ rest := by
  match values with
  | [] => simp [writeItems]
  | [value] => simp [writeItems, write_eq_append value rest, write_eq_append value []]
  | value :: next :: more =>
    have htail := writeItems_eq_append (next :: more) rest
    rw [writeItems, writeItems, write_eq_append value (' ' :: _), write_eq_append value (' ' :: _), htail]
    simp

end

/-- Displays of items are joined by single spaces. -/
theorem writeItems_nil_eq_intercalate (values : List Value) :
    writeItems values [] = [' '].intercalate (values.map chars) := by
  induction values with
  | nil => simp [writeItems]
  | cons value more ih =>
    cases more with
    | nil => simp [writeItems, chars]
    | cons next more =>
      rw [writeItems, write_eq_append, ih]
      simp [List.intercalate]

/-- An expression is displayed as its items between parentheses. -/
theorem chars_expression (items : List Value) :
    (expression items).chars = '(' :: ([' '].intercalate (items.map chars) ++ [')']) := by
  rw [chars, write, writeItems_eq_append, writeItems_nil_eq_intercalate]

@[simp] theorem chars_number (n : Number) : (number n).chars = n.digits := by
  simp [chars, write]

@[simp] theorem chars_symbol (name : String) : (symbol name).chars = name.toList := by
  simp [chars, write]

/-- The answer that a value gives the user. A value that is neither a number nor a
failure is no answer, and is reported like a malformed one. -/
def render : Value → String
  | .number n => n.text
  | .failure f => f.kind.message
  | .symbol _ | .expression _ => FailureKind.malformed.message

end Value

end PrefixCalc
