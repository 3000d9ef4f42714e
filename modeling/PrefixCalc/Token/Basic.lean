/-
# Tokens

A source text is a sequence of parentheses and atoms: numerals, operators and
words. An atom keeps the text it was written with, so that `007` and `7` are
different atoms although they spell one number.

Not every value of the type is the spelling of an atom: `Atom.isSpelled` tells
those whose text has the form of their class. All character classes are ASCII.
-/

import PrefixCalc.Operator

namespace PrefixCalc

/-! ## Character classes -/

/-- The characters that only separate tokens: space, tab, carriage return, line
feed and form feed. -/
def isBlank (c : Char) : Bool :=
  c = ' ' || c = '\t' || c = '\r' || c = '\n' || c = '\x0c'

/-- The characters a word may start with. -/
def isWordStart (c : Char) : Bool := c.isAlpha || c = '_'

/-- The characters a word may go on with. -/
def isWordPart (c : Char) : Bool := c.isAlphanum || c = '_'

/-- A non-empty run of digits, after at most one minus sign. -/
def isNumeral : List Char → Bool
  | '-' :: digits => !digits.isEmpty && digits.all Char.isDigit
  | digits => !digits.isEmpty && digits.all Char.isDigit

/-- A letter or underscore, and then letters, digits and underscores. -/
def isWord : List Char → Bool
  | c :: rest => isWordStart c && rest.all isWordPart
  | [] => false

/-! ## Atoms -/

/-- The smallest pieces of source text that stand for a value. -/
inductive Atom where
  /-- The spelling of an integer. -/
  | numeral (text : String)
  /-- An operator. -/
  | operator (op : Operator)
  /-- A name. -/
  | word (name : String)
  deriving DecidableEq

namespace Atom

/-- How an atom is written. -/
def text : Atom → String
  | .numeral text => text
  | .operator op => op.symbol
  | .word name => name

/-- Whether the text of an atom has the form of its class. -/
def isSpelled : Atom → Bool
  | .numeral text => isNumeral text.toList
  | .operator _ => true
  | .word name => isWord name.toList

end Atom

/-! ## Tokens -/

/-- A token of the source text. -/
inductive Token where
  /-- A numeral, an operator or a word. -/
  | atom (atom : Atom)
  /-- An opening parenthesis. -/
  | leftParen
  /-- A closing parenthesis. -/
  | rightParen
  deriving DecidableEq

namespace Token

/-- How a token is written. -/
def text : Token → String
  | .atom a => a.text
  | .leftParen => "("
  | .rightParen => ")"

/-- The characters of a token. -/
def chars (token : Token) : List Char := token.text.toList

/-- Whether the text of a token has the form of its class. -/
def isSpelled : Token → Bool
  | .atom a => a.isSpelled
  | .leftParen | .rightParen => true

/-- Whether a token is a parenthesis, which needs no separator from its neighbours. -/
def isParen : Token → Bool
  | .atom _ => false
  | .leftParen | .rightParen => true

@[simp] theorem chars_leftParen : Token.leftParen.chars = ['('] := by simp [chars, text]
@[simp] theorem chars_rightParen : Token.rightParen.chars = [')'] := by simp [chars, text]

end Token

/-- A token together with the column of its first character. Columns count
characters from one. -/
structure Lexeme where
  /-- The token that was read. -/
  token : Token
  /-- Where it starts. -/
  column : Nat
  deriving DecidableEq

end PrefixCalc
