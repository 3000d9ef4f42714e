/-
# Syntax errors

What can be wrong with a source text, and where. A fault says what is wrong; the
error adds the column, which counts characters from one. The wording is one line
in the manner of a compiler, and a source text always has a single line.
-/

namespace PrefixCalc

/-- What can be wrong with a source text. -/
inductive SyntaxFault where
  /-- A character that starts no token. -/
  | unexpectedCharacter (found : Char)
  /-- A closing parenthesis that closes nothing. -/
  | unexpectedClosing
  /-- The end of the text, where a list is still open. -/
  | expectedClosing
  /-- An opening parenthesis that nests more deeply than the limit permits. -/
  | nestedTooDeeply (limit : Nat)
  deriving DecidableEq

/-- The wording of a fault. -/
def SyntaxFault.message : SyntaxFault → String
  | .unexpectedCharacter found =>
    "unexpected '" ++ String.singleton found ++ "', " ++ expectedItem
  | .unexpectedClosing => "unexpected ')', " ++ expectedItem
  | .expectedClosing => "unexpected end of input, expected ')'"
  | .nestedTooDeeply limit => "expressions nest deeper than " ++ toString limit ++ " levels"
where
  /-- What may stand where an item may start or the text may end. -/
  expectedItem : String := "expected number, symbol, '(' or end of input"

/-- A fault and the column at which it was found. -/
structure SyntaxError where
  /-- What is wrong. -/
  fault : SyntaxFault
  /-- Where: the number of characters up to and including the offending one. -/
  column : Nat
  deriving DecidableEq

/-- The diagnostic that the user reads. -/
def SyntaxError.message (error : SyntaxError) : String :=
  "<stdin>:1:" ++ toString error.column ++ ": error: " ++ error.fault.message

end PrefixCalc
