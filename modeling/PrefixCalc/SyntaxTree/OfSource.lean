/-
# From source text to syntax tree

`SyntaxTree.parse` joins the lexer and the reader. The whole text is split into
tokens before any parenthesis is looked at, so a character that starts no token is
reported first, whatever the parentheses do.
-/

import PrefixCalc.SExpr.Reader
import PrefixCalc.SyntaxTree.Basic
import PrefixCalc.Token.Lexer

namespace PrefixCalc

/-- The program that a source text spells, with at most `limit` lists inside one
another. -/
def Program.parse (limit : Nat) (source : String) : Except SyntaxError Program := do
  SExpr.read limit (endColumn source) (← Lexeme.lex source)

/-- The syntax tree of a source text. -/
def SyntaxTree.parse (limit : Nat) (source : String) : Except SyntaxError SyntaxTree :=
  (Program.parse limit source).map ofProgram

end PrefixCalc
