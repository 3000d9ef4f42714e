/-
# Reading s-expressions

The reader matches parentheses. It keeps the items of the innermost open list and,
behind them, those of the lists around it; an opening parenthesis starts a new
innermost list and a closing one puts it into the list around it. The number of
open lists is the nesting level, which must not rise above a limit.

The errors are exactly those of counting parentheses: one that closes nothing, one
too many that are open, and lists still open at the end. `tokensOfAll_of_read` says
that an accepted program is written by the tokens it was read from.
-/

import PrefixCalc.SExpr.Basic
import PrefixCalc.SyntaxError

namespace PrefixCalc

namespace SExpr

/-- Read what follows after some items, the latest first, inside some open lists,
the innermost first. -/
def readOnto (limit endColumn : Nat) (items : List SExpr) (enclosing : List (List SExpr)) :
    List Lexeme → Except SyntaxError Program
  | [] =>
    match enclosing with
    | [] => .ok items.reverse
    | _ :: _ => .error ⟨.expectedClosing, endColumn⟩
  | ⟨.atom a, _⟩ :: rest => readOnto limit endColumn (.atom a :: items) enclosing rest
  | ⟨.leftParen, column⟩ :: rest =>
    if enclosing.length < limit then readOnto limit endColumn [] (items :: enclosing) rest
    else .error ⟨.nestedTooDeeply limit, column⟩
  | ⟨.rightParen, column⟩ :: rest =>
    match enclosing with
    | [] => .error ⟨.unexpectedClosing, column⟩
    | outer :: enclosing =>
      readOnto limit endColumn (.list items.reverse :: outer) enclosing rest

/-- The program that some tokens write, with at most `limit` lists inside one another. -/
def read (limit endColumn : Nat) (lexemes : List Lexeme) : Except SyntaxError Program :=
  readOnto limit endColumn [] [] lexemes

/-- The tokens that have been read, given the items and open lists they led to. -/
def tokensBefore (items : List SExpr) : List (List SExpr) → List Token
  | [] => tokensOfAll items.reverse
  | outer :: enclosing =>
    tokensBefore outer enclosing ++ .leftParen :: tokensOfAll items.reverse

theorem tokensBefore_cons (item : SExpr) (items : List SExpr) (enclosing : List (List SExpr)) :
    tokensBefore (item :: items) enclosing = tokensBefore items enclosing ++ item.tokens := by
  cases enclosing <;> simp [tokensBefore]

theorem tokensOfAll_of_readOnto {limit endColumn : Nat} {lexemes : List Lexeme}
    {items : List SExpr} {enclosing : List (List SExpr)} {program : Program}
    (h : readOnto limit endColumn items enclosing lexemes = .ok program) :
    tokensOfAll program = tokensBefore items enclosing ++ lexemes.map Lexeme.token := by
  fun_induction readOnto limit endColumn items enclosing lexemes with
  | case1 => cases h; simp [tokensBefore]
  | case2 => cases h
  | case3 items enclosing a column rest ih => simp [ih h, tokensBefore_cons]
  | case4 items enclosing column rest hlimit ih => simp [ih h, tokensBefore]
  | case5 => cases h
  | case6 => cases h
  | case7 items column rest outer enclosing ih => simp [ih h, tokensBefore_cons, tokensBefore]

/-- An accepted program is written by exactly the tokens it was read from. -/
theorem tokensOfAll_of_read {limit endColumn : Nat} {lexemes : List Lexeme} {program : Program}
    (h : read limit endColumn lexemes = .ok program) :
    tokensOfAll program = lexemes.map Lexeme.token := by
  simpa [tokensBefore] using tokensOfAll_of_readOnto h

end SExpr

end PrefixCalc
