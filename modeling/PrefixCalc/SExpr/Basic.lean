/-
# S-expressions

What a source text says once its parentheses are matched: an atom, or a list of
s-expressions. A program is a list of s-expressions, its top-level items.

`tokens` is the view of an s-expression as the tokens that write it, and `depth`
counts the parentheses around its innermost item.
-/

import PrefixCalc.Token.Basic

namespace PrefixCalc

/-- An atom, or a list of s-expressions between parentheses. -/
inductive SExpr where
  /-- A numeral, an operator or a word. -/
  | atom (atom : Atom)
  /-- A parenthesised list. -/
  | list (items : List SExpr)

/-- A program: the top-level items of a source text. -/
abbrev Program := List SExpr

namespace SExpr

/-- Induction on s-expressions. The case of a list may assume the property of each item. -/
@[induction_eliminator]
theorem recOn_items {motive : SExpr → Prop} (atom : ∀ a, motive (.atom a))
    (list : ∀ items, (∀ item ∈ items, motive item) → motive (.list items)) :
    ∀ expr, motive expr
  | .atom a => atom a
  | .list items => list items fun item _ => recOn_items atom list item

mutual

/-- The tokens that write an s-expression. -/
def tokens : SExpr → List Token
  | .atom a => [.atom a]
  | .list items => .leftParen :: (tokensOfAll items ++ [.rightParen])

/-- The tokens that write some s-expressions, one after the other. -/
def tokensOfAll : List SExpr → List Token
  | [] => []
  | expr :: rest => expr.tokens ++ tokensOfAll rest

end

mutual

/-- How deeply parentheses nest in an s-expression. -/
def depth : SExpr → Nat
  | .atom _ => 0
  | .list items => 1 + depths items

/-- The greatest depth of some s-expressions, zero if there are none. -/
def depths : List SExpr → Nat
  | [] => 0
  | expr :: rest => max expr.depth (depths rest)

end

@[simp] theorem tokens_atom (a : Atom) : (atom a).tokens = [.atom a] := by rw [tokens]
@[simp] theorem tokens_list (items : List SExpr) :
    (list items).tokens = .leftParen :: (tokensOfAll items ++ [.rightParen]) := by rw [tokens]
@[simp] theorem tokensOfAll_nil : tokensOfAll [] = [] := by rw [tokensOfAll]
@[simp] theorem tokensOfAll_cons (expr : SExpr) (rest : List SExpr) :
    tokensOfAll (expr :: rest) = expr.tokens ++ tokensOfAll rest := by rw [tokensOfAll]

@[simp] theorem tokensOfAll_append (front back : List SExpr) :
    tokensOfAll (front ++ back) = tokensOfAll front ++ tokensOfAll back := by
  induction front with
  | nil => simp
  | cons expr rest ih => simp [ih]

/-- The tokens of a member are among those of the list. -/
theorem mem_tokensOfAll {expr : SExpr} {exprs : List SExpr} (hexpr : expr ∈ exprs)
    {token : Token} (htoken : token ∈ expr.tokens) : token ∈ tokensOfAll exprs := by
  induction exprs with
  | nil => cases hexpr
  | cons first rest ih =>
    rw [tokensOfAll_cons, List.mem_append]
    rcases List.mem_cons.1 hexpr with rfl | hrest
    · exact .inl htoken
    · exact .inr (ih hrest)

@[simp] theorem depth_atom (a : Atom) : (atom a).depth = 0 := by rw [depth]
@[simp] theorem depth_list (items : List SExpr) : (list items).depth = 1 + depths items := by
  rw [depth]
@[simp] theorem depths_nil : depths [] = 0 := by rw [depths]
@[simp] theorem depths_cons (expr : SExpr) (rest : List SExpr) :
    depths (expr :: rest) = max expr.depth (depths rest) := by rw [depths]

theorem depth_le_depths {expr : SExpr} {exprs : List SExpr} (h : expr ∈ exprs) :
    expr.depth ≤ depths exprs := by
  induction exprs with
  | nil => cases h
  | cons first rest ih =>
    rw [depths_cons]
    rcases List.mem_cons.1 h with rfl | hrest
    · exact Nat.le_max_left _ _
    · exact Nat.le_trans (ih hrest) (Nat.le_max_right _ _)

@[simp] theorem depths_append (front back : List SExpr) :
    depths (front ++ back) = max (depths front) (depths back) := by
  induction front with
  | nil => simp
  | cons expr rest ih => simp [ih, Nat.max_assoc]

end SExpr

end PrefixCalc
