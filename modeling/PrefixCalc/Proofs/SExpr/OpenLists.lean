/-
# How deep reading goes

Reading goes from token to token, with the items of the innermost open list and those of the
lists around it. `Reading` says which of these states it comes to, also where the text is
refused in the end, and `Reading.readOnto_eq` that they are states of `readOnto`.

The number of open lists is checked where a list is opened and nowhere else. That is enough
for all of them: what is in an open list goes no deeper than the limit leaves room for
(`Fits`), since a list that is closed takes the room of its own opening. So neither
the lists that are open nor the items that have been read ever go beyond the limit.
-/

import PrefixCalc.SyntaxTree.OfSource

namespace PrefixCalc

namespace SExpr

/-- A state that reading comes to: the items of the innermost open list, the latest first,
those of the lists around it, and what has not been read. -/
inductive Reading (limit : Nat) (lexemes : List Lexeme) :
    List SExpr → List (List SExpr) → List Lexeme → Prop
  | start : Reading limit lexemes [] [] lexemes
  | atom {items : List SExpr} {enclosing : List (List SExpr)} {a : Atom} {column : Nat}
      {rest : List Lexeme} :
      Reading limit lexemes items enclosing (⟨.atom a, column⟩ :: rest) →
      Reading limit lexemes (.atom a :: items) enclosing rest
  | opening {items : List SExpr} {enclosing : List (List SExpr)} {column : Nat}
      {rest : List Lexeme} :
      Reading limit lexemes items enclosing (⟨.leftParen, column⟩ :: rest) →
      enclosing.length < limit → Reading limit lexemes [] (items :: enclosing) rest
  | closing {items outer : List SExpr} {enclosing : List (List SExpr)} {column : Nat}
      {rest : List Lexeme} :
      Reading limit lexemes items (outer :: enclosing) (⟨.rightParen, column⟩ :: rest) →
      Reading limit lexemes (.list items.reverse :: outer) enclosing rest

variable {limit endColumn : Nat} {lexemes rest : List Lexeme} {items : List SExpr}
  {enclosing : List (List SExpr)}

/-- What is read is decided from every state that reading comes to. -/
theorem Reading.readOnto_eq (h : Reading limit lexemes items enclosing rest) :
    readOnto limit endColumn items enclosing rest = read limit endColumn lexemes := by
  induction h with
  | start => rfl
  | atom _ ih => rw [← ih, readOnto]
  | opening _ hroom ih => rw [← ih, readOnto, if_pos hroom]
  | closing _ ih => rw [← ih, readOnto]

/-- The items of some open lists, the innermost first, go no deeper than a limit leaves room
for. -/
def Fits (limit : Nat) : List (List SExpr) → Prop
  | [] => True
  | items :: enclosing => depths items + enclosing.length ≤ limit ∧ Fits limit enclosing

theorem depths_reverse (items : List SExpr) : depths items.reverse = depths items := by
  induction items with
  | nil => rfl
  | cons item rest ih => simp [ih, Nat.max_comm]

/-- The open lists fit the limit in every state that reading comes to. -/
theorem Reading.fits (h : Reading limit lexemes items enclosing rest) :
    Fits limit (items :: enclosing) := by
  induction h with
  | start => exact ⟨Nat.zero_le limit, trivial⟩
  | atom _ ih => exact ⟨by simpa using ih.1, ih.2⟩
  | opening _ hroom ih =>
    refine ⟨?_, ih⟩
    rw [depths_nil, List.length_cons, Nat.zero_add]
    exact hroom
  | closing _ ih =>
    obtain ⟨hitems, houter, henclosing⟩ := ih
    refine ⟨?_, henclosing⟩
    rw [List.length_cons] at hitems
    rw [depths_cons, depth_list, depths_reverse]
    omega

/-- There are never more open lists than the limit permits, and no item that has been read
nests deeper. -/
theorem Reading.le_limit (h : Reading limit lexemes items enclosing rest) :
    enclosing.length ≤ limit ∧ ∀ item ∈ items, item.depth ≤ limit := by
  have hle : depths items + enclosing.length ≤ limit := h.fits.1
  refine ⟨by omega, fun item hitem => ?_⟩
  have := depth_le_depths hitem
  omega

end SExpr

end PrefixCalc
