/-
# Replacing a part of a program

A part of a text that is an s-expression by itself is one wherever it stands: put
another s-expression in its place and the program changes there and nowhere else.

`Replaced` says what it means for two s-expressions to differ in this way only. The
reader keeps this relation between the items and open lists of two runs, token by
token, as long as both runs get the same tokens; only where one of them gets the new
part instead do they take different ways for a while.
-/

import PrefixCalc.Proofs.SExpr.Reading
import Mathlib.Data.List.Forall2

namespace PrefixCalc

namespace SExpr

/-- The second s-expression is the first one with `new` put in the place of `old`, at
any number of occurrences. -/
inductive Replaced (old new : SExpr) : SExpr → SExpr → Prop
  | here : Replaced old new old new
  | atom (a : Atom) : Replaced old new (.atom a) (.atom a)
  | list {items items' : List SExpr} :
      List.Forall₂ (Replaced old new) items items' →
      Replaced old new (.list items) (.list items')

variable {old new : SExpr} {limit endColumn : Nat}

/-- Two runs over the same tokens stay related. -/
theorem exists_readOnto_append {front front' : List Lexeme} (back : List Lexeme)
    {program : Program} {items items' : List SExpr} {enclosing enclosing' : List (List SExpr)}
    (htokens : front.map Lexeme.token = front'.map Lexeme.token)
    (hitems : List.Forall₂ (Replaced old new) items items')
    (henclosing : List.Forall₂ (List.Forall₂ (Replaced old new)) enclosing enclosing')
    (hopen : enclosing.length ≤ limit)
    (h : readOnto limit endColumn items enclosing (front ++ back) = .ok program) :
    ∃ last last' outer outer', List.Forall₂ (Replaced old new) last last' ∧
      List.Forall₂ (List.Forall₂ (Replaced old new)) outer outer' ∧ outer.length ≤ limit ∧
      readOnto limit endColumn last outer back = .ok program ∧
      ∀ endColumn' back', readOnto limit endColumn' items' enclosing' (front' ++ back') =
        readOnto limit endColumn' last' outer' back' := by
  induction front generalizing front' items items' enclosing enclosing' with
  | nil =>
      obtain rfl : front' = [] := List.map_eq_nil_iff.1 htokens.symm
      exact ⟨items, items', enclosing, enclosing', hitems, henclosing, hopen, h, fun _ _ => rfl⟩
  | cons lexeme rest ih =>
      obtain ⟨⟨token, column'⟩, rest', rfl, htoken, hrest⟩ := List.map_eq_cons_iff.1 htokens.symm
      obtain ⟨token, column⟩ := lexeme
      cases htoken
      rw [List.cons_append] at h
      cases token with
      | atom a =>
          rw [readOnto] at h
          simp only [List.cons_append, readOnto]
          exact ih hrest.symm (.cons (.atom a) hitems) henclosing hopen h
      | leftParen =>
          rw [readOnto] at h
          simp only [List.cons_append, readOnto, ← henclosing.length_eq]
          by_cases hroom : enclosing.length < limit
          · rw [if_pos hroom] at h
            simp only [if_pos hroom]
            exact ih hrest.symm .nil (.cons hitems henclosing) hroom h
          · rw [if_neg hroom] at h
            cases h
      | rightParen =>
          cases henclosing with
          | nil => cases h
          | @cons outer outer' _ _ houter henclosing =>
              rw [readOnto] at h
              simp only [List.cons_append, readOnto]
              rw [List.length_cons] at hopen
              exact ih hrest.symm (.cons (.list (List.rel_reverse hitems)) houter) henclosing
                (by omega) h

/-- The tokens of an s-expression that the limit leaves room for are read as one more
item. -/
theorem readOnto_tokens_of_le {expr : SExpr} {part back : List Lexeme}
    (hpart : part.map Lexeme.token = expr.tokens) {items : List SExpr}
    {enclosing : List (List SExpr)} (hroom : enclosing.length + expr.depth ≤ limit) :
    readOnto limit endColumn items enclosing (part ++ back) =
      readOnto limit endColumn (expr :: items) enclosing back := by
  have hopen : enclosing.length ≤ limit := by omega
  obtain ⟨column, hread⟩ := readOnto_tokens expr hpart back items enclosing hopen
  rw [hread, if_pos hroom]

theorem le_of_readOnto_tokens_eq_ok {expr : SExpr} {part back : List Lexeme} {program : Program}
    (hpart : part.map Lexeme.token = expr.tokens) {items : List SExpr}
    {enclosing : List (List SExpr)} (hopen : enclosing.length ≤ limit)
    (h : readOnto limit endColumn items enclosing (part ++ back) = .ok program) :
    enclosing.length + expr.depth ≤ limit := by
  obtain ⟨column, hread⟩ := readOnto_tokens expr hpart back items enclosing hopen
  by_contra hroom
  rw [hread, if_neg hroom] at h
  cases h

/-- A program in which the tokens of one s-expression are exchanged for those of
another one, no deeper than it, is read as the program with the one in the place of the
other. -/
theorem exists_read_replaced {endColumn' : Nat} {front back : List Token} {program : Program}
    {lexemes lexemes' : List Lexeme} (hdepth : new.depth ≤ old.depth)
    (hlexemes : lexemes.map Lexeme.token = front ++ (old.tokens ++ back))
    (hlexemes' : lexemes'.map Lexeme.token = front ++ (new.tokens ++ back))
    (h : read limit endColumn lexemes = .ok program) :
    ∃ program', read limit endColumn' lexemes' = .ok program' ∧
      List.Forall₂ (Replaced old new) program program' := by
  obtain ⟨before, rest, rfl, hbefore, hrest⟩ := List.map_eq_append_iff.1 hlexemes
  obtain ⟨part, after, rfl, hpart, hafter⟩ := List.map_eq_append_iff.1 hrest
  obtain ⟨before', rest', rfl, hbefore', hrest'⟩ := List.map_eq_append_iff.1 hlexemes'
  obtain ⟨part', after', rfl, hpart', hafter'⟩ := List.map_eq_append_iff.1 hrest'
  have hnothing : List.Forall₂ (Replaced old new) [] [] := .nil
  have hnothingOpen : List.Forall₂ (List.Forall₂ (Replaced old new)) [] [] := .nil
  rw [read] at h
  obtain ⟨items, items', enclosing, enclosing', hitems, henclosing, hopen, hread, hread'⟩ :=
    exists_readOnto_append (part ++ after) (hbefore.trans hbefore'.symm) hnothing hnothingOpen
      (Nat.zero_le limit) h
  have hlength := henclosing.length_eq
  -- Where there was room for the one part, there is for the other.
  have hroom := le_of_readOnto_tokens_eq_ok hpart hopen hread
  rw [readOnto_tokens_of_le hpart hroom, ← List.append_nil after] at hread
  obtain ⟨last, last', outer, outer', hlast, houter, -, hend, hend'⟩ :=
    exists_readOnto_append [] (hafter.trans hafter'.symm) (.cons .here hitems) henclosing hopen
      hread
  cases houter with
  | cons _ _ => cases hend
  | nil =>
      cases hend
      refine ⟨last'.reverse, ?_, List.rel_reverse hlast⟩
      rw [read, hread', readOnto_tokens_of_le hpart' (by omega), ← List.append_nil after', hend']
      rfl

end SExpr

/-- The same for texts: where one part of a text that is accepted is exchanged for
another one, the text is accepted again, with the one in the place of the other. -/
theorem Program.exists_parse_replaced {limit : Nat} {old new : SExpr} {front back : List Token}
    {text text' : List Char} {program : Program} (hdepth : new.depth ≤ old.depth)
    (htext : Token.Spells (front ++ (old.tokens ++ back)) text)
    (htext' : Token.Spells (front ++ (new.tokens ++ back)) text')
    (h : Program.parse limit (String.ofList text) = .ok program) :
    ∃ program', Program.parse limit (String.ofList text') = .ok program' ∧
      List.Forall₂ (SExpr.Replaced old new) program program' := by
  obtain ⟨lexemes, hlex, htokens⟩ := exists_lex_of_spells htext
  obtain ⟨lexemes', hlex', htokens'⟩ := exists_lex_of_spells htext'
  rw [Program.parse, hlex] at h
  rw [Program.parse, hlex']
  exact SExpr.exists_read_replaced hdepth htokens htokens' h

end PrefixCalc
