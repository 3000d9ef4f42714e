/-
# Reading the tokens of a program

The tokens that write a program are read as that program, whatever has been read
before and whatever follows, as long as the lists it opens stay within the limit.
Otherwise reading ends at the first list that is too deep: tokens that match up can
fail for no other reason.

A source text that is accepted with one limit is therefore settled for all of them,
which `Program.parse_eq_of_parse` states: only the depth of its program counts. A text
made up to spell a program is read as that program (`Program.parse_of_spells`).
-/

import PrefixCalc.Proofs.Token.Spelling
import PrefixCalc.SyntaxTree.OfSource

namespace PrefixCalc

namespace SExpr

variable {limit endColumn : Nat}

mutual

/-- The tokens of an s-expression are read as one more item of the innermost open
list, or end at a list that is too deep. -/
theorem readOnto_tokens (expr : SExpr) {front : List Lexeme}
    (hfront : front.map Lexeme.token = expr.tokens) (back : List Lexeme) (items : List SExpr)
    (enclosing : List (List SExpr)) (hopen : enclosing.length ≤ limit) :
    ∃ column, readOnto limit endColumn items enclosing (front ++ back) =
      if enclosing.length + expr.depth ≤ limit then
        readOnto limit endColumn (expr :: items) enclosing back
      else .error ⟨.nestedTooDeeply limit, column⟩ := by
  match expr with
  | .atom a =>
      rw [tokens_atom] at hfront
      obtain ⟨⟨token, column⟩, rfl, rfl⟩ := List.map_eq_singleton_iff.1 hfront
      refine ⟨column, ?_⟩
      rw [List.cons_append, List.nil_append, readOnto, depth_atom, if_pos (by omega)]
  | .list inner =>
      rw [tokens_list] at hfront
      obtain ⟨⟨token, column⟩, tail, rfl, rfl, htail⟩ := List.map_eq_cons_iff.1 hfront
      obtain ⟨middle, last, rfl, hmiddle, hlast⟩ := List.map_eq_append_iff.1 htail
      obtain ⟨⟨token, columnClosing⟩, rfl, rfl⟩ := List.map_eq_singleton_iff.1 hlast
      rw [List.cons_append, List.append_assoc, readOnto, depth_list]
      by_cases hroom : enclosing.length < limit
      · obtain ⟨columnInner, hinner⟩ :=
          readOnto_tokensOfAll inner hmiddle ([⟨.rightParen, columnClosing⟩] ++ back) []
            (items :: enclosing) hroom
        refine ⟨columnInner, ?_⟩
        rw [if_pos hroom, hinner, List.cons_append, List.nil_append, readOnto, List.append_nil,
          List.reverse_reverse, List.length_cons, Nat.add_assoc]
      · refine ⟨column, ?_⟩
        rw [if_neg hroom, if_neg (by omega)]

/-- The same for s-expressions that stand one after the other. -/
theorem readOnto_tokensOfAll (exprs : List SExpr) {front : List Lexeme}
    (hfront : front.map Lexeme.token = tokensOfAll exprs) (back : List Lexeme)
    (items : List SExpr) (enclosing : List (List SExpr)) (hopen : enclosing.length ≤ limit) :
    ∃ column, readOnto limit endColumn items enclosing (front ++ back) =
      if enclosing.length + depths exprs ≤ limit then
        readOnto limit endColumn (exprs.reverse ++ items) enclosing back
      else .error ⟨.nestedTooDeeply limit, column⟩ := by
  match exprs with
  | [] =>
      rw [tokensOfAll_nil, List.map_eq_nil_iff] at hfront
      subst hfront
      refine ⟨0, ?_⟩
      rw [depths_nil, Nat.add_zero, if_pos hopen]
      rfl
  | expr :: rest =>
      rw [tokensOfAll_cons] at hfront
      obtain ⟨first, later, rfl, hfirst, hlater⟩ := List.map_eq_append_iff.1 hfront
      obtain ⟨columnFirst, hexpr⟩ :=
        readOnto_tokens expr hfirst (later ++ back) items enclosing hopen
      rw [List.append_assoc, hexpr, depths_cons]
      by_cases hdepth : enclosing.length + expr.depth ≤ limit
      · obtain ⟨columnRest, hrest⟩ :=
          readOnto_tokensOfAll rest hlater back (expr :: items) enclosing hopen
        refine ⟨columnRest, ?_⟩
        have hmax : enclosing.length + max expr.depth (depths rest) ≤ limit ↔
            enclosing.length + depths rest ≤ limit := by omega
        rw [if_pos hdepth, hrest]
        simp only [hmax, List.reverse_cons, List.append_assoc, List.cons_append, List.nil_append]
      · refine ⟨columnFirst, ?_⟩
        rw [if_neg hdepth, if_neg (by omega)]

end

/-- Reading the tokens of a program gives the program, or finds it too deep. -/
theorem read_eq {lexemes : List Lexeme} {program : Program}
    (h : lexemes.map Lexeme.token = tokensOfAll program) (limit endColumn : Nat) :
    ∃ column, read limit endColumn lexemes =
      if depths program ≤ limit then .ok program
      else .error ⟨.nestedTooDeeply limit, column⟩ := by
  have hall : ∃ column, readOnto limit endColumn [] [] (lexemes ++ []) =
      if 0 + depths program ≤ limit then readOnto limit endColumn (program.reverse ++ []) [] []
      else .error ⟨.nestedTooDeeply limit, column⟩ :=
    readOnto_tokensOfAll program h [] [] [] (Nat.zero_le limit)
  obtain ⟨column, hread⟩ := hall
  refine ⟨column, ?_⟩
  rw [List.append_nil, Nat.zero_add] at hread
  rw [read, hread, List.append_nil, readOnto, List.reverse_reverse]

end SExpr

namespace Program

/-- The tokens of a source text are those of its program. -/
theorem exists_lex_of_parse {limit : Nat} {source : String} {program : Program}
    (h : Program.parse limit source = .ok program) :
    ∃ lexemes, Lexeme.lex source = .ok lexemes ∧
      lexemes.map Lexeme.token = SExpr.tokensOfAll program := by
  rw [Program.parse] at h
  cases hlex : Lexeme.lex source with
  | error error =>
      rw [hlex] at h
      cases h
  | ok lexemes =>
      rw [hlex] at h
      exact ⟨lexemes, rfl, (SExpr.tokensOfAll_of_read h).symm⟩

/-- A source text whose tokens write a program is that program, within the limit. -/
theorem parse_eq_of_lex {source : String} {lexemes : List Lexeme} {program : Program}
    (hlex : Lexeme.lex source = .ok lexemes)
    (htokens : lexemes.map Lexeme.token = SExpr.tokensOfAll program) (limit : Nat) :
    ∃ column, Program.parse limit source =
      if SExpr.depths program ≤ limit then .ok program
      else .error ⟨.nestedTooDeeply limit, column⟩ := by
  rw [Program.parse, hlex]
  exact SExpr.read_eq htokens limit (endColumn source)

/-- A source text that is accepted with some limit can only be too deep for another. -/
theorem parse_eq_of_parse {limit : Nat} {source : String} {program : Program}
    (h : Program.parse limit source = .ok program) (other : Nat) :
    ∃ column, Program.parse other source =
      if SExpr.depths program ≤ other then .ok program
      else .error ⟨.nestedTooDeeply other, column⟩ := by
  obtain ⟨lexemes, hlex, htokens⟩ := exists_lex_of_parse h
  exact parse_eq_of_lex hlex htokens other

/-- An accepted program is within the limit. -/
theorem depths_le_of_parse {limit : Nat} {source : String} {program : Program}
    (h : Program.parse limit source = .ok program) : SExpr.depths program ≤ limit := by
  obtain ⟨column, hparse⟩ := parse_eq_of_parse h limit
  by_cases hdepth : SExpr.depths program ≤ limit
  · exact hdepth
  · rw [if_neg hdepth, h] at hparse
    cases hparse

/-- A text that spells tokens is split into them. -/
theorem exists_lex_of_spells {tokens : List Token} {text : List Char}
    (h : Token.Spells tokens text) :
    ∃ lexemes, Lexeme.lex (String.ofList text) = .ok lexemes ∧
      lexemes.map Lexeme.token = tokens := by
  obtain ⟨lexemes, htokens, htiles⟩ := h 1
  refine ⟨lexemes, ?_, htokens⟩
  rw [Lexeme.lex, String.toList_ofList]
  exact Lexeme.lexFrom_eq_ok_of_tiles htiles

/-- A text that spells a program is read as that program, if the limit permits its
nesting. -/
theorem parse_of_spells {limit : Nat} {program : Program} {text : List Char}
    (h : Token.Spells (SExpr.tokensOfAll program) text) (hdepth : SExpr.depths program ≤ limit) :
    Program.parse limit (String.ofList text) = .ok program := by
  obtain ⟨lexemes, hlex, htokens⟩ := exists_lex_of_spells h
  obtain ⟨column, hparse⟩ := parse_eq_of_lex hlex htokens limit
  rw [hparse, if_pos hdepth]

/-- Nothing else can be read from a text that spells a program. -/
theorem eq_of_spells {limit : Nat} {program program' : Program} {text : List Char}
    (h : Token.Spells (SExpr.tokensOfAll program) text)
    (hparse : Program.parse limit (String.ofList text) = .ok program') : program' = program := by
  obtain ⟨lexemes, hlex, htokens⟩ := exists_lex_of_spells h
  obtain ⟨column, hread⟩ := parse_eq_of_lex hlex htokens limit
  by_cases hdepth : SExpr.depths program ≤ limit
  · rw [if_pos hdepth, hparse] at hread
    cases hread
    rfl
  · rw [if_neg hdepth, hparse] at hread
    cases hread

end Program

/-- A syntax tree is parsed exactly where its program is. -/
theorem SyntaxTree.parse_eq_ok_iff {limit : Nat} {source : String} {tree : SyntaxTree} :
    SyntaxTree.parse limit source = .ok tree ↔
      ∃ program, Program.parse limit source = .ok program ∧ ofProgram program = tree := by
  rw [SyntaxTree.parse]
  cases Program.parse limit source with
  | error error => simp [Except.map]
  | ok program => simp [Except.map]

end PrefixCalc
