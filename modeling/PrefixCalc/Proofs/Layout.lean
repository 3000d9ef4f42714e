/-
# Layouts of tokens

A layout writes tokens one behind the other, with blanks between them and around them. Two
neighbours may touch only if one of them is a parenthesis. Elsewhere something has to keep them
apart, since a numeral can go on with the digits of the next one, and a minus sign can become
the sign of a number.

Lexing undoes every layout: it finds the tokens where they were put. A layout therefore decides
nothing but columns. Two layouts of the same tokens have the same tree and the same answer, or
are refused for the same fault.
-/

import PrefixCalc.Calculator
import PrefixCalc.Proofs.Token.Spelling
import Mathlib

namespace PrefixCalc

/-- A well-spelled token and the blanks in front of it. -/
structure PlacedToken where
  /-- What stands between the token and the one before it. -/
  gap : List Char
  /-- The token itself. -/
  token : Token
  /-- Only blanks stand in front of the token. -/
  blank : ∀ c ∈ gap, isBlank c
  /-- The text of the token has the form of its class. -/
  spelled : token.isSpelled

namespace PlacedToken

/-- The characters of a token, behind those in front of it. -/
def chars (placed : PlacedToken) : List Char := placed.gap ++ placed.token.chars

/-- Whether a token is kept apart from the one before it: by a blank, or since one of the two
is a parenthesis. -/
def KeptApart (earlier later : PlacedToken) : Prop :=
  later.gap ≠ [] ∨ earlier.token.isParen ∨ later.token.isParen

instance (earlier later : PlacedToken) : Decidable (KeptApart earlier later) :=
  inferInstanceAs (Decidable (_ ∨ _))

end PlacedToken

/-- A way to write tokens: each of them with what stands in front of it, and the end of the
text. -/
structure Layout where
  /-- The tokens in their order. -/
  placed : List PlacedToken
  /-- What stands behind the last token. -/
  trailing : List Char
  /-- Neighbours are kept apart. -/
  apart : placed.IsChain PlacedToken.KeptApart
  /-- Only blanks stand behind the last token. -/
  blank : ∀ c ∈ trailing, isBlank c

namespace Layout

/-- The tokens that are laid out. -/
def tokens (layout : Layout) : List Token := layout.placed.map PlacedToken.token

/-- The characters of the text that is laid out. -/
def chars (layout : Layout) : List Char :=
  layout.placed.flatMap PlacedToken.chars ++ layout.trailing

/-- The text that is laid out. -/
def text (layout : Layout) : String := String.ofList layout.chars

/-- Tokens with their columns, in a text whose first character stands at `column`. -/
def lexemesFrom (column : Nat) : List PlacedToken → List Lexeme
  | [] => []
  | placed :: rest =>
    ⟨placed.token, column + placed.gap.length⟩ :: lexemesFrom (column + placed.chars.length) rest

theorem map_token_lexemesFrom (column : Nat) (placed : List PlacedToken) :
    (lexemesFrom column placed).map Lexeme.token = placed.map PlacedToken.token := by
  induction placed generalizing column with
  | nil => rfl
  | cons first rest ih => rw [lexemesFrom, List.map_cons, List.map_cons, ih]

/-- The column of a token counts all characters in front of it. -/
theorem getElem?_lexemesFrom (column : Nat) (before : List PlacedToken) (placed : PlacedToken)
    (after : List PlacedToken) :
    (lexemesFrom column (before ++ placed :: after))[before.length]? =
      some ⟨placed.token,
        column + (before.flatMap PlacedToken.chars ++ placed.gap).length⟩ := by
  induction before generalizing column with
  | nil => rfl
  | cons first rest ih =>
      have hlength : ((first :: rest).flatMap PlacedToken.chars ++ placed.gap).length =
          first.chars.length + (rest.flatMap PlacedToken.chars ++ placed.gap).length := by
        rw [List.flatMap_cons, List.append_assoc, List.length_append]
      rw [List.cons_append, lexemesFrom, List.length_cons, List.getElem?_cons_succ, ih, hlength,
        Nat.add_assoc]

/-! ## Layouts as tilings -/

theorem endsToken_of_forall {text : List Char} (h : ∀ c ∈ text, isBlank c) : EndsToken text :=
  fun c hc => .inl (h c (List.mem_of_mem_head? hc))

/-- What keeps a token apart from the one before it ends that one. -/
theorem endsToken_chars {placed : PlacedToken} (h : placed.gap ≠ [] ∨ placed.token.isParen)
    (rest : List Char) : EndsToken (placed.chars ++ rest) := by
  obtain ⟨gap, token, hgap, _⟩ := placed
  cases gap with
  | cons c more =>
      exact endsToken_cons_iff.2 (.inl (hgap c List.mem_cons_self))
  | nil =>
      rcases h with hne | hparen
      · exact absurd rfl hne
      · cases token with
        | atom a => cases hparen
        | leftParen => simp [PlacedToken.chars]
        | rightParen => simp [PlacedToken.chars]

/-- Nothing behind a token goes on with it. -/
theorem not_isExtendedBy {placed : PlacedToken} {rest : List PlacedToken} {trailing : List Char}
    (hapart : (placed :: rest).IsChain PlacedToken.KeptApart)
    (htrailing : ∀ c ∈ trailing, isBlank c) :
    ∀ next ∈ (rest.flatMap PlacedToken.chars ++ trailing).head?,
      placed.token.isExtendedBy next = false := by
  intro next hnext
  cases rest with
  | nil => exact placed.token.isExtendedBy_eq_false (endsToken_of_forall htrailing next hnext)
  | cons later more =>
      rw [List.flatMap_cons, List.append_assoc] at hnext
      rcases (List.isChain_cons_cons.1 hapart).1 with hgap | hparen | hparen
      · exact placed.token.isExtendedBy_eq_false (endsToken_chars (.inl hgap) _ next hnext)
      · cases htoken : placed.token with
        | atom a =>
            rw [htoken] at hparen
            cases hparen
        | leftParen => rfl
        | rightParen => rfl
      · exact placed.token.isExtendedBy_eq_false (endsToken_chars (.inr hparen) _ next hnext)

/-- The tokens of a layout tile its text. -/
theorem tiles_lexemesFrom {column : Nat} {placed : List PlacedToken} {trailing : List Char}
    (hapart : placed.IsChain PlacedToken.KeptApart) (htrailing : ∀ c ∈ trailing, isBlank c) :
    Lexeme.Tiles column (lexemesFrom column placed)
      (placed.flatMap PlacedToken.chars ++ trailing) := by
  induction placed generalizing column with
  | nil => exact Lexeme.tiles_nil_iff.2 htrailing
  | cons first rest ih =>
      rw [lexemesFrom, List.flatMap_cons, PlacedToken.chars, List.append_assoc, List.append_assoc]
      apply Lexeme.Tiles.blanks first.blank
      apply Lexeme.Tiles.token first.spelled (not_isExtendedBy hapart htrailing)
      rw [List.length_append, ← Nat.add_assoc]
      exact ih hapart.tail

theorem lex_text (layout : Layout) :
    Lexeme.lex layout.text = .ok (lexemesFrom 1 layout.placed) := by
  rw [Lexeme.lex, text, String.toList_ofList]
  exact Lexeme.lexFrom_eq_ok_of_tiles (tiles_lexemesFrom layout.apart layout.blank)

end Layout

/-! ## What columns have no part in -/

/-- Reading looks at the columns of tokens only to report them. -/
theorem SExpr.mapError_fault_readOnto {limit endColumn endColumn' : Nat}
    {lexemes lexemes' : List Lexeme}
    (h : lexemes.map Lexeme.token = lexemes'.map Lexeme.token) (items : List SExpr)
    (enclosing : List (List SExpr)) :
    (readOnto limit endColumn items enclosing lexemes).mapError SyntaxError.fault =
      (readOnto limit endColumn' items enclosing lexemes').mapError SyntaxError.fault := by
  induction lexemes generalizing lexemes' items enclosing with
  | nil =>
      obtain rfl := List.map_eq_nil_iff.1 h.symm
      cases enclosing with
      | nil => rfl
      | cons outer enclosing => rfl
  | cons lexeme rest ih =>
      obtain ⟨token, column⟩ := lexeme
      obtain ⟨⟨token', column'⟩, rest', rfl, rfl, hrest⟩ := List.map_eq_cons_iff.1 h.symm
      cases token' with
      | atom a =>
          rw [readOnto, readOnto]
          exact ih hrest.symm _ _
      | leftParen =>
          rw [readOnto, readOnto]
          by_cases hroom : enclosing.length < limit
          · rw [if_pos hroom, if_pos hroom]
            exact ih hrest.symm _ _
          · rw [if_neg hroom, if_neg hroom]
            rfl
      | rightParen =>
          cases enclosing with
          | nil => rfl
          | cons outer enclosing =>
              rw [readOnto, readOnto]
              exact ih hrest.symm _ _

/-- What is made of results alone leaves the faults as they are. -/
theorem mapError_fault_map {α β : Type} {first second : Except SyntaxError α}
    (h : first.mapError SyntaxError.fault = second.mapError SyntaxError.fault) (f : α → β) :
    (first.map f).mapError SyntaxError.fault = (second.map f).mapError SyntaxError.fault := by
  cases first with
  | error e =>
      cases second with
      | error e' =>
          injection h with hfault
          exact congrArg Except.error hfault
      | ok b => cases h
  | ok a =>
      cases second with
      | error e' => cases h
      | ok b =>
          injection h with hresult
          exact congrArg (fun result => Except.ok (f result)) hresult

namespace Layout

theorem mapError_fault_parse {layout other : Layout} (h : other.tokens = layout.tokens)
    (limit : Nat) :
    (SyntaxTree.parse limit other.text).mapError SyntaxError.fault =
      (SyntaxTree.parse limit layout.text).mapError SyntaxError.fault := by
  have htokens : (lexemesFrom 1 other.placed).map Lexeme.token =
      (lexemesFrom 1 layout.placed).map Lexeme.token := by
    rw [map_token_lexemesFrom, map_token_lexemesFrom]
    exact h
  rw [SyntaxTree.parse, SyntaxTree.parse, Program.parse, Program.parse, lex_text, lex_text]
  exact mapError_fault_map (SExpr.mapError_fault_readOnto htokens [] []) _

/-- Lexing undoes every layout: it finds the tokens that were laid out, each at the column
behind all characters in front of it, and the text ends behind all of its characters. Another
layout of the same tokens is parsed to the same tree and has the same answer, or both are
refused for the same fault, whatever the limit is. -/
theorem lexing_undoes_layout (layout : Layout) :
    (∃ lexemes, Lexeme.lex layout.text = .ok lexemes ∧
      lexemes.map Lexeme.token = layout.tokens ∧
      ∀ before placed after, layout.placed = before ++ placed :: after →
        lexemes[before.length]? = some ⟨placed.token,
          1 + (before.flatMap PlacedToken.chars ++ placed.gap).length⟩) ∧
    endColumn layout.text = 1 + layout.chars.length ∧
    ∀ other : Layout, other.tokens = layout.tokens →
      (∀ limit, (SyntaxTree.parse limit other.text).mapError SyntaxError.fault =
        (SyntaxTree.parse limit layout.text).mapError SyntaxError.fault) ∧
      ∀ settings, (evaluate settings other.text).mapError SyntaxError.fault =
        (evaluate settings layout.text).mapError SyntaxError.fault := by
  refine ⟨⟨_, layout.lex_text, map_token_lexemesFrom 1 layout.placed, ?_⟩, ?_, ?_⟩
  · intro before placed after hplaced
    rw [hplaced]
    exact getElem?_lexemesFrom 1 before placed after
  · rw [endColumn, text, String.length_ofList, Nat.add_comm]
  · intro other htokens
    refine ⟨mapError_fault_parse htokens, fun settings => ?_⟩
    have hparse := mapError_fault_parse htokens settings.nestingLimit
    rw [evaluate_eq_map, evaluate_eq_map]
    exact mapError_fault_map hparse _

theorem lexing_undoes_layout_of_differences :
    let placed (gap : List Char) (hgap : gap.all isBlank) (token : Token)
        (htoken : token.isSpelled) : PlacedToken := ⟨gap, token, List.all_eq_true.1 hgap, htoken⟩
    let narrow : Layout := {
      placed := [placed [] rfl .leftParen rfl, placed [] rfl (.atom (.operator .sub)) rfl,
        placed [' '] rfl (.atom (.numeral "-03")) rfl, placed [' '] rfl (.atom (.numeral "4")) rfl,
        placed [] rfl .rightParen rfl]
      trailing := []
      apart := by decide
      blank := List.all_eq_true.1 rfl }
    let wide : Layout := {
      placed := [placed ['\n'] rfl .leftParen rfl, placed [' '] rfl (.atom (.operator .sub)) rfl,
        placed ['\t', ' '] rfl (.atom (.numeral "-03")) rfl,
        placed ['\x0c'] rfl (.atom (.numeral "4")) rfl, placed [' '] rfl .rightParen rfl]
      trailing := [' ']
      apart := by decide
      blank := List.all_eq_true.1 rfl }
    let unclosed : Layout := {
      placed := [placed [] rfl .leftParen rfl, placed [] rfl (.atom (.operator .sub)) rfl,
        placed [' '] rfl (.atom (.numeral "-03")) rfl, placed [] rfl .leftParen rfl,
        placed [] rfl (.atom (.word "x_1")) rfl]
      trailing := []
      apart := by decide
      blank := List.all_eq_true.1 rfl }
    let wideUnclosed : Layout := {
      placed := [placed [' ', '\r', '\n'] rfl .leftParen rfl,
        placed ['\t'] rfl (.atom (.operator .sub)) rfl,
        placed ['\x0c', ' '] rfl (.atom (.numeral "-03")) rfl, placed [] rfl .leftParen rfl,
        placed [' '] rfl (.atom (.word "x_1")) rfl]
      trailing := ['\n']
      apart := by decide
      blank := List.all_eq_true.1 rfl }
    (narrow.text = "(- -03 4)" ∧ wide.text = "\n( -\t -03\x0c4 ) " ∧ wide.tokens = narrow.tokens ∧
      (∃ evaluation, evaluate ⟨1, false⟩ narrow.text = .ok evaluation ∧
        evaluation.value = .number (-7)) ∧
      ∃ evaluation, evaluate ⟨1, false⟩ wide.text = .ok evaluation ∧
        evaluation.value = .number (-7)) ∧
      unclosed.text = "(- -03(x_1" ∧ wideUnclosed.text = " \r\n(\t-\x0c -03( x_1\n" ∧
      wideUnclosed.tokens = unclosed.tokens ∧
      (∃ lexemes, Lexeme.lex wideUnclosed.text = .ok lexemes ∧
        lexemes[2]? = some ⟨.atom (.numeral "-03"), 9⟩) ∧
      SyntaxTree.parse 2 unclosed.text = .error ⟨.expectedClosing, 11⟩ ∧
      (SyntaxTree.parse 2 wideUnclosed.text).mapError SyntaxError.fault =
        .error .expectedClosing := by
  intro placed narrow wide unclosed wideUnclosed
  refine ⟨?_, ?_⟩
  · have htokens : wide.tokens = narrow.tokens := rfl
    have htext : narrow.text = "(- -03 4)" := by decide
    have hparse : SyntaxTree.parse 1 "(- -03 4)" = .ok (.ofProgram
        [.list [.atom (.operator .sub), .atom (.numeral "-03"), .atom (.numeral "4")]]) := by cbv
    have hanswer : evaluate ⟨1, false⟩ narrow.text = .ok ⟨.number (-7), none⟩ := by
      rw [evaluate_eq_map, htext, hparse]
      rfl
    have hsame := ((lexing_undoes_layout narrow).2.2 wide htokens).2 ⟨1, false⟩
    rw [hanswer] at hsame
    refine ⟨htext, by decide, htokens, ⟨_, hanswer, rfl⟩, ?_⟩
    cases hwide : evaluate ⟨1, false⟩ wide.text with
    | error error =>
        rw [hwide] at hsame
        cases hsame
    | ok evaluation =>
        rw [hwide] at hsame
        cases hsame
        exact ⟨_, rfl, rfl⟩
  · have htokens : wideUnclosed.tokens = unclosed.tokens := rfl
    have hparse : SyntaxTree.parse 2 unclosed.text = .error ⟨.expectedClosing, 11⟩ := by cbv
    obtain ⟨⟨lexemes, hlex, -, hcolumn⟩, -⟩ := lexing_undoes_layout wideUnclosed
    refine ⟨by decide, by decide, htokens, ⟨lexemes, hlex, ?_⟩, hparse, ?_⟩
    · exact (hcolumn [_, _] _ _ rfl).trans (by decide)
    · rw [((lexing_undoes_layout unclosed).2.2 wideUnclosed htokens).1 2, hparse]
      rfl

end Layout

end PrefixCalc
