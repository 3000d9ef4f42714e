/-
# What is wrong with a source text

`diagnose` finds the error of a source text by two passes over its characters,
without tokens or trees. The first pass looks for a character outside the alphabet;
the second counts parentheses and stops where the count would leave the range from
zero to the limit.

Parsing reports exactly these errors, and where there is none it gives a tree that
does not depend on the limit. The invariant of the proof is that the count is the
number of open lists that the reader keeps; a tiling says which characters the
reader gets to see.
-/

import PrefixCalc.Proofs.Token.Tiling
import PrefixCalc.SyntaxTree.OfSource

namespace PrefixCalc

/-- The alphabet of source texts. -/
def isSourceCharacter (c : Char) : Bool :=
  c.isDigit || c.isAlpha ||
    [' ', '\t', '\r', '\n', '\x0c', '_', '+', '-', '*', '/', '%', '(', ')'].contains c

/-- The first character outside the alphabet, in a text that starts at a column. -/
def foreignCharacter? (column : Nat) : List Char → Option SyntaxError
  | [] => none
  | c :: rest =>
    if isSourceCharacter c then foreignCharacter? (column + 1) rest
    else some ⟨.unexpectedCharacter c, column⟩

/-- The first error found by counting the parentheses of a text that starts at a
column, with some of them open already. -/
def parenthesisError? (limit opened column : Nat) : List Char → Option SyntaxError
  | [] => if 0 < opened then some ⟨.expectedClosing, column⟩ else none
  | c :: rest =>
    if c = '(' then
      if limit < opened + 1 then some ⟨.nestedTooDeeply limit, column⟩
      else parenthesisError? limit (opened + 1) (column + 1) rest
    else if c = ')' then
      if opened < 1 then some ⟨.unexpectedClosing, column⟩
      else parenthesisError? limit (opened - 1) (column + 1) rest
    else parenthesisError? limit opened (column + 1) rest

/-- What is wrong with a source text, if anything. A character outside the alphabet
comes before everything that parentheses can do. -/
def diagnose (limit : Nat) (source : String) : Option SyntaxError :=
  match foreignCharacter? 1 source.toList with
  | some error => some error
  | none => parenthesisError? limit 0 1 source.toList

/-! ## The first pass -/

theorem isSourceCharacter_iff {c : Char} :
    isSourceCharacter c ↔ isBlank c ∨ isAtomPart c ∨ c = '(' ∨ c = ')' := by
  have hglyph : (Operator.ofGlyph? c).isSome ↔
      c = '+' ∨ c = '-' ∨ c = '*' ∨ c = '/' ∨ c = '%' := by
    unfold Operator.ofGlyph?
    split <;> simp_all
  simp only [isSourceCharacter, isBlank, isAtomPart, isWordPart, Char.isAlphanum, Bool.or_eq_true,
    hglyph, decide_eq_true_eq, List.contains_iff_mem, List.mem_cons, List.not_mem_nil]
  grind

theorem foreignCharacter?_append {run : List Char} (h : ∀ c ∈ run, isSourceCharacter c)
    (column : Nat) (rest : List Char) :
    foreignCharacter? column (run ++ rest) = foreignCharacter? (column + run.length) rest := by
  induction run generalizing column with
  | nil => rfl
  | cons c more ih =>
      obtain ⟨hc, hmore⟩ := List.forall_mem_cons.1 h
      rw [List.cons_append, foreignCharacter?, if_pos hc, ih hmore, List.length_cons]
      congr 1
      omega

theorem foreignCharacter?_eq_none_iff {column : Nat} {text : List Char} :
    foreignCharacter? column text = none ↔ ∀ c ∈ text, isSourceCharacter c := by
  induction text generalizing column with
  | nil => simp [foreignCharacter?]
  | cons c rest ih =>
      rw [foreignCharacter?, List.forall_mem_cons]
      by_cases hc : isSourceCharacter c
      · rw [if_pos hc, ih, and_iff_right hc]
      · simp [hc]

theorem isSourceCharacter_of_mem_chars {token : Token} (h : token.isSpelled) :
    ∀ c ∈ token.chars, isSourceCharacter c := by
  intro c hc
  rw [isSourceCharacter_iff]
  cases token with
  | leftParen => simp_all
  | rightParen => simp_all
  | atom a => exact .inr (.inl (isAtomPart_of_mem h hc))

/-- The lexer fails exactly at the first character outside the alphabet. -/
theorem lexFrom_eq_error_iff {column : Nat} {text : List Char} {error : SyntaxError} :
    Lexeme.lexFrom column text = .error error ↔ foreignCharacter? column text = some error := by
  fun_induction Lexeme.lexFrom column text with
  | case1 column => simp [foreignCharacter?]
  | case2 column c rest hblank ih =>
      rw [foreignCharacter?, if_pos (isSourceCharacter_iff.2 (.inl hblank)), ih]
  | case3 column c rest hblank hmunch =>
      have hforeign : ¬ isSourceCharacter c := by
        obtain ⟨hopening, hclosing, hpart⟩ := Token.munch?_eq_none_iff.1 hmunch
        simp [isSourceCharacter_iff, hblank, hopening, hclosing, hpart]
      rw [foreignCharacter?, if_neg hforeign]
      simp
  | case4 column c rest hblank token after hmunch ih =>
      rw [← Token.munch?_chars hmunch,
        foreignCharacter?_append (isSourceCharacter_of_mem_chars (Token.munch?_isSpelled hmunch)),
        ← ih]
      cases Lexeme.lexFrom (column + token.chars.length) after with
      | error e => rfl
      | ok lexemes => refine ⟨fun h => ?_, fun h => ?_⟩ <;> cases h

/-- The lexer splits exactly the texts over the alphabet. -/
theorem exists_lexFrom_eq_ok_iff (column : Nat) {text : List Char} :
    (∃ lexemes, Lexeme.lexFrom column text = .ok lexemes) ↔ ∀ c ∈ text, isSourceCharacter c := by
  have hnone : foreignCharacter? column text = none ↔ ∀ c ∈ text, isSourceCharacter c :=
    foreignCharacter?_eq_none_iff
  rw [← hnone]
  cases hlex : Lexeme.lexFrom column text with
  | error error => simp [lexFrom_eq_error_iff.1 hlex]
  | ok lexemes =>
      refine ⟨fun _ => ?_, fun _ => ⟨lexemes, rfl⟩⟩
      cases hforeign : foreignCharacter? column text with
      | none => rfl
      | some error =>
          rw [lexFrom_eq_error_iff.2 hforeign] at hlex
          cases hlex

/-! ## The second pass -/

theorem parenthesisError?_append {run : List Char} (h : ∀ c ∈ run, c ≠ '(' ∧ c ≠ ')')
    (limit opened column : Nat) (rest : List Char) :
    parenthesisError? limit opened column (run ++ rest) =
      parenthesisError? limit opened (column + run.length) rest := by
  induction run generalizing column with
  | nil => rfl
  | cons c more ih =>
      obtain ⟨hc, hmore⟩ := List.forall_mem_cons.1 h
      rw [List.cons_append, parenthesisError?, if_neg hc.1, if_neg hc.2, ih hmore, List.length_cons]
      congr 1
      omega

/-- The reader of a tiled text fails as the count does, and otherwise gives a program
that is the same for every limit. -/
theorem exists_readOnto_eq {column : Nat} {lexemes : List Lexeme} {text : List Char}
    (h : Lexeme.Tiles column lexemes text) (items : List SExpr) (enclosing : List (List SExpr)) :
    ∃ program, ∀ limit,
      SExpr.readOnto limit (column + text.length) items enclosing lexemes =
        match parenthesisError? limit enclosing.length column text with
        | some error => .error error
        | none => .ok program := by
  induction h generalizing items enclosing with
  | nil column =>
      cases enclosing with
      | nil => exact ⟨items.reverse, fun limit => rfl⟩
      | cons outer enclosing => exact ⟨[], fun limit => rfl⟩
  | @blank column c lexemes rest hblank _ ih =>
      obtain ⟨program, hprogram⟩ := ih items enclosing
      refine ⟨program, fun limit => ?_⟩
      have hend : column + (c :: rest).length = column + 1 + rest.length := by
        rw [List.length_cons]
        omega
      have hparen : c ≠ '(' ∧ c ≠ ')' := by
        refine ⟨?_, ?_⟩ <;> rintro rfl <;> exact absurd hblank (by decide)
      rw [hend, hprogram limit, parenthesisError?, if_neg hparen.1, if_neg hparen.2]
  | @token column token lexemes rest hspelled _ _ ih =>
      have hend : column + (token.chars ++ rest).length =
          column + token.chars.length + rest.length := by
        rw [List.length_append, Nat.add_assoc]
      rw [hend]
      cases token with
      | atom a =>
          obtain ⟨program, hprogram⟩ := ih (.atom a :: items) enclosing
          refine ⟨program, fun limit => ?_⟩
          have hparens : ∀ c ∈ (Token.atom a).chars, c ≠ '(' ∧ c ≠ ')' := fun c hc =>
            (not_isBlank_of_isAtomPart (isAtomPart_of_mem hspelled hc)).2
          rw [SExpr.readOnto, hprogram limit, parenthesisError?_append hparens]
      | leftParen =>
          obtain ⟨program, hprogram⟩ := ih [] (items :: enclosing)
          refine ⟨program, fun limit => ?_⟩
          rw [SExpr.readOnto, Token.chars_leftParen, List.cons_append, List.nil_append,
            parenthesisError?, if_pos rfl]
          by_cases hlimit : enclosing.length < limit
          · rw [if_pos hlimit, if_neg (by omega)]
            exact hprogram limit
          · rw [if_neg hlimit, if_pos (by omega)]
      | rightParen =>
          cases enclosing with
          | nil => exact ⟨[], fun limit => rfl⟩
          | cons outer enclosing =>
              obtain ⟨program, hprogram⟩ := ih (.list items.reverse :: outer) enclosing
              refine ⟨program, fun limit => ?_⟩
              rw [SExpr.readOnto, Token.chars_rightParen, List.cons_append, List.nil_append,
                parenthesisError?, if_neg (by decide), if_pos rfl, if_neg (by simp)]
              exact hprogram limit

/-! ## Parsing -/

/-- Parsing a source text answers with the diagnosis where there is one. Every limit
that has nothing to object to gives the same tree. -/
theorem SyntaxTree.parse_eq_diagnose (source : String) :
    ∃ tree, ∀ limit, SyntaxTree.parse limit source =
      match diagnose limit source with
      | some error => .error error
      | none => .ok tree := by
  cases hlex : Lexeme.lex source with
  | error error =>
      have hforeign := lexFrom_eq_error_iff.1 hlex
      refine ⟨boundary, fun limit => ?_⟩
      rw [SyntaxTree.parse, Program.parse, hlex, diagnose, hforeign]
      rfl
  | ok lexemes =>
      have hforeign : foreignCharacter? 1 source.toList = none := by
        cases herror : foreignCharacter? 1 source.toList with
        | none => rfl
        | some error =>
            rw [Lexeme.lex, lexFrom_eq_error_iff.2 herror] at hlex
            cases hlex
      obtain ⟨program, hprogram⟩ :=
        exists_readOnto_eq (Lexeme.tiles_of_lexFrom_eq_ok hlex) [] []
      refine ⟨ofProgram program, fun limit => ?_⟩
      have hread := hprogram limit
      rw [Nat.add_comm, String.length_toList] at hread
      rw [SyntaxTree.parse, Program.parse, hlex, diagnose, hforeign]
      change (SExpr.readOnto limit (endColumn source) [] [] lexemes).map ofProgram = _
      rw [endColumn, hread]
      cases parenthesisError? limit 0 1 source.toList <;> rfl

end PrefixCalc
