/-
# Values in the order of their tokens

The values inside a program, listed with each expression before its items, come in the order in
which they were written. Every token other than a closing parenthesis stands for one of them:
an atom for itself, and an opening parenthesis for the expression of all that comes up to the
parenthesis that closes it.

So nothing is lost between the text and its value, and nothing is added or moved. Both sides
are flat. What a token stands for is told from the token, which parentheses belong together is
told by counting, and the nodes of a value are told from the value alone.
-/

import PrefixCalc.Proofs.Numeral
import PrefixCalc.Proofs.SExpr.Matching
import PrefixCalc.Proofs.Value.OfProgram
import Mathlib

namespace PrefixCalc

namespace Value

/-! ## Listings -/

mutual

/-- The nodes of a value, each before those of its items. -/
def preorder : Value → List Value
  | .number n => [.number n]
  | .symbol name => [.symbol name]
  | .failure f => [.failure f]
  | .expression items => .expression items :: preorders items

/-- The nodes of some values, one value after the other. -/
def preorders : List Value → List Value
  | [] => []
  | value :: rest => value.preorder ++ preorders rest

end

@[simp] theorem preorder_number (n : Number) : (number n).preorder = [number n] := by
  rw [preorder]
@[simp] theorem preorder_symbol (name : String) : (symbol name).preorder = [symbol name] := by
  rw [preorder]
@[simp] theorem preorder_failure (f : Failure) : (failure f).preorder = [failure f] := by
  rw [preorder]
@[simp] theorem preorder_expression (items : List Value) :
    (expression items).preorder = expression items :: preorders items := by rw [preorder]

@[simp] theorem preorders_nil : preorders [] = [] := by rw [preorders]
@[simp] theorem preorders_cons (value : Value) (rest : List Value) :
    preorders (value :: rest) = value.preorder ++ preorders rest := by rw [preorders]

mutual

/-- A listing has one entry for each node. -/
theorem length_preorder (value : Value) : value.preorder.length = value.nodeCount := by
  cases value with
  | number n => simp
  | symbol name => simp
  | failure f => simp
  | expression items =>
      rw [preorder_expression, List.length_cons, length_preorders items, nodeCount_expression,
        Nat.add_comm]

theorem length_preorders (values : List Value) :
    (preorders values).length = nodeCounts values := by
  cases values with
  | nil => simp
  | cons value rest =>
      rw [preorders_cons, List.length_append, length_preorder value, length_preorders rest,
        nodeCounts_cons]

end

end Value

namespace Token

/-! ## What tokens stand for -/

/-- What a token stands for. A closing parenthesis stands for nothing. -/
inductive StandsFor : Token → Value → Prop
  | number {text : String} {m : Number} :
      Numeral.Spells text.toList m.toInt → StandsFor (.atom (.numeral text)) (.number m)
  | badNumber {text : String} {n : Int} :
      Numeral.Spells text.toList n → n < -2 ^ 63 ∨ 2 ^ 63 - 1 < n →
      StandsFor (.atom (.numeral text))
        (.failure ⟨.badNumber, some ("'" ++ text ++ "' is not a valid integer")⟩)
  | operator (op : Operator) : StandsFor (.atom (.operator op)) (.symbol op.symbol)
  | word (name : String) : StandsFor (.atom (.word name)) (.symbol name)
  | leftParen (items : List Value) : StandsFor .leftParen (.expression items)

/-- The tokens that stand for something. -/
def withoutClosing (tokens : List Token) : List Token := tokens.filter (· ≠ .rightParen)

@[simp] theorem withoutClosing_append (tokens tokens' : List Token) :
    withoutClosing (tokens ++ tokens') = withoutClosing tokens ++ withoutClosing tokens' :=
  List.filter_append ..

/-- Whether values are what some tokens stand for, one for one and in the same order. -/
def Lists (tokens : List Token) (values : List Value) : Prop :=
  List.Forall₂ StandsFor (withoutClosing tokens) values

variable {tokens tokens' front rest : List Token} {values values' listing : List Value}

theorem lists_nil : Lists [] [] := .nil

theorem lists_rightParen : Lists [.rightParen] [] := .nil

theorem StandsFor.lists {token : Token} {value : Value} (h : StandsFor token value) :
    Lists [token] [value] := by
  cases h with
  | number hspells => exact .cons (.number hspells) .nil
  | badNumber hspells hrange => exact .cons (.badNumber hspells hrange) .nil
  | operator op => exact .cons (.operator op) .nil
  | word name => exact .cons (.word name) .nil
  | leftParen items => exact .cons (.leftParen items) .nil

theorem Lists.append (h : Lists tokens values) (h' : Lists tokens' values') :
    Lists (tokens ++ tokens') (values ++ values') := by
  rw [Lists, withoutClosing_append]
  exact List.rel_append h h'

/-- An expression between parentheses is listed before what is listed inside of them. -/
theorem Lists.enclosed {items : List Value} (h : Lists tokens values) :
    Lists (.leftParen :: (tokens ++ [.rightParen])) (.expression items :: values) := by
  have hclosed := h.append lists_rightParen
  rw [List.append_nil] at hclosed
  exact (StandsFor.leftParen items).lists.append hclosed

/-- No token stands for a failure other than that of a number. -/
theorem Lists.kind_eq_badNumber (h : Lists tokens values) :
    ∀ f, Value.failure f ∈ values → f.kind = .badNumber := by
  have hall : ∀ value ∈ values, ∀ f, value = .failure f → f.kind = .badNumber := by
    rw [Lists] at h
    generalize withoutClosing tokens = standing at h
    induction h with
    | nil => exact List.forall_mem_nil _
    | cons hvalue _ ih =>
        refine List.forall_mem_cons.2 ⟨?_, ih⟩
        rintro f rfl
        cases hvalue
        rfl
  exact fun f hf => hall _ hf f rfl

/-! ## Expressions in a listing -/

/-- Whether, in a listing of what some tokens stand for, the opening parenthesis between
`front` and `rest` stands for the expression of what is listed by the tokens up to the
parenthesis that closes it. -/
def OpensExpression (front rest : List Token) (listing : List Value) : Prop :=
  ∃ inside back before items after,
    rest = inside ++ .rightParen :: back ∧ IsBalanced inside ∧
    listing = before ++ .expression items :: (Value.preorders items ++ after) ∧
    Lists front before ∧ Lists inside (Value.preorders items) ∧ Lists back after

theorem OpensExpression.append_left (h : OpensExpression front rest listing)
    (h' : Lists tokens values) : OpensExpression (tokens ++ front) rest (values ++ listing) := by
  obtain ⟨inside, back, before, items, after, hrest, hinside, rfl, hbefore, hitems, hafter⟩ := h
  exact ⟨inside, back, values ++ before, items, after, hrest, hinside,
    (List.append_assoc ..).symm, h'.append hbefore, hitems, hafter⟩

theorem OpensExpression.append_right (h : OpensExpression front rest listing)
    (h' : Lists tokens values) : OpensExpression front (rest ++ tokens) (listing ++ values) := by
  obtain ⟨inside, back, before, items, after, rfl, hinside, rfl, hbefore, hitems, hafter⟩ := h
  refine ⟨inside, back ++ tokens, before, items, after ++ values, ?_, hinside, ?_, hbefore,
    hitems, hafter.append h'⟩
  · rw [List.append_assoc, List.cons_append]
  · rw [List.append_assoc, List.cons_append, List.append_assoc]

/-- A token of two lists is in the first or in the second one. -/
theorem append_eq_append_cons {token : Token} (h : tokens ++ tokens' = front ++ token :: rest) :
    (∃ more, tokens = front ++ token :: more ∧ rest = more ++ tokens') ∨
    ∃ more, front = tokens ++ more ∧ tokens' = more ++ token :: rest := by
  rcases List.append_eq_append_iff.1 h with ⟨more, rfl, hmore⟩ | ⟨more, rfl, hmore⟩
  · exact .inr ⟨more, rfl, hmore⟩
  · cases more with
    | nil => exact .inr ⟨[], by simp, hmore.symm⟩
    | cons first more =>
        injection hmore with hfirst hmore
        subst hfirst
        exact .inl ⟨more, rfl, hmore⟩

end Token

namespace Value

/-! ## The listing of a program -/

theorem exists_spells_of_isNumeral {text : List Char} (h : isNumeral text) :
    ∃ n, Numeral.Spells text n := by
  cases text with
  | nil => exact absurd h (by decide)
  | cons c rest =>
      obtain ⟨hrest, hdigit | ⟨rfl, hne⟩⟩ := isNumeral_cons_iff.1 h
      · have hall : ∀ d ∈ c :: rest, d.isDigit :=
          List.forall_mem_cons.2 ⟨hdigit, List.all_eq_true.1 hrest⟩
        exact ⟨_, .unsigned (List.cons_ne_nil c rest) hall⟩
      · exact ⟨_, .minus hne (List.all_eq_true.1 hrest)⟩

/-- A numeral whose integer is no number is one that is out of range. -/
theorem standsFor_ofNumeral {text : String} (h : isNumeral text.toList) :
    Token.StandsFor (.atom (.numeral text)) (ofNumeral text) := by
  rcases ofNumeral_cases text with ⟨m, hm, hspells⟩ | ⟨hfailure, hnone⟩
  · rw [hm]
    exact .number hspells
  · obtain ⟨n, hn⟩ := exists_spells_of_isNumeral h
    have hrange : n < -2 ^ 63 ∨ 2 ^ 63 - 1 < n := by
      apply Classical.byContradiction
      intro hnot
      obtain ⟨m, rfl⟩ := Number.exists_toInt_eq_iff.2
        (show -2 ^ 63 ≤ n ∧ n ≤ 2 ^ 63 - 1 by omega)
      exact hnone m hn
    rw [hfailure]
    exact .badNumber hn hrange

theorem standsFor_ofSExpr_atom {a : Atom} (h : a.isSpelled) :
    Token.StandsFor (.atom a) (ofSExpr (.atom a)) := by
  cases a with
  | numeral text =>
      rw [ofSExpr]
      exact standsFor_ofNumeral h
  | operator op =>
      rw [ofSExpr]
      exact .operator op
  | word name =>
      rw [ofSExpr]
      exact .word name

theorem preorder_of_standsFor_atom {a : Atom} {value : Value}
    (h : Token.StandsFor (.atom a) value) : value.preorder = [value] := by
  cases h <;> simp

/-- Values that are listed by their tokens one by one are so together. -/
theorem lists_tokensOfAll_of_forall {exprs : List SExpr}
    (h : ∀ expr ∈ exprs, Token.Lists expr.tokens (ofSExpr expr).preorder) :
    Token.Lists (SExpr.tokensOfAll exprs) (preorders (exprs.map ofSExpr)) := by
  induction exprs with
  | nil =>
      rw [SExpr.tokensOfAll_nil, List.map_nil, preorders_nil]
      exact Token.lists_nil
  | cons expr rest ih =>
      obtain ⟨hexpr, hrest⟩ := List.forall_mem_cons.1 h
      rw [SExpr.tokensOfAll_cons, List.map_cons, preorders_cons]
      exact hexpr.append (ih hrest)

/-- The tokens of an s-expression list its value. -/
theorem lists_tokens {expr : SExpr} (h : ∀ token ∈ expr.tokens, token.isSpelled) :
    Token.Lists expr.tokens (ofSExpr expr).preorder := by
  induction expr with
  | atom a =>
      have hstands := standsFor_ofSExpr_atom (h (.atom a) (by simp))
      rw [SExpr.tokens_atom, preorder_of_standsFor_atom hstands]
      exact hstands.lists
  | list items ih =>
      rw [SExpr.tokens_list, ofSExpr_list, preorder_expression]
      apply Token.Lists.enclosed
      apply lists_tokensOfAll_of_forall
      intro item hitem
      exact ih item hitem fun token htoken =>
        h token (by simp [SExpr.mem_tokensOfAll hitem htoken])

theorem lists_tokensOfAll {exprs : List SExpr}
    (h : ∀ token ∈ SExpr.tokensOfAll exprs, token.isSpelled) :
    Token.Lists (SExpr.tokensOfAll exprs) (preorders (exprs.map ofSExpr)) :=
  lists_tokensOfAll_of_forall fun _ hexpr =>
    lists_tokens fun token htoken => h token (SExpr.mem_tokensOfAll hexpr htoken)

/-- If each s-expression has its lists in its listing, then so have all together. -/
theorem opensExpression_tokensOfAll_of_forall {exprs : List SExpr}
    (hspelled : ∀ token ∈ SExpr.tokensOfAll exprs, token.isSpelled)
    (h : ∀ expr ∈ exprs, ∀ front rest, expr.tokens = front ++ .leftParen :: rest →
      Token.OpensExpression front rest (ofSExpr expr).preorder)
    {front rest : List Token} (htokens : SExpr.tokensOfAll exprs = front ++ .leftParen :: rest) :
    Token.OpensExpression front rest (preorders (exprs.map ofSExpr)) := by
  induction exprs generalizing front with
  | nil =>
      rw [SExpr.tokensOfAll_nil] at htokens
      exact absurd htokens (by simp)
  | cons expr others ih =>
      obtain ⟨hexpr, hothers⟩ := List.forall_mem_cons.1 h
      rw [SExpr.tokensOfAll_cons] at hspelled htokens
      obtain ⟨hspelledExpr, hspelledOthers⟩ := List.forall_mem_append.1 hspelled
      rw [List.map_cons, preorders_cons]
      rcases Token.append_eq_append_cons htokens with ⟨more, hmore, rfl⟩ | ⟨more, rfl, hmore⟩
      · exact (hexpr front more hmore).append_right (lists_tokensOfAll hspelledOthers)
      · exact (ih hspelledOthers hothers hmore).append_left (lists_tokens hspelledExpr)

/-- Every opening parenthesis stands for the expression of all up to the parenthesis that
closes it. -/
theorem opensExpression_tokens {expr : SExpr} (hspelled : ∀ token ∈ expr.tokens, token.isSpelled) :
    ∀ front rest, expr.tokens = front ++ .leftParen :: rest →
      Token.OpensExpression front rest (ofSExpr expr).preorder := by
  induction expr with
  | atom a =>
      intro front rest htokens
      rw [SExpr.tokens_atom] at htokens
      cases front with
      | nil => cases htokens
      | cons token front => simp at htokens
  | list items ih =>
      intro front rest htokens
      have hitems : ∀ token ∈ SExpr.tokensOfAll items, token.isSpelled := fun token htoken =>
        hspelled token (by simp [htoken])
      rw [SExpr.tokens_list] at htokens
      rw [ofSExpr_list, preorder_expression]
      cases front with
      | nil =>
          injection htokens with _ htokens
          subst htokens
          refine ⟨SExpr.tokensOfAll items, [], [], items.map ofSExpr, [], rfl,
            SExpr.isBalanced_tokensOfAll items, by simp, Token.lists_nil,
            lists_tokensOfAll hitems, Token.lists_nil⟩
      | cons token front =>
          injection htokens with htoken htokens
          subst htoken
          rcases Token.append_eq_append_cons htokens with ⟨more, hmore, rfl⟩ | ⟨more, rfl, hmore⟩
          · have hinner : Token.OpensExpression front more (preorders (items.map ofSExpr)) :=
              opensExpression_tokensOfAll_of_forall hitems (fun item hitem => ih item hitem
                fun token htoken => hitems token (SExpr.mem_tokensOfAll hitem htoken)) hmore
            have hclosed := hinner.append_right Token.lists_rightParen
            rw [List.append_nil] at hclosed
            exact hclosed.append_left (Token.StandsFor.leftParen _).lists
          · -- The last token closes the list and opens none.
            cases more with
            | nil => cases hmore
            | cons token more => simp at hmore

theorem opensExpression_tokensOfAll {exprs : List SExpr} {front rest : List Token}
    (hspelled : ∀ token ∈ SExpr.tokensOfAll exprs, token.isSpelled)
    (htokens : SExpr.tokensOfAll exprs = front ++ .leftParen :: rest) :
    Token.OpensExpression front rest (preorders (exprs.map ofSExpr)) :=
  opensExpression_tokensOfAll_of_forall hspelled
    (fun _ hexpr => opensExpression_tokens fun token htoken =>
      hspelled token (SExpr.mem_tokensOfAll hexpr htoken)) htokens

/-- The value of a parsed text lists its tokens. Below the root, there is one node for each
token other than a closing parenthesis, in the order of the text: an atom stands for itself,
and an opening parenthesis for the expression of exactly the nodes up to the parenthesis that
closes it. So the nodes of the value are as many as these tokens and the root, it nests one
level deeper than the parentheses of the text, and no node of it is malformed. -/
theorem ofTree_lists_tokens {limit : Nat} {source : String} {tree : SyntaxTree}
    (h : SyntaxTree.parse limit source = .ok tree) :
    ∃ lexemes items, Lexeme.lex source = .ok lexemes ∧ ofTree tree = .expression items ∧
      Token.Lists (lexemes.map Lexeme.token) (preorders items) ∧
      (∀ front rest, lexemes.map Lexeme.token = front ++ .leftParen :: rest →
        Token.OpensExpression front rest (preorders items)) ∧
      (ofTree tree).nodeCount = 1 + (Token.withoutClosing (lexemes.map Lexeme.token)).length ∧
      (∃ nesting, IsGreatest (openCounts source.toList) nesting ∧
        (ofTree tree).depth = 1 + nesting) ∧
      ∀ f, .failure f ∈ (ofTree tree).preorder → f.kind ≠ .malformed := by
  obtain ⟨program, hprogram, rfl⟩ := SyntaxTree.parse_eq_ok_iff.1 h
  obtain ⟨lexemes, hlex, htokens⟩ := Program.exists_lex_of_parse hprogram
  have hspelled := Program.isSpelled_of_parse hprogram
  have hvalue := ofTree_ofProgram hspelled
  have hlists := lists_tokensOfAll hspelled
  refine ⟨lexemes, program.map ofSExpr, hlex, hvalue, ?_⟩
  rw [htokens, hvalue]
  refine ⟨hlists, fun front rest hfront => opensExpression_tokensOfAll hspelled hfront, ?_, ?_,
    fun f hf => ?_⟩
  · rw [nodeCount_expression, ← length_preorders, hlists.length_eq]
  · refine ⟨_, Program.isGreatest_openCounts hprogram, ?_⟩
    rw [← ofSExpr_list, depth_ofSExpr, SExpr.depth_list]
  · rw [preorder_expression, List.mem_cons] at hf
    rcases hf with hroot | hf
    · cases hroot
    · rw [hlists.kind_eq_badNumber f hf]
      decide

theorem ofTree_lists_tokens_of_overflowing_numeral :
    let tree := SyntaxTree.ofProgram [.list [.atom (.operator .add), .list [.atom (.word "foo")],
      .atom (.numeral "99999999999999999999")]]
    let front : List Token := [.leftParen, .atom (.operator .add)]
    let rest : List Token :=
      [.atom (.word "foo"), .rightParen, .atom (.numeral "99999999999999999999"), .rightParen]
    SyntaxTree.parse 2 "(+ (foo) 99999999999999999999)" = .ok tree ∧
      (ofTree tree).nodeCount = 6 ∧
      ∃ items, ofTree tree = .expression items ∧
        Token.Lists (front ++ .leftParen :: rest) (preorders items) ∧
        Token.OpensExpression front rest (preorders items) := by
  intro tree front rest
  have hparse : SyntaxTree.parse 2 "(+ (foo) 99999999999999999999)" = .ok tree := by cbv
  obtain ⟨lexemes, items, hlex, hvalue, hlists, hopens, hcount, -⟩ := ofTree_lists_tokens hparse
  have htokens : lexemes.map Lexeme.token = front ++ .leftParen :: rest := by
    have htext : (Lexeme.lex "(+ (foo) 99999999999999999999)").map (List.map Lexeme.token) =
        .ok (front ++ .leftParen :: rest) := by cbv
    rw [hlex] at htext
    exact Except.ok.inj htext
  rw [htokens] at hlists hcount
  exact ⟨hparse, hcount, items, hvalue, hlists, hopens front rest htokens⟩

end Value

end PrefixCalc
