/-
# The value of a program

A syntax tree is classified by tags and contents, an s-expression by its
constructors. `Value.ofSExpr` is the value of an s-expression told from the
constructors alone, and on the trees of well-spelled programs both agree: no item is
taken for a parenthesis or an end of the text, none is lost and none is read as
something else. Nesting is kept as it is.
-/

import PrefixCalc.Proofs.SExpr.Reading
import PrefixCalc.Proofs.Token.Tiling
import PrefixCalc.Value.OfTree

namespace PrefixCalc

namespace Value

mutual

/-- The value that an s-expression stands for. -/
def ofSExpr : SExpr → Value
  | .atom (.numeral text) => ofNumeral text
  | .atom (.operator op) => .symbol op.symbol
  | .atom (.word name) => .symbol name
  | .list items => .expression (ofSExprs items)

/-- The values of some s-expressions. -/
def ofSExprs : List SExpr → List Value
  | [] => []
  | expr :: rest => ofSExpr expr :: ofSExprs rest

end

theorem ofSExprs_eq_map (exprs : List SExpr) : ofSExprs exprs = exprs.map ofSExpr := by
  induction exprs with
  | nil => rw [ofSExprs, List.map_nil]
  | cons expr rest ih => rw [ofSExprs, ih, List.map_cons]

@[simp]
theorem ofSExpr_list (items : List SExpr) :
    ofSExpr (.list items) = .expression (items.map ofSExpr) := by
  rw [ofSExpr, ofSExprs_eq_map]

theorem depth_ofNumeral (text : String) : (ofNumeral text).depth = 0 := by
  unfold ofNumeral
  split
  · exact depth_number _
  · exact depth_failure _

@[simp]
theorem depth_ofSExpr (expr : SExpr) : (ofSExpr expr).depth = expr.depth := by
  induction expr with
  | atom a =>
      cases a with
      | numeral text => rw [ofSExpr, depth_ofNumeral, SExpr.depth_atom]
      | operator op => rw [ofSExpr, depth_symbol, SExpr.depth_atom]
      | word name => rw [ofSExpr, depth_symbol, SExpr.depth_atom]
  | list items ih =>
      have hdepths : depths (items.map ofSExpr) = SExpr.depths items := by
        induction items with
        | nil => rw [List.map_nil, depths_nil, SExpr.depths_nil]
        | cons item rest ihRest =>
            obtain ⟨hitem, hrest⟩ := List.forall_mem_cons.1 ih
            rw [List.map_cons, depths_cons, SExpr.depths_cons, hitem, ihRest hrest]
      rw [ofSExpr_list, depth_expression, SExpr.depth_list, hdepths]

end Value

namespace SyntaxTree

/-- No atom is written as a parenthesis. -/
theorem not_isStructural_ofSExpr_atom {a : Atom} (h : a.isSpelled) :
    ¬ (ofSExpr (.atom a)).IsStructural := by
  have hpart : ∀ c ∈ a.text.toList, c ≠ '(' ∧ c ≠ ')' := fun c hc =>
    (not_isBlank_of_isAtomPart (isAtomPart_of_mem h hc)).2
  have htag : tagOfAtom a ≠ Tag.boundary := by
    cases a with
    | numeral => exact show Tag.numeral ≠ Tag.boundary by decide
    | operator => exact show Tag.operator ≠ Tag.boundary by decide
    | word => exact show Tag.word ≠ Tag.boundary by decide
  rw [ofSExpr_atom]
  rintro (hopening | hclosing | hboundary)
  · exact (hpart '(' (by simp [show a.text = "(" from hopening])).1 rfl
  · exact (hpart ')' (by simp [show a.text = ")" from hclosing])).2 rfl
  · exact htag hboundary

theorem not_isStructural_ofSExpr {expr : SExpr} (h : ∀ token ∈ expr.tokens, token.isSpelled) :
    ¬ (ofSExpr expr).IsStructural := by
  cases expr with
  | atom a => exact not_isStructural_ofSExpr_atom (h (.atom a) (by simp))
  | list items =>
      rw [ofSExpr_list]
      simp [IsStructural, Tag.list, Tag.boundary]

/-- Only the items of a tree made of items and what encloses them are significant. -/
theorem significant_enclosed {tag : String} {opening closing : SyntaxTree} {exprs : List SExpr}
    (hopening : opening.IsStructural) (hclosing : closing.IsStructural)
    (hexprs : ∀ token ∈ SExpr.tokensOfAll exprs, token.isSpelled) :
    (⟨tag, "", opening :: (ofSExprs exprs ++ [closing])⟩ : SyntaxTree).significant =
      exprs.map ofSExpr := by
  have hitems : (exprs.map ofSExpr).filter (fun tree => ¬ tree.IsStructural) =
      exprs.map ofSExpr := by
    rw [List.filter_eq_self]
    intro tree htree
    obtain ⟨expr, hexpr, rfl⟩ := List.mem_map.1 htree
    have hspelled : ∀ token ∈ expr.tokens, token.isSpelled := fun token htoken =>
      hexprs token (SExpr.mem_tokensOfAll hexpr htoken)
    simpa using not_isStructural_ofSExpr hspelled
  rw [significant, ofSExprs_eq_map, List.filter_cons_of_neg (by simpa using hopening),
    List.filter_append, hitems, List.filter_cons_of_neg (by simpa using hclosing),
    List.filter_nil, List.append_nil]

end SyntaxTree

/-- An accepted program is well spelled. -/
theorem Program.isSpelled_of_parse {limit : Nat} {source : String} {program : Program}
    (h : Program.parse limit source = .ok program) :
    ∀ token ∈ SExpr.tokensOfAll program, token.isSpelled := by
  obtain ⟨lexemes, hlex, htokens⟩ := Program.exists_lex_of_parse h
  rw [← htokens]
  exact (Lexeme.tiles_of_lexFrom_eq_ok hlex).isSpelled

namespace Value

/-- The tree of a well-spelled s-expression stands for the value of the s-expression. -/
theorem ofTree_ofSExpr {expr : SExpr} (h : ∀ token ∈ expr.tokens, token.isSpelled) :
    ofTree (SyntaxTree.ofSExpr expr) = ofSExpr expr := by
  induction expr with
  | atom a =>
      have hkind : (SyntaxTree.ofSExpr (.atom a)).kind =
          NodeKind.ofTag (SyntaxTree.tagOfAtom a) := by
        rw [SyntaxTree.ofSExpr_atom]
        rfl
      rw [SyntaxTree.ofTag_tagOfAtom] at hkind
      cases a with
      | numeral text => rw [ofTree_number hkind, SyntaxTree.ofSExpr_atom, ofSExpr]; rfl
      | operator op => rw [ofTree_symbol hkind, SyntaxTree.ofSExpr_atom, ofSExpr]; rfl
      | word name => rw [ofTree_symbol hkind, SyntaxTree.ofSExpr_atom, ofSExpr]; rfl
  | list items ih =>
      have hitems : ∀ token ∈ SExpr.tokensOfAll items, token.isSpelled := fun token htoken =>
        h token (by simp [htoken])
      have hkind : (SyntaxTree.ofSExpr (.list items)).kind = .container := by
        rw [SyntaxTree.ofSExpr]
        exact SyntaxTree.ofTag_list
      rw [ofTree_container hkind, SyntaxTree.ofSExpr,
        SyntaxTree.significant_enclosed (by decide) (by decide) hitems, List.map_map, ofSExpr_list]
      congr 1
      apply List.map_congr_left
      intro item hitem
      exact ih item hitem fun token htoken => hitems token (SExpr.mem_tokensOfAll hitem htoken)

/-- A well-spelled program stands for the expression of its items. -/
theorem ofTree_ofProgram {program : Program}
    (h : ∀ token ∈ SExpr.tokensOfAll program, token.isSpelled) :
    ofTree (SyntaxTree.ofProgram program) = .expression (program.map ofSExpr) := by
  have hkind : (SyntaxTree.ofProgram program).kind = .container := SyntaxTree.ofTag_root
  rw [ofTree_container hkind, SyntaxTree.ofProgram,
    SyntaxTree.significant_enclosed (by decide) (by decide) h, List.map_map]
  congr 1
  apply List.map_congr_left
  intro expr hexpr
  exact ofTree_ofSExpr fun token htoken => h token (SExpr.mem_tokensOfAll hexpr htoken)

end Value

end PrefixCalc
