/-
# The trees of programs

A syntax tree may have any tags and any shape. `IsProgram` describes, by tags and
contents alone, the ones that stand for programs, and `leaves` lists what such a tree
shows of the text: its leaves from left to right, without the two ends.

Parsing gives only such trees, and the leaves are the tokens of the text, one for one
and in order. Conversely every such tree is what the text of its leaves is parsed to,
so that a tree and its tokens determine each other.
-/

import Mathlib
import PrefixCalc.Proofs.SExpr.Reading
import PrefixCalc.Proofs.Value.OfProgram

namespace PrefixCalc

/-- The leaf that shows a token. -/
def Token.leaf : Token → SyntaxTree
  | .atom (.numeral text) => ⟨"expr|number|regex", text, []⟩
  | .atom (.operator op) => ⟨"expr|symbol|char", op.symbol, []⟩
  | .atom (.word name) => ⟨"expr|symbol|regex", name, []⟩
  | .leftParen => ⟨"char", "(", []⟩
  | .rightParen => ⟨"char", ")", []⟩

@[simp] theorem Token.content_leaf (token : Token) : token.leaf.content = token.text := by
  rcases token with (_ | _ | _) | _ | _ <;> rfl

namespace SyntaxTree

/-! ## Form -/

/-- A tree that stands for an item of a program: the leaf of a well-spelled atom, or a
list of items between the leaves of its parentheses. -/
inductive IsItem : SyntaxTree → Prop
  | atom {a : Atom} : a.isSpelled → IsItem (Token.atom a).leaf
  | list {items : List SyntaxTree} : (∀ item ∈ items, IsItem item) →
      IsItem ⟨"expr|sexpr|>", "", Token.leftParen.leaf :: (items ++ [Token.rightParen.leaf])⟩

/-- A tree that stands for a program: its items between the two ends of the text. -/
def IsProgram (tree : SyntaxTree) : Prop :=
  ∃ items, (∀ item ∈ items, IsItem item) ∧
    tree = ⟨">", "", ⟨"regex", "", []⟩ :: (items ++ [⟨"regex", "", []⟩])⟩

mutual

/-- The leaves of a tree from left to right, the ends of the text left out. -/
def leaves : SyntaxTree → List SyntaxTree
  | ⟨tag, content, children⟩ =>
    if children.isEmpty then if tag = "regex" then [] else [⟨tag, content, []⟩]
    else leavesOfAll children

/-- The leaves of some trees, one after the other. -/
def leavesOfAll : List SyntaxTree → List SyntaxTree
  | [] => []
  | tree :: rest => tree.leaves ++ leavesOfAll rest

end

mutual

/-- How deeply lists nest in a tree. -/
def listDepth : SyntaxTree → Nat
  | ⟨tag, _, children⟩ => (if tag = "expr|sexpr|>" then 1 else 0) + listDepths children

/-- The greatest nesting of lists in some trees, zero if there are none. -/
def listDepths : List SyntaxTree → Nat
  | [] => 0
  | tree :: rest => max tree.listDepth (listDepths rest)

end

/-- A text that consists of some contents in their order, with a run of blanks between
any two neighbours. -/
inductive Spaced : List String → List Char → Prop
  | nil : Spaced [] []
  | single (content : String) : Spaced [content] content.toList
  | cons {content next : String} {rest : List String} {gap text : List Char} :
      gap ≠ [] → (∀ c ∈ gap, isBlank c) → Spaced (next :: rest) text →
      Spaced (content :: next :: rest) (content.toList ++ (gap ++ text))

/-! ## The trees of s-expressions -/

@[simp] theorem leavesOfAll_nil : leavesOfAll [] = [] := by rw [leavesOfAll]
@[simp] theorem leavesOfAll_cons (tree : SyntaxTree) (rest : List SyntaxTree) :
    leavesOfAll (tree :: rest) = tree.leaves ++ leavesOfAll rest := by rw [leavesOfAll]

theorem leavesOfAll_append (front back : List SyntaxTree) :
    leavesOfAll (front ++ back) = leavesOfAll front ++ leavesOfAll back := by
  induction front with
  | nil => simp
  | cons tree rest ih => simp [ih]

@[simp] theorem leaves_boundary : leaves ⟨"regex", "", []⟩ = [] := by
  rw [leaves]
  rfl

@[simp] theorem leaves_leaf (token : Token) : token.leaf.leaves = [token.leaf] := by
  rcases token with (_ | _ | _) | _ | _ <;> simp [Token.leaf, leaves]

@[simp] theorem leaves_branch (tag : String) (child : SyntaxTree) (rest : List SyntaxTree) :
    leaves ⟨tag, "", child :: rest⟩ = child.leaves ++ leavesOfAll rest := by
  rw [leaves, leavesOfAll_cons]
  rfl

@[simp] theorem listDepths_nil : listDepths [] = 0 := by rw [listDepths]
@[simp] theorem listDepths_cons (tree : SyntaxTree) (rest : List SyntaxTree) :
    listDepths (tree :: rest) = max tree.listDepth (listDepths rest) := by rw [listDepths]

theorem listDepths_append (front back : List SyntaxTree) :
    listDepths (front ++ back) = max (listDepths front) (listDepths back) := by
  induction front with
  | nil => simp
  | cons tree rest ih => simp [ih, Nat.max_assoc]

@[simp] theorem listDepth_leaf (token : Token) : token.leaf.listDepth = 0 := by
  rcases token with (_ | _ | _) | _ | _ <;> simp [Token.leaf, listDepth]

theorem ofSExpr_atom_eq_leaf (a : Atom) : ofSExpr (.atom a) = (Token.atom a).leaf := by
  rw [ofSExpr_atom]
  cases a <;> rfl

theorem ofSExpr_list_eq (items : List SExpr) :
    ofSExpr (.list items) = ⟨"expr|sexpr|>", "",
      Token.leftParen.leaf :: (items.map ofSExpr ++ [Token.rightParen.leaf])⟩ := by
  rw [ofSExpr_list, ofSExprs_eq_map]
  rfl

theorem ofProgram_eq (program : Program) :
    ofProgram program =
      ⟨">", "", ⟨"regex", "", []⟩ :: (program.map ofSExpr ++ [⟨"regex", "", []⟩])⟩ := by
  rw [ofProgram, ofSExprs_eq_map]
  rfl

/-- Well-spelled s-expressions have trees of items. -/
theorem isItem_ofSExpr {expr : SExpr} (h : ∀ token ∈ expr.tokens, token.isSpelled) :
    IsItem (ofSExpr expr) := by
  induction expr with
  | atom a =>
      rw [ofSExpr_atom_eq_leaf]
      exact .atom (h (.atom a) (by simp))
  | list items ih =>
      rw [ofSExpr_list_eq]
      apply IsItem.list
      intro item hitem
      obtain ⟨expr, hexpr, rfl⟩ := List.mem_map.1 hitem
      apply ih expr hexpr
      intro token htoken
      exact h token (by simp [SExpr.mem_tokensOfAll hexpr htoken])

/-- Trees that are those of well-spelled s-expressions one by one are so together. -/
theorem exists_program_of_items {items : List SyntaxTree}
    (h : ∀ item ∈ items, ∃ expr, ofSExpr expr = item ∧ ∀ token ∈ expr.tokens, token.isSpelled) :
    ∃ program : Program, program.map ofSExpr = items ∧
      ∀ token ∈ SExpr.tokensOfAll program, token.isSpelled := by
  induction items with
  | nil => exact ⟨[], rfl, by simp⟩
  | cons item rest ih =>
      obtain ⟨hitem, hrest⟩ := List.forall_mem_cons.1 h
      obtain ⟨expr, rfl, hexpr⟩ := hitem
      obtain ⟨program, rfl, hprogram⟩ := ih hrest
      refine ⟨expr :: program, rfl, ?_⟩
      rw [SExpr.tokensOfAll_cons]
      exact List.forall_mem_append.2 ⟨hexpr, hprogram⟩

/-- There are no other trees of items. -/
theorem IsItem.exists_sexpr {tree : SyntaxTree} (h : IsItem tree) :
    ∃ expr, ofSExpr expr = tree ∧ ∀ token ∈ expr.tokens, token.isSpelled := by
  induction h with
  | @atom a ha =>
      refine ⟨.atom a, ofSExpr_atom_eq_leaf a, ?_⟩
      rw [SExpr.tokens_atom]
      exact List.forall_mem_singleton.2 ha
  | list _ ih =>
      obtain ⟨program, rfl, hprogram⟩ := exists_program_of_items ih
      refine ⟨.list program, ofSExpr_list_eq program, ?_⟩
      rw [SExpr.tokens_list]
      exact List.forall_mem_cons.2
        ⟨rfl, List.forall_mem_append.2 ⟨hprogram, List.forall_mem_singleton.2 rfl⟩⟩

/-- The trees that stand for programs are those of well-spelled programs. -/
theorem isProgram_iff {tree : SyntaxTree} :
    tree.IsProgram ↔ ∃ program, ofProgram program = tree ∧
      ∀ token ∈ SExpr.tokensOfAll program, token.isSpelled := by
  refine ⟨fun h => ?_, fun h => ?_⟩
  · obtain ⟨items, hitems, rfl⟩ := h
    obtain ⟨program, rfl, hprogram⟩ :=
      exists_program_of_items fun item hitem => (hitems item hitem).exists_sexpr
    exact ⟨program, ofProgram_eq program, hprogram⟩
  · obtain ⟨program, rfl, hprogram⟩ := h
    refine ⟨program.map ofSExpr, fun item hitem => ?_, ofProgram_eq program⟩
    obtain ⟨expr, hexpr, rfl⟩ := List.mem_map.1 hitem
    exact isItem_ofSExpr fun token htoken => hprogram token (SExpr.mem_tokensOfAll hexpr htoken)

/-! ## Leaves and nesting -/

/-- The leaves of items that show their tokens show the tokens of all. -/
theorem leavesOfAll_map_ofSExpr {exprs : List SExpr}
    (h : ∀ expr ∈ exprs, (ofSExpr expr).leaves = expr.tokens.map Token.leaf) :
    leavesOfAll (exprs.map ofSExpr) = (SExpr.tokensOfAll exprs).map Token.leaf := by
  induction exprs with
  | nil => simp
  | cons expr rest ih =>
      obtain ⟨hexpr, hrest⟩ := List.forall_mem_cons.1 h
      simp [hexpr, ih hrest]

theorem leaves_ofSExpr (expr : SExpr) : (ofSExpr expr).leaves = expr.tokens.map Token.leaf := by
  induction expr with
  | atom a => rw [ofSExpr_atom_eq_leaf, leaves_leaf, SExpr.tokens_atom, List.map_singleton]
  | list items ih =>
      rw [ofSExpr_list_eq, leaves_branch, leavesOfAll_append, leavesOfAll_map_ofSExpr ih]
      simp

theorem leaves_ofProgram (program : Program) :
    (ofProgram program).leaves = (SExpr.tokensOfAll program).map Token.leaf := by
  rw [ofProgram_eq, leaves_branch, leavesOfAll_append,
    leavesOfAll_map_ofSExpr fun expr _ => leaves_ofSExpr expr]
  simp

theorem listDepths_map_ofSExpr {exprs : List SExpr}
    (h : ∀ expr ∈ exprs, (ofSExpr expr).listDepth = expr.depth) :
    listDepths (exprs.map ofSExpr) = SExpr.depths exprs := by
  induction exprs with
  | nil => simp
  | cons expr rest ih =>
      obtain ⟨hexpr, hrest⟩ := List.forall_mem_cons.1 h
      simp [hexpr, ih hrest]

theorem listDepth_ofSExpr (expr : SExpr) : (ofSExpr expr).listDepth = expr.depth := by
  induction expr with
  | atom a => rw [ofSExpr_atom_eq_leaf, listDepth_leaf, SExpr.depth_atom]
  | list items ih =>
      rw [ofSExpr_list_eq, listDepth, if_pos rfl, listDepths_cons, listDepths_append,
        listDepths_map_ofSExpr ih]
      simp

theorem listDepth_ofProgram (program : Program) :
    (ofProgram program).listDepth = SExpr.depths program := by
  rw [ofProgram_eq, listDepth, if_neg (by decide), listDepths_cons, listDepths_append,
    listDepths_map_ofSExpr fun expr _ => listDepth_ofSExpr expr]
  simp [listDepth]

/-- A text of spaced tokens spells them. -/
theorem Spaced.spells {tokens : List Token} {text : List Char}
    (h : Spaced (tokens.map Token.text) text) (htokens : ∀ token ∈ tokens, token.isSpelled) :
    Token.Spells tokens text := by
  generalize hcontents : tokens.map Token.text = contents at h
  induction h generalizing tokens with
  | nil =>
      obtain rfl := List.map_eq_nil_iff.1 hcontents
      exact Token.spells_nil
  | single content =>
      obtain ⟨token, rfl, rfl⟩ := List.map_eq_singleton_iff.1 hcontents
      exact Token.spells_singleton (htokens token (by simp))
  | @cons content next rest gap text hne hgap _ ih =>
      obtain ⟨token, more, rfl, rfl, hmore⟩ := List.map_eq_cons_iff.1 hcontents
      obtain ⟨htoken, hspelled⟩ := List.forall_mem_cons.1 htokens
      exact (Token.spells_singleton htoken).append_blanks hne hgap (ih hspelled hmore)

/-! ## Parsing -/

theorem map_content_leaves_ofProgram (program : Program) :
    (ofProgram program).leaves.map content = (SExpr.tokensOfAll program).map Token.text := by
  rw [leaves_ofProgram, List.map_map]
  exact List.map_congr_left fun token _ => token.content_leaf

/-- Trees and tokens determine each other. What is parsed is the tree of a program, and
its leaves are the tokens of the text: none is lost, doubled or moved. The other way
round, every tree of a program within the limit is parsed from each text that consists
of its leaves with blanks between them. -/
theorem parse_corresponds_to_tokens (limit : Nat) :
    (∀ source tree, parse limit source = .ok tree →
      tree.IsProgram ∧ tree.listDepth ≤ limit ∧
        ∃ lexemes, Lexeme.lex source = .ok lexemes ∧
          tree.leaves = lexemes.map (fun lexeme => lexeme.token.leaf) ∧
          tree.leaves.map content = lexemes.map (fun lexeme => lexeme.token.text)) ∧
    (∀ tree (text : String), tree.IsProgram → tree.listDepth ≤ limit →
      Spaced (tree.leaves.map content) text.toList → parse limit text = .ok tree) := by
  refine ⟨fun source tree hparse => ?_, fun tree text htree hdepth hspaced => ?_⟩
  · obtain ⟨program, hprogram, rfl⟩ := parse_eq_ok_iff.1 hparse
    obtain ⟨lexemes, hlex, htokens⟩ := Program.exists_lex_of_parse hprogram
    refine ⟨isProgram_iff.2 ⟨program, rfl, Program.isSpelled_of_parse hprogram⟩, ?_, lexemes, hlex,
      ?_, ?_⟩
    · rw [listDepth_ofProgram]
      exact Program.depths_le_of_parse hprogram
    · rw [leaves_ofProgram, ← htokens, List.map_map]
      rfl
    · rw [map_content_leaves_ofProgram, ← htokens, List.map_map]
      rfl
  · obtain ⟨program, rfl, hspelled⟩ := isProgram_iff.1 htree
    rw [listDepth_ofProgram] at hdepth
    rw [map_content_leaves_ofProgram] at hspaced
    have hparse := Program.parse_of_spells (hspaced.spells hspelled) hdepth
    rw [String.ofList_toList] at hparse
    exact parse_eq_ok_iff.2 ⟨program, hparse, rfl⟩

theorem parse_corresponds_to_tokens_of_difference :
    let tree := ofProgram [.list [.atom (.operator .sub), .atom (.numeral "-03"), .list [],
      .atom (.word "x_1")]]
    parse 2 "(--03()x_1)" = .ok tree ∧
      tree.leaves.map content = ["(", "-", "-03", "(", ")", "x_1", ")"] ∧
      parse 2 "( -\t-03 \n ( )\r\nx_1 )" = .ok tree := by
  intro tree
  have hparse : parse 2 "(--03()x_1)" = .ok tree := by cbv
  have hleaves : tree.leaves.map content = ["(", "-", "-03", "(", ")", "x_1", ")"] := by
    rw [map_content_leaves_ofProgram]
    decide
  obtain ⟨hprogram, hdepth, -⟩ := (parse_corresponds_to_tokens 2).1 _ tree hparse
  have htext : "( -\t-03 \n ( )\r\nx_1 )".toList =
      "(".toList ++ ([' '] ++ ("-".toList ++ (['\t'] ++ ("-03".toList ++ ([' ', '\n', ' '] ++
        ("(".toList ++ ([' '] ++ (")".toList ++ (['\r', '\n'] ++ ("x_1".toList ++ ([' '] ++
          ")".toList))))))))))) := by rfl
  have hspaced : Spaced (tree.leaves.map content) "( -\t-03 \n ( )\r\nx_1 )".toList := by
    rw [hleaves, htext]
    have hgap : ∀ {gap : List Char}, gap.all isBlank → ∀ c ∈ gap, isBlank c := List.all_eq_true.1
    refine .cons (by decide) (hgap rfl) (.cons (by decide) (hgap rfl) ?_)
    refine .cons (by decide) (hgap rfl) (.cons (by decide) (hgap rfl) ?_)
    exact .cons (by decide) (hgap rfl) (.cons (by decide) (hgap rfl) (.single _))
  exact ⟨hparse, hleaves, (parse_corresponds_to_tokens 2).2 tree _ hprogram hdepth hspaced⟩

end SyntaxTree

end PrefixCalc
