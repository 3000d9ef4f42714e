/-
# The answer to a source text

A text that can be read is answered with the outcome of its program: no trees, tags or
tokens are left in the answer (`evaluate_eq_ok_iff`).

The main statement is about the parentheses around a whole text. A program is reduced as
a list that stands at level zero, unless it is a single item, which is reduced itself.
Parentheses around the text turn it into a single item, the list, which now stands at
level one. With a limit higher by one there is the same room for everything below, and
nothing else tells the two apart.
-/

import PrefixCalc.Calculator
import PrefixCalc.Proofs.Value.NestingLimit
import PrefixCalc.Proofs.Value.OfProgram
import Mathlib

namespace PrefixCalc

/-- The answer to a text is the outcome of its program. -/
theorem evaluate_eq_ok_iff {settings : Settings} {source : String} {evaluation : Evaluation} :
    evaluate settings source = .ok evaluation ↔
      ∃ program, Program.parse settings.nestingLimit source = .ok program ∧
        evaluation = ⟨.ofOutcome ((Value.expression (program.map Value.ofSExpr)).reduceProgram
          settings.nestingLimit).outcome,
          if settings.showTrees then some (ShownTrees.ofTree (.ofProgram program)) else none⟩ := by
  rw [evaluate_eq_map, SyntaxTree.parse]
  cases hprogram : Program.parse settings.nestingLimit source with
  | error error => simp [Except.map]
  | ok program =>
      have hvalue := Value.ofTree_ofProgram (Program.isSpelled_of_parse hprogram)
      refine ⟨fun h => ?_, fun h => ?_⟩
      · cases h
        refine ⟨program, rfl, ?_⟩
        rw [← hvalue]
        rfl
      · obtain ⟨program', hprogram', rfl⟩ := h
        cases hprogram'
        rw [← hvalue]
        rfl

/-! ## Parentheses around a whole text -/

/-- Parentheses around a text make one list of its items. -/
theorem Program.parse_parenthesized {limit : Nat} {source : String} {program : Program}
    (h : Program.parse limit source = .ok program) :
    Program.parse (limit + 1) ("(" ++ source ++ ")") = .ok [.list program] := by
  obtain ⟨lexemes, hlex, htokens⟩ := exists_lex_of_parse h
  have hspells : Token.Spells (SExpr.tokensOfAll program) source.toList := by
    rw [← htokens]
    exact Token.spells_of_tiles (Lexeme.tiles_of_lexFrom_eq_ok hlex)
  have hlist : Token.Spells (SExpr.tokensOfAll [.list program])
      ('(' :: (source.toList ++ [')'])) := by
    simpa using (hspells.append (by simp) Token.spells_nil.rightParen).leftParen
  have htext : "(" ++ source ++ ")" = String.ofList ('(' :: (source.toList ++ [')'])) := by
    rw [← String.toList_inj]
    simp
  have hdepth := depths_le_of_parse h
  rw [htext]
  apply parse_of_spells hlist
  rw [SExpr.depths_cons, SExpr.depths_nil, SExpr.depth_list]
  omega

/-- The number of items of a tree that was parsed is that of its program. -/
theorem SyntaxTree.length_significant_of_parse {limit : Nat} {source : String}
    {program : Program} (h : Program.parse limit source = .ok program) :
    (ofProgram program).significant.length = program.length := by
  rw [ofProgram, significant_enclosed (by decide) (by decide) (Program.isSpelled_of_parse h),
    List.length_map]

/-- A program that is not a single item is reduced like the list of its items, as the
only item of a program and with a limit higher by one. -/
theorem Value.reduceProgram_eq_reduceProgram_singleton {limit : Nat} {items : List Value}
    (hmany : items.length ≠ 1) (hdepth : depths items ≤ limit) :
    (expression items).reduceProgram limit =
      (expression [expression items]).reduceProgram (limit + 1) := by
  rcases reduceProgram_cases (expression items) with ⟨item, hitem, -⟩ | ⟨-, hroot⟩
  · cases hitem
    exact absurd rfl hmany
  · rw [hroot, reduceProgram_singleton]
    apply reduceAt_eq_of_room
    · rw [depth_expression]
      omega
    · rw [depth_expression]
      omega

/-- Parentheses around a whole text may be left out. A text of no item, or of several,
has the same answer as the text in parentheses, which is accepted with a limit higher by
one. -/
theorem evaluate_parenthesized (settings : Settings) {source : String} {tree : SyntaxTree}
    (hparse : SyntaxTree.parse settings.nestingLimit source = .ok tree)
    (hitems : tree.significant.length ≠ 1) :
    let wider : Settings := { settings with nestingLimit := settings.nestingLimit + 1 }
    ∃ tree' whole parenthesized,
      SyntaxTree.parse wider.nestingLimit ("(" ++ source ++ ")") = .ok tree' ∧
      evaluate settings source = .ok whole ∧
      evaluate wider ("(" ++ source ++ ")") = .ok parenthesized ∧
      parenthesized.value = whole.value ∧ parenthesized.output = whole.output := by
  intro wider
  obtain ⟨program, hprogram, rfl⟩ := SyntaxTree.parse_eq_ok_iff.1 hparse
  rw [SyntaxTree.length_significant_of_parse hprogram] at hitems
  have hparenthesized : Program.parse wider.nestingLimit ("(" ++ source ++ ")") =
      .ok [.list program] := Program.parse_parenthesized hprogram
  have hdepth : Value.depths (program.map Value.ofSExpr) ≤ settings.nestingLimit := by
    have hlist := Value.depth_ofSExpr (.list program)
    have hprogramDepth := Program.depths_le_of_parse hprogram
    rw [Value.ofSExpr_list, Value.depth_expression, SExpr.depth_list] at hlist
    omega
  have hreduce : (Value.expression (program.map Value.ofSExpr)).reduceProgram
        settings.nestingLimit =
      (Value.expression ([SExpr.list program].map Value.ofSExpr)).reduceProgram
        wider.nestingLimit := by
    rw [List.map_cons, List.map_nil, Value.ofSExpr_list]
    exact Value.reduceProgram_eq_reduceProgram_singleton (by rwa [List.length_map]) hdepth
  refine ⟨_, _, _, SyntaxTree.parse_eq_ok_iff.2 ⟨_, hparenthesized, rfl⟩,
    evaluate_eq_ok_iff.2 ⟨program, hprogram, rfl⟩,
    evaluate_eq_ok_iff.2 ⟨_, hparenthesized, rfl⟩, ?_, ?_⟩
  · rw [hreduce]
  · rw [Evaluation.output, Evaluation.output, hreduce]

theorem evaluate_parenthesized_of_sum_and_headless_program :
    let answeredAlike (source : String) (value : Value) (output : String) : Prop :=
      (∃ tree, SyntaxTree.parse 1 source = .ok tree ∧ tree.significant.length = 3) ∧
        (∃ tree', SyntaxTree.parse 2 ("(" ++ source ++ ")") = .ok tree') ∧
        ∃ whole parenthesized, evaluate ⟨1, false⟩ source = .ok whole ∧
          evaluate ⟨2, false⟩ ("(" ++ source ++ ")") = .ok parenthesized ∧
          whole.value = value ∧ parenthesized.value = value ∧ parenthesized.output = output
    answeredAlike "+ (* 2 3)-4" (.number 2) "2" ∧
      answeredAlike "(- 1)2 x"
        (.failure ⟨.malformed, some "expression does not start with an operator"⟩)
        "Error: Unknown Error." := by
  intro answeredAlike
  have hinstance : ∀ {source : String} {program : Program} {value : Value} {output : String},
      Program.parse 1 source = .ok program → program.length = 3 →
      evaluate ⟨1, false⟩ source = .ok ⟨value, none⟩ → value.render = output →
      answeredAlike source value output := by
    intro source program value output hprogram hitems hanswer houtput
    have hparse := SyntaxTree.parse_eq_ok_iff.2 ⟨program, hprogram, rfl⟩
    have hlength : (SyntaxTree.ofProgram program).significant.length = 3 :=
      (SyntaxTree.length_significant_of_parse hprogram).trans hitems
    obtain ⟨tree', whole, parenthesized, htree', hwhole, hparenthesized, hvalue, hsame⟩ :=
      evaluate_parenthesized ⟨1, false⟩ hparse (by rw [hlength]; decide)
    cases hwhole.symm.trans hanswer
    exact ⟨⟨_, hparse, hlength⟩, ⟨tree', htree'⟩, _, parenthesized, hanswer, hparenthesized, rfl,
      hvalue, hsame.trans houtput⟩
  let sum : Program := [.atom (.operator .add),
    .list [.atom (.operator .mul), .atom (.numeral "2"), .atom (.numeral "3")],
    .atom (.numeral "-4")]
  let headless : Program := [.list [.atom (.operator .sub), .atom (.numeral "1")],
    .atom (.numeral "2"), .atom (.word "x")]
  have hsum : Program.parse 1 "+ (* 2 3)-4" = .ok sum := by cbv
  have hheadless : Program.parse 1 "(- 1)2 x" = .ok headless := by cbv
  refine ⟨hinstance hsum rfl ?_ (by decide), hinstance hheadless rfl ?_ (by decide)⟩
  · exact evaluate_eq_ok_iff.2 ⟨sum, hsum, by rfl⟩
  · exact evaluate_eq_ok_iff.2 ⟨headless, hheadless, by rfl⟩

end PrefixCalc
