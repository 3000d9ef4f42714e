/-
# Referential transparency

A list that comes to a number may be exchanged for that number, wherever it stands in
a source text: the answer to the whole does not change. It does not matter whether the
list is an operand, stands where an operator should, or is never looked at.

The text decides what is exchanged, so the argument goes through all stages. Tokens do
not merge across a parenthesis or a blank; the reader replaces one item and keeps the
others; and reduction comes to the same outcome wherever an item does, at every level
that the limit lets the item be reached at.
-/

import Mathlib
import PrefixCalc.Proofs.Answer
import PrefixCalc.Proofs.Diagnosis
import PrefixCalc.Proofs.ReadBack
import PrefixCalc.Proofs.SExpr.Replacement
import PrefixCalc.Proofs.Value.Denotation

namespace PrefixCalc

/-- Two reductions come to the same, whatever they visit. -/
def Reduction.SameOutcome (first second : Reduction Number) : Prop :=
  first.outcome = second.outcome

theorem Reduction.isCongruence_sameOutcome : IsCongruence SameOutcome where
  refl _ := rfl
  visiting h := h
  bind h hnext := by
    rw [SameOutcome, outcome_bind, outcome_bind, h]
    exact congrArg _ (funext hnext)

namespace Value

open SExpr (Replaced)

variable {limit level : Nat}

/-- A value that comes to a number by itself does so at every level that leaves room for
its nesting. -/
theorem outcome_reduceAt_of_outcome_reduce {value : Value} {n : Number}
    (h : (value.reduce limit).outcome = .ok n) (hroom : level + value.depth ≤ limit + 1) :
    (value.reduceAt limit level).outcome = .ok n := by
  have hlevel : level ≤ limit + 1 := by omega
  exact (isExactAt value hlevel n).2 ⟨hroom, (outcome_reduce_eq_ok_iff.1 h).2⟩

section Replacement

variable {inner : List SExpr} {new : SExpr} {n : Number}

theorem ofSExpr_eq_symbol_iff_of_replaced (hnew : ofSExpr new = .number n) {expr expr' : SExpr}
    (h : Replaced (.list inner) new expr expr') (name : String) :
    ofSExpr expr = .symbol name ↔ ofSExpr expr' = .symbol name := by
  cases h with
  | here => simp [hnew]
  | atom a => exact Iff.rfl
  | list _ => simp

/-- Where a list that comes to a number is replaced by that number, the whole comes to
the same. -/
theorem outcome_reduceAt_eq_of_replaced (hnew : ofSExpr new = .number n)
    (hlist : ((ofSExpr (.list inner)).reduce limit).outcome = .ok n) {expr expr' : SExpr}
    (h : Replaced (.list inner) new expr expr') (hroom : level + expr.depth ≤ limit + 1) :
    ((ofSExpr expr).reduceAt limit level).outcome =
      ((ofSExpr expr').reduceAt limit level).outcome := by
  induction expr generalizing expr' level with
  | atom a =>
      cases h with
      | atom _ => rfl
  | list items ih =>
      cases h with
      | here =>
          rw [hnew, reduceAt_number]
          exact outcome_reduceAt_of_outcome_reduce hlist (by rwa [depth_ofSExpr])
      | @list _ items' hitems =>
          rw [SExpr.depth_list] at hroom
          have hlevel : level ≤ limit := by omega
          rw [ofSExpr_list, ofSExpr_list, reduceAt_expression_of_le _ hlevel,
            reduceAt_expression_of_le _ hlevel, Reduction.outcome_visiting,
            Reduction.outcome_visiting]
          apply reduceItems_related Reduction.isCongruence_sameOutcome
          rw [List.forall₂_map_left_iff, List.forall₂_map_right_iff]
          have hmembers : List.Forall₂
              (fun item item' => item ∈ items ∧ Replaced (.list inner) new item item')
              items items' := (List.forall₂_and_left items items').2 ⟨fun _ hitem => hitem, hitems⟩
          refine hmembers.imp fun item item' hmember => ?_
          obtain ⟨hitem, hreplaced⟩ := hmember
          have hdepth := SExpr.depth_le_depths hitem
          exact ⟨ofSExpr_eq_symbol_iff_of_replaced hnew hreplaced,
            ih item hitem hreplaced (by omega)⟩

/-- The same for programs. A program of one item is not reduced as its root, but both
programs have the same number of items. -/
theorem outcome_reduceProgram_eq_of_replaced (hnew : ofSExpr new = .number n)
    (hlist : ((ofSExpr (.list inner)).reduce limit).outcome = .ok n) {program program' : Program}
    (h : List.Forall₂ (Replaced (.list inner) new) program program')
    (hdepth : SExpr.depths program ≤ limit) :
    ((expression (program.map ofSExpr)).reduceProgram limit).outcome =
      ((expression (program'.map ofSExpr)).reduceProgram limit).outcome := by
  have hroot : ((expression (program.map ofSExpr)).reduceAt limit 0).outcome =
      ((expression (program'.map ofSExpr)).reduceAt limit 0).outcome := by
    have hroom : 0 + (SExpr.list program).depth ≤ limit + 1 := by
      rw [SExpr.depth_list]
      omega
    simpa only [ofSExpr_list] using
      outcome_reduceAt_eq_of_replaced hnew hlist (.list h) hroom
  cases h with
  | nil => exact hroot
  | cons hitem hrest =>
      cases hrest with
      | cons _ _ => exact hroot
      | nil =>
          rw [SExpr.depths_cons, SExpr.depths_nil] at hdepth
          exact outcome_reduceAt_eq_of_replaced hnew hlist hitem (by omega)

end Replacement

end Value

/-! ## Texts -/

/-- The first character of a text opens a parenthesis that its last character closes:
between the two, parentheses match by themselves. -/
def IsSingleList (text : List Char) : Prop :=
  ∃ inner limit, text = '(' :: (inner ++ [')']) ∧ parenthesisError? limit 0 1 inner = none

/-- Every text over the alphabet spells some tokens. -/
theorem Token.exists_spells {text : List Char} (h : ∀ c ∈ text, isSourceCharacter c) :
    ∃ tokens, Token.Spells tokens text := by
  obtain ⟨lexemes, hlex⟩ := (exists_lexFrom_eq_ok_iff 1).2 h
  exact ⟨_, Token.spells_of_tiles (Lexeme.tiles_of_lexFrom_eq_ok hlex)⟩

/-- A text in which parentheses match spells a program. -/
theorem Program.exists_spells {inner : List Char} {limit : Nat}
    (hinner : ∀ c ∈ inner, isSourceCharacter c)
    (hmatch : parenthesisError? limit 0 1 inner = none) :
    ∃ program : Program, Token.Spells (SExpr.tokensOfAll program) inner := by
  obtain ⟨lexemes, hlex⟩ := (exists_lexFrom_eq_ok_iff 1).2 hinner
  have htiles := Lexeme.tiles_of_lexFrom_eq_ok hlex
  obtain ⟨program, hread⟩ := exists_readOnto_eq htiles [] []
  have hprogram := hread limit
  rw [List.length_nil, hmatch] at hprogram
  refine ⟨program, ?_⟩
  rw [SExpr.tokensOfAll_of_read hprogram]
  exact Token.spells_of_tiles htiles

/-- A single list spells the tokens of a list, and nothing behind it goes on with
them. -/
theorem IsSingleList.exists_spells {text : List Char} (h : IsSingleList text)
    (htext : ∀ c ∈ text, isSourceCharacter c) :
    ∃ items : List SExpr, ∀ {tokens : List Token} {rest : List Char}, Token.Spells tokens rest →
      Token.Spells ((SExpr.list items).tokens ++ tokens) (text ++ rest) := by
  obtain ⟨inner, limit, rfl, hmatch⟩ := h
  have hinner : ∀ c ∈ inner, isSourceCharacter c := fun c hc => htext c (by simp [hc])
  obtain ⟨items, hitems⟩ := Program.exists_spells hinner hmatch
  refine ⟨items, fun {tokens rest} hrest => ?_⟩
  have hspells := (hitems.append (by simp) hrest.rightParen).leftParen
  simpa using hspells

/-- The text of a number spells an s-expression that stands for the number. -/
theorem Number.exists_sexpr_spelled (n : Number) :
    ∃ expr, Value.ofSExpr expr = .number n ∧ expr.depth = 0 ∧
      Token.Spells expr.tokens n.text.toList := by
  obtain ⟨expr, hexpr, hspells⟩ := (Value.Readable.number n).exists_sexpr_spelled
  refine ⟨expr, hexpr, ?_, ?_⟩
  · rw [← Value.depth_ofSExpr, hexpr, Value.depth_number]
  · rw [Value.chars_number] at hspells
    rwa [Number.text, String.toList_ofList]

/-- Around a list, a text keeps its tokens when the list is exchanged for an
s-expression that is set off by blanks. -/
theorem exists_spells_around {before list after : List Char} (hlist : IsSingleList list)
    (hsource : ∀ c ∈ before ++ (list ++ after), isSourceCharacter c) :
    ∃ front back items, Token.Spells (SExpr.list items).tokens list ∧
      Token.Spells (front ++ ((SExpr.list items).tokens ++ back)) (before ++ (list ++ after)) ∧
      ∀ {expr : SExpr} {text : List Char}, Token.Spells expr.tokens text →
        Token.Spells (front ++ (expr.tokens ++ back))
          (before ++ ' ' :: (text ++ ' ' :: after)) := by
  obtain ⟨hbefore, hrest⟩ := List.forall_mem_append.1 hsource
  obtain ⟨hlistSource, hafter⟩ := List.forall_mem_append.1 hrest
  obtain ⟨front, hfront⟩ := Token.exists_spells hbefore
  obtain ⟨back, hback⟩ := Token.exists_spells hafter
  obtain ⟨items, hitems⟩ := hlist.exists_spells hlistSource
  refine ⟨front, back, items, by simpa using hitems Token.spells_nil, ?_,
    fun htext => hfront.append_space (htext.append_space hback)⟩
  apply hfront.append
  · obtain ⟨inner, limit, rfl, -⟩ := hlist
    simp
  · exact hitems hback

/-- A list that comes to a number may be exchanged for the number it is answered with,
set off by blanks: the text is accepted as before, and the answer to it stays the same.
This holds wherever the list stands in the text. -/
theorem evaluate_replace_by_answer (settings : Settings) {before list after : String}
    {tree : SyntaxTree} {part : Evaluation} {n : Number}
    (hlist : IsSingleList list.toList)
    (hparse : SyntaxTree.parse settings.nestingLimit (before ++ list ++ after) = .ok tree)
    (hpart : evaluate settings list = .ok part) (hnumber : part.value = .number n) :
    ∃ tree' whole replaced,
      SyntaxTree.parse settings.nestingLimit
        (before ++ " " ++ part.output ++ " " ++ after) = .ok tree' ∧
      evaluate settings (before ++ list ++ after) = .ok whole ∧
      evaluate settings (before ++ " " ++ part.output ++ " " ++ after) = .ok replaced ∧
      replaced.value = whole.value ∧ replaced.output = whole.output := by
  obtain ⟨program, hprogram, -⟩ := SyntaxTree.parse_eq_ok_iff.1 hparse
  have hsource : ∀ c ∈ before.toList ++ (list.toList ++ after.toList), isSourceCharacter c := by
    obtain ⟨lexemes, hlex, -⟩ := Program.exists_lex_of_parse hprogram
    have hall := (exists_lexFrom_eq_ok_iff 1).1 ⟨lexemes, hlex⟩
    simpa using hall
  obtain ⟨front, back, items, hitems, hwhole, hreplaced⟩ := exists_spells_around hlist hsource
  obtain ⟨new, hnew, hdepth, hspells⟩ := n.exists_sexpr_spelled
  have hsingle : ((Value.ofSExpr (.list items)).reduce settings.nestingLimit).outcome = .ok n := by
    obtain ⟨single, hparsed, rfl⟩ := evaluate_eq_ok_iff.1 hpart
    have hspelled : Token.Spells (SExpr.tokensOfAll [.list items]) list.toList := by
      simpa using hitems
    rw [← String.ofList_toList (s := list)] at hparsed
    obtain rfl := Program.eq_of_spells hspelled hparsed
    exact Value.ofOutcome_eq_number_iff.1 hnumber
  have houtput : part.output = n.text := by
    rw [Evaluation.output, hnumber, Value.render]
  have hsourceText : before ++ list ++ after =
      String.ofList (before.toList ++ (list.toList ++ after.toList)) := by
    rw [← String.toList_inj]
    simp
  have hreplacedText : before ++ " " ++ part.output ++ " " ++ after =
      String.ofList (before.toList ++ ' ' :: (n.text.toList ++ ' ' :: after.toList)) := by
    rw [houtput, ← String.toList_inj]
    simp
  rw [hsourceText] at hprogram
  obtain ⟨program', hprogram', hrelated⟩ :=
    Program.exists_parse_replaced (by omega) hwhole (hreplaced hspells) hprogram
  have hsame := Value.outcome_reduceProgram_eq_of_replaced hnew hsingle hrelated
    (Program.depths_le_of_parse hprogram)
  rw [← hsourceText] at hprogram
  rw [← hreplacedText] at hprogram'
  refine ⟨_, _, _, SyntaxTree.parse_eq_ok_iff.2 ⟨program', hprogram', rfl⟩,
    evaluate_eq_ok_iff.2 ⟨program, hprogram, rfl⟩,
    evaluate_eq_ok_iff.2 ⟨program', hprogram', rfl⟩, ?_, ?_⟩
  · rw [hsame]
  · rw [Evaluation.output, Evaluation.output, hsame]

theorem evaluate_replace_by_answer_in_sum :
    let settings : Settings := ⟨3, false⟩
    let part : Evaluation := ⟨.number (-7), none⟩
    IsSingleList "(- 3 10)".toList ∧
      (∃ tree, SyntaxTree.parse 3 ("(- 1(+ 2" ++ "(- 3 10)" ++ "5)4)") = .ok tree) ∧
      evaluate settings "(- 3 10)" = .ok part ∧ part.output = "-7" ∧
      ∃ whole replaced, evaluate settings ("(- 1(+ 2" ++ "(- 3 10)" ++ "5)4)") = .ok whole ∧
        evaluate settings ("(- 1(+ 2" ++ " " ++ part.output ++ " " ++ "5)4)") = .ok replaced ∧
        whole.value = .number (-3) ∧ replaced.value = .number (-3) := by
  intro settings part
  let difference : SExpr :=
    .list [.atom (.operator .sub), .atom (.numeral "3"), .atom (.numeral "10")]
  let program : Program := [.list [.atom (.operator .sub), .atom (.numeral "1"),
    .list [.atom (.operator .add), .atom (.numeral "2"), difference, .atom (.numeral "5")],
    .atom (.numeral "4")]]
  have hlist : IsSingleList "(- 3 10)".toList :=
    ⟨"- 3 10".toList, 0, by decide, by decide⟩
  have hparsePart : Program.parse 3 "(- 3 10)" = .ok [difference] := by cbv
  have hpart : evaluate settings "(- 3 10)" = .ok part :=
    evaluate_eq_ok_iff.2 ⟨[difference], hparsePart, by rfl⟩
  have hparse : Program.parse 3 ("(- 1(+ 2" ++ "(- 3 10)" ++ "5)4)") = .ok program := by cbv
  have htree := SyntaxTree.parse_eq_ok_iff.2 ⟨program, hparse, rfl⟩
  obtain ⟨-, whole, replaced, -, hwhole, hreplaced, hsame, -⟩ :=
    evaluate_replace_by_answer settings hlist htree hpart rfl
  have hanswer : evaluate settings ("(- 1(+ 2" ++ "(- 3 10)" ++ "5)4)") =
      .ok ⟨.number (-3), none⟩ := evaluate_eq_ok_iff.2 ⟨program, hparse, by rfl⟩
  have hwholeValue : whole.value = .number (-3) := by
    cases hwhole.symm.trans hanswer
    rfl
  exact ⟨hlist, ⟨_, htree⟩, hpart, by decide, whole, replaced, hwhole, hreplaced, hwholeValue,
    hsame.trans hwholeValue⟩

end PrefixCalc
