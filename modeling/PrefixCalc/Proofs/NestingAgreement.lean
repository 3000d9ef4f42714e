/-
# One nesting limit for text and value

The reader counts open parentheses and an evaluator counts nesting levels, each with
a limit of its own. The two counts agree: the depth of a program's value is that of
its parentheses, with one more level for the root, which evaluation does not count.

Hence what was accepted is never cut off afterwards, and a program that comes to a
number is accepted with exactly those limits with which its value still comes to a
number. Where one count refuses, so does the other, each with its own words.
-/

import Mathlib
import PrefixCalc.Proofs.Value.Denotation
import PrefixCalc.Proofs.Value.NestingLimit
import PrefixCalc.Proofs.Value.OfProgram

namespace PrefixCalc

/-- A tree that was parsed is that of a program whose value nests as the text does. -/
theorem SyntaxTree.exists_program_of_parse {limit : Nat} {source : String} {tree : SyntaxTree}
    (h : SyntaxTree.parse limit source = .ok tree) :
    ∃ program, Program.parse limit source = .ok program ∧ tree = ofProgram program ∧
      Value.ofTree tree = .expression (program.map Value.ofSExpr) ∧
      (Value.ofTree tree).depth = 1 + SExpr.depths program := by
  rw [SyntaxTree.parse] at h
  cases hprogram : Program.parse limit source with
  | error error =>
      rw [hprogram] at h
      cases h
  | ok program =>
      rw [hprogram] at h
      cases h
      have hvalue := Value.ofTree_ofProgram (Program.isSpelled_of_parse hprogram)
      refine ⟨program, rfl, rfl, hvalue, ?_⟩
      have hdepth := Value.depth_ofSExpr (.list program)
      rwa [Value.ofSExpr_list, SExpr.depth_list, ← hvalue] at hdepth

/-- The nesting of the value alone decides which other limits admit a text. -/
theorem SyntaxTree.parse_eq_of_parse {limit : Nat} {source : String} {tree : SyntaxTree}
    (h : SyntaxTree.parse limit source = .ok tree) (other : Nat) :
    ∃ column, SyntaxTree.parse other source =
      if (Value.ofTree tree).depth ≤ other + 1 then .ok tree
      else .error ⟨.nestedTooDeeply other, column⟩ := by
  obtain ⟨program, hprogram, rfl, -, hdepth⟩ := exists_program_of_parse h
  obtain ⟨column, hother⟩ := Program.parse_eq_of_parse hprogram other
  refine ⟨column, ?_⟩
  rw [parse, hother, hdepth]
  by_cases hroom : SExpr.depths program ≤ other
  · rw [if_pos hroom, if_pos (by omega)]
    rfl
  · rw [if_neg hroom, if_neg (by omega)]
    rfl

theorem SyntaxTree.depth_le_of_parse {limit : Nat} {source : String} {tree : SyntaxTree}
    (h : SyntaxTree.parse limit source = .ok tree) : (Value.ofTree tree).depth ≤ limit + 1 := by
  obtain ⟨program, hprogram, -, -, hdepth⟩ := exists_program_of_parse h
  have := Program.depths_le_of_parse hprogram
  omega

/-- A program that comes to a number with some limit is cut off by every limit that
its nesting is not within. -/
theorem Value.outcome_reduceProgram_of_lt_depth {limit other : Nat} {root : Value} {n : Number}
    (h : (root.reduceProgram limit).outcome = .ok n) (hdepth : other + 1 < root.depth) :
    (root.reduceProgram other).outcome = .error (Cause.tooDeep other).failure := by
  have hlimit := depth_le_of_outcome_reduceProgram_eq_ok h
  have hle : other ≤ limit := by omega
  rcases reduceProgram_cutOff root hle with hsame | ⟨houtcome, -⟩
  · rw [← hsame] at h
    have := depth_le_of_outcome_reduceProgram_eq_ok h
    omega
  · exact houtcome

/-- The limits of reading and of evaluation agree. An accepted program is evaluated as
with any higher limit. If it comes to a number, then every other limit either admits
both its text and its value, or refuses both. -/
theorem Evaluator.evalProgram_agrees_with_parse {limit : Nat} {source : String}
    {tree : SyntaxTree} (hparse : SyntaxTree.parse limit source = .ok tree) :
    (∀ larger, limit ≤ larger →
      ((Evaluator.mk limit 0).evalProgram (.ofTree tree)).1 =
        ((Evaluator.mk larger 0).evalProgram (.ofTree tree)).1 ∧
      ((Evaluator.mk limit 0).evalProgram (.ofTree tree)).2.visited =
        ((Evaluator.mk larger 0).evalProgram (.ofTree tree)).2.visited) ∧
    ∀ n, ((Evaluator.mk limit 0).evalProgram (.ofTree tree)).1 = .number n → ∀ other,
      ((∃ tree', SyntaxTree.parse other source = .ok tree') ↔
        ∃ m, ((Evaluator.mk other 0).evalProgram (.ofTree tree)).1 = .number m) ∧
      ((∀ tree', SyntaxTree.parse other source ≠ .ok tree') →
        (∃ column, SyntaxTree.parse other source = .error ⟨.nestedTooDeeply other, column⟩) ∧
        ((Evaluator.mk other 0).evalProgram (.ofTree tree)).1 = .failure
          ⟨.malformed, some ("maximum nesting depth of " ++ toString other ++ " exceeded")⟩) := by
  have hlimit := SyntaxTree.depth_le_of_parse hparse
  refine ⟨?_, ?_⟩
  · intro larger hlarger
    have hsame : (Value.ofTree tree).reduceProgram limit =
        (Value.ofTree tree).reduceProgram larger :=
      Value.reduceProgram_eq_of_depth_le _ hlimit (by omega)
    simp [hsame]
  · intro n hn other
    rw [evalProgram_fst, Value.ofOutcome_eq_number_iff] at hn
    obtain ⟨column, hother⟩ := SyntaxTree.parse_eq_of_parse hparse other
    by_cases hroom : (Value.ofTree tree).depth ≤ other + 1
    · -- Both limits admit the nesting, so nothing changes.
      rw [if_pos hroom] at hother
      have hsame : (Value.ofTree tree).reduceProgram other =
          (Value.ofTree tree).reduceProgram limit :=
        Value.reduceProgram_eq_of_depth_le _ hroom hlimit
      have hnumber : ((Evaluator.mk other 0).evalProgram (.ofTree tree)).1 = .number n := by
        rw [evalProgram_fst, Value.ofOutcome_eq_number_iff, hsame, hn]
      exact ⟨⟨fun _ => ⟨n, hnumber⟩, fun _ => ⟨tree, hother⟩⟩,
        fun hrefused => absurd hother (hrefused tree)⟩
    · rw [if_neg hroom] at hother
      have hcut : ((Evaluator.mk other 0).evalProgram (.ofTree tree)).1 = .failure
          ⟨.malformed, some ("maximum nesting depth of " ++ toString other ++ " exceeded")⟩ := by
        rw [evalProgram_fst, Value.ofOutcome_eq_failure_iff]
        exact Value.outcome_reduceProgram_of_lt_depth hn (Nat.not_le.1 hroom)
      refine ⟨⟨fun haccepted => ?_, fun hnumber => ?_⟩, fun _ => ⟨⟨column, hother⟩, hcut⟩⟩
      · obtain ⟨tree', htree'⟩ := haccepted
        rw [hother] at htree'
        cases htree'
      · obtain ⟨m, hm⟩ := hnumber
        rw [hcut] at hm
        cases hm

theorem Evaluator.evalProgram_agrees_with_parse_of_bare_sum :
    let tree := SyntaxTree.ofProgram [.atom (.operator .add), .atom (.numeral "1"),
      .list [.atom (.operator .mul), .atom (.numeral "2"), .atom (.numeral "3")]]
    SyntaxTree.parse 1 "+ 1 (* 2 3)" = .ok tree ∧
      ((Evaluator.mk 1 0).evalProgram (.ofTree tree)).1 = .number 7 ∧
      ((Evaluator.mk 9 0).evalProgram (.ofTree tree)).1 = .number 7 ∧
      (∃ column, SyntaxTree.parse 0 "+ 1 (* 2 3)" = .error ⟨.nestedTooDeeply 0, column⟩) ∧
      ((Evaluator.mk 0 0).evalProgram (.ofTree tree)).1 =
        .failure ⟨.malformed, some "maximum nesting depth of 0 exceeded"⟩ := by
  intro tree
  have hparse : SyntaxTree.parse 1 "+ 1 (* 2 3)" = .ok tree := by cbv
  have hnumber : ((Evaluator.mk 1 0).evalProgram (.ofTree tree)).1 = .number 7 := by rfl
  have hrefused : ∀ tree', SyntaxTree.parse 0 "+ 1 (* 2 3)" ≠ .ok tree' := by
    have herror : SyntaxTree.parse 0 "+ 1 (* 2 3)" = .error ⟨.nestedTooDeeply 0, 5⟩ := by cbv
    intro tree' h
    rw [herror] at h
    cases h
  obtain ⟨hlarger, hother⟩ := evalProgram_agrees_with_parse hparse
  obtain ⟨hcolumn, hcut⟩ := (hother 7 hnumber 0).2 hrefused
  refine ⟨hparse, hnumber, ?_, hcolumn, hcut⟩
  rw [← (hlarger 9 (by decide)).1]
  exact hnumber

end PrefixCalc
