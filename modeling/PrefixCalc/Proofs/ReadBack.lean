/-
# Reading back a displayed value

The display of a value is source text again, provided that the value contains no
failure and that each of its symbols could have been written in a source text. Read
as a program, such a display is the value itself, as the only item: nothing merges,
no number changes, and nothing is taken for punctuation.

The proof finds, for every such value, the s-expression that its display spells.
-/

import PrefixCalc.Proofs.Token.Spelling
import PrefixCalc.Proofs.Value.OfProgram
import PrefixCalc.Value.Printer

namespace PrefixCalc

/-- A number is displayed as a numeral. -/
theorem Number.isNumeral_digits (n : Number) : isNumeral n.digits := by
  have hdigits : ∀ c ∈ Nat.toDigits 10 n.toInt.natAbs, c.isDigit := fun c hc =>
    Nat.isDigit_of_mem_toDigits (by decide) (by decide) hc
  obtain ⟨c, rest, hcons⟩ : ∃ c rest, Nat.toDigits 10 n.toInt.natAbs = c :: rest :=
    List.exists_cons_of_ne_nil Nat.toDigits_ne_nil
  rw [hcons] at hdigits
  obtain ⟨hc, hrest⟩ := List.forall_mem_cons.1 hdigits
  rw [digits, hcons]
  by_cases hneg : n.toInt < 0
  · rw [if_pos hneg, List.singleton_append, isNumeral_cons_iff]
    exact ⟨List.all_eq_true.2 hdigits, .inr ⟨rfl, List.cons_ne_nil c rest⟩⟩
  · rw [if_neg hneg, List.nil_append, isNumeral_cons_iff]
    exact ⟨List.all_eq_true.2 hrest, .inl hc⟩

namespace Value

/-- The values whose display is source text: no failure occurs in them, and every
symbol is an operator or a word. -/
inductive Readable : Value → Prop
  | number (n : Number) : Readable (.number n)
  | symbol {name : String} :
      (∃ op : Operator, name = op.symbol) ∨ isWord name.toList → Readable (.symbol name)
  | expression {items : List Value} :
      (∀ item ∈ items, Readable item) → Readable (.expression items)

/-- If every item's display spells an s-expression of that value, the joined displays
spell a program of those values. -/
theorem exists_program_spelled {items : List Value}
    (h : ∀ item ∈ items, ∃ expr, ofSExpr expr = item ∧ Token.Spells expr.tokens item.chars) :
    ∃ program : Program, program.map ofSExpr = items ∧
      Token.Spells (SExpr.tokensOfAll program) ([' '].intercalate (items.map chars)) := by
  induction items with
  | nil => exact ⟨[], rfl, by simpa using Token.spells_nil⟩
  | cons item rest ih =>
      obtain ⟨hitem, hrest⟩ := List.forall_mem_cons.1 h
      obtain ⟨expr, hexpr, hspells⟩ := hitem
      obtain ⟨program, hprogram, hspellsRest⟩ := ih hrest
      refine ⟨expr :: program, by rw [List.map_cons, hexpr, hprogram], ?_⟩
      rw [SExpr.tokensOfAll_cons]
      cases rest with
      | nil =>
          obtain rfl : program = [] := List.map_eq_nil_iff.1 hprogram
          simpa [List.intercalate] using hspells
      | cons next more =>
          have hjoined : [' '].intercalate ((item :: next :: more).map chars) =
              item.chars ++ ' ' :: [' '].intercalate ((next :: more).map chars) := by
            simp [List.intercalate]
          rw [hjoined]
          exact hspells.append_space hspellsRest

/-- The display of a readable value spells an s-expression of that value. -/
theorem Readable.exists_sexpr_spelled {value : Value} (h : value.Readable) :
    ∃ expr, ofSExpr expr = value ∧ Token.Spells expr.tokens value.chars := by
  induction value with
  | number n =>
      refine ⟨.atom (.numeral n.text), ?_, ?_⟩
      · rw [ofSExpr, ofNumeral, Number.read?_text]
      · have hspelled : (Token.atom (.numeral n.text)).isSpelled := by
          simpa [Token.isSpelled, Atom.isSpelled, Number.text] using n.isNumeral_digits
        have hchars : (Token.atom (.numeral n.text)).chars = n.digits := by
          simp [Token.chars, Token.text, Atom.text, Number.text]
        rw [SExpr.tokens_atom, chars_number, ← hchars]
        exact Token.spells_singleton hspelled
  | symbol name =>
      cases h with
      | symbol hname =>
          rw [chars_symbol]
          rcases hname with ⟨op, rfl⟩ | hword
          · have hspelled : (Token.atom (.operator op)).isSpelled := rfl
            refine ⟨.atom (.operator op), by rw [ofSExpr], ?_⟩
            rw [SExpr.tokens_atom]
            exact Token.spells_singleton hspelled
          · have hspelled : (Token.atom (.word name)).isSpelled := hword
            refine ⟨.atom (.word name), by rw [ofSExpr], ?_⟩
            rw [SExpr.tokens_atom]
            exact Token.spells_singleton hspelled
  | failure f => cases h
  | expression items ih =>
      cases h with
      | expression hitems =>
          obtain ⟨program, hprogram, hspells⟩ :=
            exists_program_spelled fun item hitem => ih item hitem (hitems item hitem)
          refine ⟨.list program, by rw [ofSExpr_list, hprogram], ?_⟩
          rw [SExpr.tokens_list, chars_expression]
          apply Token.Spells.leftParen
          exact hspells.append (by simp) Token.spells_nil.rightParen

end Value

/-- The display of a readable value, read with any limit that its nesting is within,
is the program whose only item is that value. -/
theorem SyntaxTree.parse_display_of_readable {value : Value} (hreadable : value.Readable)
    {limit : Nat} (hdepth : value.depth ≤ limit) :
    ∃ tree, SyntaxTree.parse limit value.display = .ok tree ∧
      Value.ofTree tree = .expression [value] := by
  obtain ⟨expr, hexpr, hspells⟩ := hreadable.exists_sexpr_spelled
  obtain ⟨lexemes, htokens, htiles⟩ := hspells 1
  have hlex : Lexeme.lex value.display = .ok lexemes := by
    rw [Lexeme.lex, Value.display, String.toList_ofList]
    exact Lexeme.lexFrom_eq_ok_of_tiles htiles
  have hprogram : SExpr.tokensOfAll [expr] = expr.tokens := by simp
  rw [← hprogram] at htokens
  obtain ⟨column, hparse⟩ := Program.parse_eq_of_lex hlex htokens limit
  have hroom : SExpr.depths [expr] ≤ limit := by
    rw [SExpr.depths_cons, SExpr.depths_nil, ← Value.depth_ofSExpr, hexpr]
    omega
  refine ⟨ofProgram [expr], ?_, ?_⟩
  · rw [SyntaxTree.parse, hparse, if_pos hroom]
    rfl
  · rw [Value.ofTree_ofProgram (by rw [hprogram]; exact hspells.isSpelled), List.map_cons,
      List.map_nil, hexpr]

theorem SyntaxTree.parse_display_of_nested_difference :
    let value : Value := .expression [.symbol "-", .number Int64.minValue, .expression [],
      .expression [.expression [.symbol "foo_2"], .number 5]]
    value.Readable ∧ value.depth ≤ 3 ∧
      value.display = "(- -9223372036854775808 () ((foo_2) 5))" ∧
      ∃ tree, SyntaxTree.parse 3 value.display = .ok tree ∧
        Value.ofTree tree = .expression [value] := by
  intro value
  have hword : (Value.symbol "foo_2").Readable := .symbol (.inr (by decide))
  have hinner : (Value.expression [.expression [.symbol "foo_2"], .number 5]).Readable := by
    refine .expression (List.forall_mem_cons.2 ⟨?_, List.forall_mem_singleton.2 (.number 5)⟩)
    exact .expression (List.forall_mem_singleton.2 hword)
  have hreadable : value.Readable := by
    refine .expression (List.forall_mem_cons.2 ⟨.symbol (.inl ⟨.sub, by decide⟩), ?_⟩)
    refine List.forall_mem_cons.2 ⟨.number _, List.forall_mem_cons.2 ⟨?_, ?_⟩⟩
    · exact .expression (by simp)
    · exact List.forall_mem_singleton.2 hinner
  have hdepth : value.depth ≤ 3 := by decide
  exact ⟨hreadable, hdepth, by decide, parse_display_of_readable hreadable hdepth⟩

end PrefixCalc
