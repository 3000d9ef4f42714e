/-
# Matching parentheses

Which parentheses belong together, and how deeply they nest, can be told by counting alone.
`Token.IsBalanced` says of some tokens that their parentheses match up, and `openCounts` lists
how many parentheses are open at the places of a text. Neither knows of lists.

The tokens of s-expressions match up, and the depth of an accepted program is the greatest count
in its text. The second statement is drawn from the diagnosis of a text: a limit is exceeded
exactly if some count is above it.
-/

import PrefixCalc.Proofs.Diagnosis
import PrefixCalc.Proofs.SExpr.Reading
import Mathlib.Order.Bounds.Defs

namespace PrefixCalc

namespace Token

/-- Whether the parentheses in some tokens match up. -/
structure IsBalanced (tokens : List Token) : Prop where
  /-- Up to no place are more parentheses closed than opened. -/
  closes : ∀ front, front <+: tokens → front.count .rightParen ≤ front.count .leftParen
  /-- In the end all are closed. -/
  closed : tokens.count .rightParen = tokens.count .leftParen

theorem isBalanced_nil : IsBalanced [] where
  closes front hfront := by
    rw [List.prefix_nil.1 hfront]
    exact Nat.le_refl _
  closed := rfl

theorem isBalanced_atom (a : Atom) : IsBalanced [.atom a] where
  closes front hfront := by
    rcases List.prefix_cons_iff.1 hfront with rfl | ⟨more, rfl, hmore⟩
    · exact Nat.le_refl _
    · rw [List.prefix_nil.1 hmore]
      simp
  closed := by simp

theorem IsBalanced.append {tokens tokens' : List Token} (h : IsBalanced tokens)
    (h' : IsBalanced tokens') : IsBalanced (tokens ++ tokens') where
  closes front hfront := by
    obtain ⟨back, hback⟩ := hfront
    rcases List.append_eq_append_iff.1 hback with ⟨rest, rfl, -⟩ | ⟨more, rfl, rfl⟩
    · exact h.closes front (List.prefix_append front rest)
    · have hmore := h'.closes more (List.prefix_append more back)
      rw [List.count_append, List.count_append, h.closed]
      exact Nat.add_le_add_left hmore _
  closed := by rw [List.count_append, List.count_append, h.closed, h'.closed]

theorem IsBalanced.enclosed {tokens : List Token} (h : IsBalanced tokens) :
    IsBalanced (.leftParen :: (tokens ++ [.rightParen])) where
  closes front hfront := by
    rcases List.prefix_cons_iff.1 hfront with rfl | ⟨more, rfl, hmore⟩
    · exact Nat.le_refl _
    · rcases List.prefix_concat_iff.1 hmore with rfl | hinside
      · simp [h.closed]
      · rw [List.count_cons_self, List.count_cons_of_ne (by decide)]
        exact Nat.le_succ_of_le (h.closes more hinside)
  closed := by simp [h.closed]

end Token

namespace SExpr

theorem isBalanced_tokensOfAll_of_forall {exprs : List SExpr}
    (h : ∀ expr ∈ exprs, Token.IsBalanced expr.tokens) : Token.IsBalanced (tokensOfAll exprs) := by
  induction exprs with
  | nil =>
      rw [tokensOfAll_nil]
      exact Token.isBalanced_nil
  | cons expr rest ih =>
      obtain ⟨hexpr, hrest⟩ := List.forall_mem_cons.1 h
      rw [tokensOfAll_cons]
      exact hexpr.append (ih hrest)

theorem isBalanced_tokens (expr : SExpr) : Token.IsBalanced expr.tokens := by
  induction expr with
  | atom a =>
      rw [tokens_atom]
      exact Token.isBalanced_atom a
  | list items ih =>
      rw [tokens_list]
      exact (isBalanced_tokensOfAll_of_forall ih).enclosed

/-- The parentheses of s-expressions match up. -/
theorem isBalanced_tokensOfAll (exprs : List SExpr) : Token.IsBalanced (tokensOfAll exprs) :=
  isBalanced_tokensOfAll_of_forall fun expr _ => expr.isBalanced_tokens

end SExpr

/-! ## Nesting in a text -/

/-- How many parentheses are open behind the front parts of a text. -/
def openCounts (text : List Char) : Set Nat :=
  {opened | ∃ front, front <+: text ∧ front.count '(' = front.count ')' + opened}

/-- Whether the count of open parentheses, with `opened` of them to begin with, stays in the
range from zero to a limit and ends at zero. -/
structure CountsWithin (limit opened : Nat) (text : List Char) : Prop where
  /-- At no place is the count below zero or above the limit. -/
  within : ∀ front, front <+: text → front.count ')' ≤ opened + front.count '(' ∧
    opened + front.count '(' ≤ limit + front.count ')'
  /-- In the end all are closed. -/
  closed : opened + text.count '(' = text.count ')'

variable {limit opened : Nat} {text : List Char}

theorem CountsWithin.opened_le (h : CountsWithin limit opened text) : opened ≤ limit :=
  (h.within [] List.nil_prefix).2

theorem countsWithin_nil_iff (h : opened ≤ limit) : CountsWithin limit opened [] ↔ opened = 0 := by
  refine ⟨fun hcounts => hcounts.closed, ?_⟩
  rintro rfl
  refine ⟨fun front hfront => ?_, rfl⟩
  rw [List.prefix_nil.1 hfront]
  exact ⟨Nat.le_refl _, Nat.zero_le _⟩

/-- The count moves on by one character. -/
theorem countsWithin_cons_iff {c : Char} {next : Nat} (h : opened ≤ limit)
    (hnext : next + [c].count ')' = opened + [c].count '(') :
    CountsWithin limit opened (c :: text) ↔ CountsWithin limit next text := by
  have hcount : ∀ p front, (c :: front).count p = [c].count p + front.count p := by
    intro p front
    rw [← List.count_append, List.singleton_append]
  refine ⟨fun hcounts => ⟨fun front hfront => ?_, ?_⟩, fun hcounts => ⟨fun front hfront => ?_, ?_⟩⟩
  · have hwithin := hcounts.within (c :: front) (List.cons_prefix_cons.2 ⟨rfl, hfront⟩)
    rw [hcount _ front, hcount _ front] at hwithin
    omega
  · have hclosed := hcounts.closed
    rw [hcount _ text, hcount _ text] at hclosed
    omega
  · rcases List.prefix_cons_iff.1 hfront with rfl | ⟨more, rfl, hmore⟩
    · exact ⟨Nat.zero_le _, h⟩
    · have hwithin := hcounts.within more hmore
      rw [hcount _ more, hcount _ more]
      omega
  · have hclosed := hcounts.closed
    rw [hcount _ text, hcount _ text]
    omega

/-- If more parentheses would be closed than are open, then the count leaves the range. -/
theorem not_countsWithin_zero_closing : ¬CountsWithin limit 0 (')' :: text) := by
  intro hcounts
  have hwithin := hcounts.within [')'] (List.cons_prefix_cons.2 ⟨rfl, List.nil_prefix⟩)
  exact absurd hwithin.1 (by decide)

/-- Counting parentheses objects to a text only where the count leaves the range from zero to
the limit, or if it does not end at zero. -/
theorem parenthesisError?_eq_none_iff {column : Nat} (h : opened ≤ limit) :
    parenthesisError? limit opened column text = none ↔ CountsWithin limit opened text := by
  induction text generalizing opened column with
  | nil =>
      rw [parenthesisError?, countsWithin_nil_iff h]
      by_cases hopened : 0 < opened
      · rw [if_pos hopened]
        exact iff_of_false (Option.some_ne_none _) (Nat.ne_of_gt hopened)
      · rw [if_neg hopened]
        exact iff_of_true rfl (Nat.eq_zero_of_not_pos hopened)
  | cons c rest ih =>
      rw [parenthesisError?]
      by_cases hopening : c = '('
      · subst hopening
        rw [if_pos rfl, countsWithin_cons_iff h rfl]
        by_cases hlimit : limit < opened + 1
        · rw [if_pos hlimit]
          exact iff_of_false (Option.some_ne_none _) fun hcounts =>
            Nat.not_le_of_lt hlimit hcounts.opened_le
        · rw [if_neg hlimit, ih (Nat.le_of_not_lt hlimit)]
      · rw [if_neg hopening]
        by_cases hclosing : c = ')'
        · subst hclosing
          rw [if_pos rfl]
          cases opened with
          | zero => exact iff_of_false (Option.some_ne_none _) not_countsWithin_zero_closing
          | succ opened =>
              rw [if_neg (by omega), Nat.add_sub_cancel, ih (Nat.le_of_succ_le h),
                countsWithin_cons_iff h rfl]
        · rw [if_neg hclosing, ih h]
          refine (countsWithin_cons_iff h ?_).symm
          rw [List.count_cons_of_ne hopening, List.count_cons_of_ne hclosing]
          rfl

namespace Program

variable {source : String} {program : Program}

/-- An accepted text is within another limit, by the count, exactly if its program is. -/
theorem parenthesisError?_eq_none_iff_depths_le (h : Program.parse limit source = .ok program)
    (other : Nat) :
    parenthesisError? other 0 1 source.toList = none ↔ SExpr.depths program ≤ other := by
  obtain ⟨lexemes, hlex, htokens⟩ := exists_lex_of_parse h
  obtain ⟨program', hread⟩ := exists_readOnto_eq (Lexeme.tiles_of_lexFrom_eq_ok hlex) [] []
  obtain ⟨column, hother⟩ := SExpr.read_eq htokens other (1 + source.toList.length)
  have hcount := hother.symm.trans (hread other)
  rw [List.length_nil] at hcount
  cases herror : parenthesisError? other 0 1 source.toList with
  | none =>
      rw [herror] at hcount
      by_cases hdepth : SExpr.depths program ≤ other
      · exact iff_of_true rfl hdepth
      · rw [if_neg hdepth] at hcount
        cases hcount
  | some error =>
      rw [herror] at hcount
      by_cases hdepth : SExpr.depths program ≤ other
      · rw [if_pos hdepth] at hcount
        cases hcount
      · exact iff_of_false (Option.some_ne_none _) hdepth

/-- The depth of a program is the greatest nesting of parentheses in its text. -/
theorem isGreatest_openCounts (h : Program.parse limit source = .ok program) :
    IsGreatest (openCounts source.toList) (SExpr.depths program) := by
  have hwithin := parenthesisError?_eq_none_iff_depths_le h
  have hcounts : CountsWithin (SExpr.depths program) 0 source.toList :=
    (parenthesisError?_eq_none_iff (Nat.zero_le _)).1 ((hwithin _).2 (Nat.le_refl _))
  refine ⟨?_, ?_⟩
  · -- If no count were the depth, then a limit below the depth would be enough.
    apply Classical.byContradiction
    intro hnot
    have hlt : ∀ front, front <+: source.toList →
        front.count '(' < front.count ')' + SExpr.depths program := by
      intro front hfront
      have hle := (hcounts.within front hfront).2
      have hne : front.count '(' ≠ front.count ')' + SExpr.depths program := fun heq =>
        hnot ⟨front, hfront, heq⟩
      omega
    have hpositive := hlt [] List.nil_prefix
    rw [List.count_nil, List.count_nil] at hpositive
    have hlower : parenthesisError? (SExpr.depths program - 1) 0 1 source.toList = none := by
      rw [parenthesisError?_eq_none_iff (Nat.zero_le _)]
      refine ⟨fun front hfront => ⟨(hcounts.within front hfront).1, ?_⟩, hcounts.closed⟩
      have := hlt front hfront
      omega
    have := (hwithin _).1 hlower
    omega
  · rintro opened ⟨front, hfront, hcount⟩
    have := (hcounts.within front hfront).2
    omega

end Program

end PrefixCalc
