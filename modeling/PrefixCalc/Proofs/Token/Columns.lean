/-
# Tilings by columns

`Tiles` puts a tiling together from its parts, one token after the other. Here a tiling is
described from the outside: each token stands at its column and could not be longer, none
overlaps another, and the characters that belong to none are blanks. These are statements on
single tokens and single characters, and nothing in them says how to find the tokens.

They still leave no choice. `isTiling_iff_tiles` says that both descriptions are of the same
tilings, by an induction on the tokens: for a tiling of either kind, the first token follows
a run of blanks, and a tiling of the text behind it follows the token. Since the lexer finds
the tiling wherever there is one, it finds the only one.
-/

import PrefixCalc.Proofs.Token.Tiling

namespace PrefixCalc

namespace Lexeme

/-- The column just behind a token. -/
def columnBehind (lexeme : Lexeme) : Nat := lexeme.column + lexeme.token.chars.length

/-- Whether the character at a column belongs to a token. -/
def Covers (lexeme : Lexeme) (column : Nat) : Prop :=
  lexeme.column ≤ column ∧ column < lexeme.columnBehind

/-- Whether a text, whose first character stands at a column, spells a token at the column
that the token claims, and does not go on with it. -/
def StandsIn (start : Nat) (text : List Char) (lexeme : Lexeme) : Prop :=
  ∃ before after, text = before ++ (lexeme.token.chars ++ after) ∧
    lexeme.column = start + before.length ∧
    ∀ next ∈ after.head?, lexeme.token.isExtendedBy next = false

/-- Tokens, each with its column, cover a text whose first character stands at a column. -/
structure IsTiling (start : Nat) (lexemes : List Lexeme) (text : List Char) : Prop where
  /-- The text of each token has the form of its class. -/
  spelled : ∀ lexeme ∈ lexemes, lexeme.token.isSpelled
  /-- Each token stands where it claims, and could not be longer. -/
  stands : ∀ lexeme ∈ lexemes, lexeme.StandsIn start text
  /-- Each token ends before those behind it start; since no token is empty, the columns
  increase strictly. -/
  disjoint : lexemes.Pairwise fun earlier later => earlier.columnBehind ≤ later.column
  /-- Characters that belong to no token are blanks. -/
  blank : ∀ index c, text[index]? = some c →
    (∀ lexeme ∈ lexemes, ¬ lexeme.Covers (start + index)) → isBlank c

variable {start : Nat} {lexeme : Lexeme} {lexemes : List Lexeme} {text : List Char}

/-! ## Parts of a text -/

theorem StandsIn.append_left {front : List Char}
    (h : lexeme.StandsIn (start + front.length) text) : lexeme.StandsIn start (front ++ text) := by
  obtain ⟨before, after, rfl, hcolumn, hafter⟩ := h
  refine ⟨front ++ before, after, (List.append_assoc ..).symm, ?_, hafter⟩
  rw [hcolumn, List.length_append, Nat.add_assoc]

/-- A token that starts in the second part of a text stands in that part. -/
theorem StandsIn.of_append {front : List Char} (h : lexeme.StandsIn start (front ++ text))
    (hcolumn : start + front.length ≤ lexeme.column) :
    lexeme.StandsIn (start + front.length) text := by
  obtain ⟨before, after, htext, hbefore, hafter⟩ := h
  have hfront : front <+: before := by
    apply List.prefix_of_prefix_length_le (List.prefix_append front text)
    · rw [htext]
      exact List.prefix_append before _
    · omega
  obtain ⟨between, rfl⟩ := hfront
  rw [List.append_assoc] at htext
  refine ⟨between, after, List.append_cancel_left htext, ?_, hafter⟩
  rw [hbefore, List.length_append, Nat.add_assoc]

theorem StandsIn.le_column (h : lexeme.StandsIn start text) : start ≤ lexeme.column := by
  obtain ⟨before, _, -, hcolumn, -⟩ := h
  rw [hcolumn]
  exact Nat.le_add_right start before.length

/-! ## The first token -/

theorem isTiling_nil_iff : IsTiling start [] text ↔ ∀ c ∈ text, isBlank c := by
  refine ⟨fun h c hc => ?_, fun h => ?_⟩
  · obtain ⟨index, hindex⟩ := List.mem_iff_getElem?.1 hc
    exact h.blank index c hindex (List.forall_mem_nil _)
  · exact ⟨List.forall_mem_nil _, List.forall_mem_nil _, .nil,
      fun index c hindex _ => h c (List.mem_of_getElem? hindex)⟩

/-- Behind the first token of a tiling there is a tiling again, by the tokens that are
left. -/
theorem IsTiling.tail {front : List Char} (h : IsTiling start (lexeme :: lexemes) (front ++ text))
    (hfront : lexeme.columnBehind = start + front.length) :
    IsTiling lexeme.columnBehind lexemes text := by
  obtain ⟨hbehind, hdisjoint⟩ := List.pairwise_cons.1 h.disjoint
  refine ⟨fun later hlater => ?_, fun later hlater => ?_, hdisjoint, fun index c hindex hc => ?_⟩
  · exact h.spelled later (List.mem_cons_of_mem _ hlater)
  · have hcolumn := hbehind later hlater
    rw [hfront] at hcolumn ⊢
    exact (h.stands later (List.mem_cons_of_mem _ hlater)).of_append hcolumn
  · apply h.blank (front.length + index) c
    · rw [List.getElem?_append_right (Nat.le_add_right _ _), Nat.add_sub_cancel_left, hindex]
    · rw [← Nat.add_assoc, ← hfront]
      refine List.forall_mem_cons.2 ⟨fun hcovers => ?_, hc⟩
      exact absurd hcovers.2 (Nat.not_lt.2 (Nat.le_add_right _ _))

/-- No token of a tiling starts before the first one, so that the text up to there is
blank. -/
theorem IsTiling.isBlank_of_mem {gap rest : List Char}
    (h : IsTiling start (lexeme :: lexemes) (gap ++ rest))
    (hgap : lexeme.column = start + gap.length) : ∀ c ∈ gap, isBlank c := by
  intro c hc
  obtain ⟨index, hindex⟩ := List.mem_iff_getElem?.1 hc
  obtain ⟨hlt, -⟩ := List.getElem?_eq_some_iff.1 hindex
  apply h.blank index c
  · rw [List.getElem?_append_left hlt, hindex]
  · have hbehind := (List.pairwise_cons.1 h.disjoint).1
    refine List.forall_mem_cons.2 ⟨fun hcovers => ?_, fun later hlater hcovers => ?_⟩
    · have := hcovers.1
      omega
    · have hlater := hbehind later hlater
      have := hcovers.1
      rw [columnBehind] at hlater
      omega

/-- A token behind blanks and in front of a tiling makes up a tiling with them. -/
theorem IsTiling.cons {gap rest : List Char} (hgap : ∀ c ∈ gap, isBlank c)
    (hcolumn : lexeme.column = start + gap.length) (hspelled : lexeme.token.isSpelled)
    (hrest : ∀ next ∈ rest.head?, lexeme.token.isExtendedBy next = false)
    (h : IsTiling lexeme.columnBehind lexemes rest) :
    IsTiling start (lexeme :: lexemes) (gap ++ (lexeme.token.chars ++ rest)) := by
  have hbehind : lexeme.columnBehind = start + (gap ++ lexeme.token.chars).length := by
    rw [columnBehind, hcolumn, List.length_append, Nat.add_assoc]
  refine ⟨List.forall_mem_cons.2 ⟨hspelled, h.spelled⟩, List.forall_mem_cons.2 ⟨?_, ?_⟩,
    List.pairwise_cons.2 ⟨?_, h.disjoint⟩, ?_⟩
  · exact ⟨gap, rest, rfl, hcolumn, hrest⟩
  · intro later hlater
    have hstands := h.stands later hlater
    rw [hbehind] at hstands
    rw [← List.append_assoc]
    exact hstands.append_left
  · exact fun later hlater => (h.stands later hlater).le_column
  · -- A character is in the gap, in the token or behind the token.
    intro index c hindex hc
    obtain ⟨hfirst, hlater⟩ := List.forall_mem_cons.1 hc
    rw [← List.append_assoc] at hindex
    rcases Nat.lt_or_ge index (gap ++ lexeme.token.chars).length with hlt | hge
    · rw [List.getElem?_append_left hlt] at hindex
      rcases Nat.lt_or_ge index gap.length with hltGap | hgeGap
      · rw [List.getElem?_append_left hltGap] at hindex
        exact hgap c (List.mem_of_getElem? hindex)
      · exact absurd ⟨by omega, by omega⟩ hfirst
    · rw [List.getElem?_append_right hge] at hindex
      apply h.blank _ c hindex
      intro later hmem
      rw [hbehind, Nat.add_assoc, Nat.add_sub_cancel' hge]
      exact hlater later hmem

/-- Both descriptions of a tiling agree. -/
theorem isTiling_iff_tiles : IsTiling start lexemes text ↔ Tiles start lexemes text := by
  induction lexemes generalizing start text with
  | nil => rw [isTiling_nil_iff, tiles_nil_iff]
  | cons lexeme lexemes ih =>
      rw [tiles_cons_iff]
      refine ⟨fun h => ?_, fun h => ?_⟩
      · obtain ⟨gap, rest, rfl, hcolumn, hrest⟩ := h.stands lexeme List.mem_cons_self
        refine ⟨gap, rest, rfl, h.isBlank_of_mem hcolumn, hcolumn,
          h.spelled lexeme List.mem_cons_self, hrest, ih.1 ?_⟩
        rw [← List.append_assoc] at h
        apply h.tail
        rw [columnBehind, hcolumn, List.length_append, Nat.add_assoc]
      · obtain ⟨gap, rest, rfl, hgap, hcolumn, hspelled, hrest, htiles⟩ := h
        exact .cons hgap hcolumn hspelled hrest (ih.2 htiles)

/-- No other token that stands where a token of a tiling does is longer. -/
theorem IsTiling.length_chars_le (h : IsTiling 1 lexemes text) (hmem : lexeme ∈ lexemes)
    {other : Token} (hother : other.isSpelled)
    (hplace : other.chars <+: text.drop (lexeme.column - 1)) :
    other.chars.length ≤ lexeme.token.chars.length := by
  obtain ⟨before, after, rfl, hcolumn, hafter⟩ := h.stands lexeme hmem
  rw [hcolumn, Nat.add_sub_cancel_left, List.drop_left] at hplace
  exact Token.length_chars_le_of_prefix (h.spelled lexeme hmem) hother hafter hplace

/-- Lexing succeeds with certain tokens exactly if they tile the text: each is well spelled,
stands at its column and could not go on, they are disjoint and in the order of the text, and
the characters outside of them are blanks. A text therefore has one such list at most. Each
token in it is the longest that stands at its column, and the column after the last
character is the number of characters and one. -/
theorem lex_eq_ok_iff_isTiling (source : String) (lexemes : List Lexeme) :
    (lex source = .ok lexemes ↔ IsTiling 1 lexemes source.toList) ∧
    endColumn source = source.toList.length + 1 ∧
    (lex source = .ok lexemes → ∀ lexeme ∈ lexemes, ∀ other : Token, other.isSpelled →
      other.chars <+: source.toList.drop (lexeme.column - 1) →
      other.chars.length ≤ lexeme.token.chars.length) := by
  have htiling : lex source = .ok lexemes ↔ IsTiling 1 lexemes source.toList := by
    rw [lex, lexFrom_eq_ok_iff_tiles, isTiling_iff_tiles]
  refine ⟨htiling, ?_, fun h lexeme hmem other hother hplace => ?_⟩
  · rw [endColumn, String.length_toList]
  · exact (htiling.1 h).length_chars_le hmem hother hplace

end Lexeme

end PrefixCalc
