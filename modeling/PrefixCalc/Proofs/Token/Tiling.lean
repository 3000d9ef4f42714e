/-
# Tilings of a text by tokens

`Lexeme.Tiles` says what it means for tokens to cover a text: every character is
a blank or lies in exactly one token, the tokens stand in the order of the text and
at the columns they claim, and none of them could have been longer. It speaks of
spellings and of the next character only, not of how tokens are found.

The lexer succeeds exactly on the texts that can be tiled, and with the tiling
(`lexFrom_eq_ok_iff_tiles`). Reading and writing tokens can therefore be argued
about by putting tilings together.
-/

import PrefixCalc.Proofs.Token.Longest

namespace PrefixCalc

namespace Lexeme

/-- The tokens, each with its column, cover a text whose first character stands at a
column: between them are only blanks, and none of them could be longer. -/
inductive Tiles : Nat → List Lexeme → List Char → Prop
  | nil (column : Nat) : Tiles column [] []
  | blank {column : Nat} {c : Char} {lexemes : List Lexeme} {rest : List Char} :
      isBlank c → Tiles (column + 1) lexemes rest → Tiles column lexemes (c :: rest)
  | token {column : Nat} {token : Token} {lexemes : List Lexeme} {rest : List Char} :
      token.isSpelled → (∀ next ∈ rest.head?, token.isExtendedBy next = false) →
      Tiles (column + token.chars.length) lexemes rest →
      Tiles column (⟨token, column⟩ :: lexemes) (token.chars ++ rest)

theorem Tiles.blanks {column : Nat} {gap text : List Char} {lexemes : List Lexeme}
    (hgap : ∀ c ∈ gap, isBlank c) (h : Tiles (column + gap.length) lexemes text) :
    Tiles column lexemes (gap ++ text) := by
  induction gap generalizing column with
  | nil => exact h
  | cons c rest ih =>
      obtain ⟨hc, hrest⟩ := List.forall_mem_cons.1 hgap
      apply Tiles.blank hc
      apply ih hrest
      rwa [List.length_cons, Nat.add_comm rest.length, ← Nat.add_assoc] at h

/-- A text without tokens is blank. -/
theorem tiles_nil_iff {column : Nat} {text : List Char} :
    Tiles column [] text ↔ ∀ c ∈ text, isBlank c := by
  refine ⟨fun h => ?_, fun h => ?_⟩
  · generalize hlexemes : [] = lexemes at h
    induction h with
    | nil column => simp
    | blank hc _ ih => exact List.forall_mem_cons.2 ⟨hc, ih hlexemes⟩
    | token _ _ _ => cases hlexemes
  · rw [← List.append_nil text]
    exact .blanks h (.nil _)

/-- A tiling is blank up to the first token, and goes on behind it. -/
theorem tiles_cons_iff {column : Nat} {lexeme : Lexeme} {lexemes : List Lexeme}
    {text : List Char} :
    Tiles column (lexeme :: lexemes) text ↔
      ∃ gap rest, text = gap ++ (lexeme.token.chars ++ rest) ∧ (∀ c ∈ gap, isBlank c) ∧
        lexeme.column = column + gap.length ∧ lexeme.token.isSpelled ∧
        (∀ next ∈ rest.head?, lexeme.token.isExtendedBy next = false) ∧
        Tiles (lexeme.column + lexeme.token.chars.length) lexemes rest := by
  refine ⟨fun h => ?_, fun h => ?_⟩
  · generalize hall : lexeme :: lexemes = all at h
    induction h with
    | nil _ => cases hall
    | @blank column c _ _ hc _ ih =>
        obtain ⟨gap, rest, rfl, hgap, hcolumn, htoken⟩ := ih hall
        refine ⟨c :: gap, rest, rfl, List.forall_mem_cons.2 ⟨hc, hgap⟩, ?_, htoken⟩
        rw [hcolumn, List.length_cons]
        omega
    | @token column token _ rest hspelled hrest htiles _ =>
        cases hall
        exact ⟨[], rest, rfl, List.forall_mem_nil _, rfl, hspelled, hrest, htiles⟩
  · obtain ⟨gap, rest, rfl, hgap, hcolumn, hspelled, hrest, htiles⟩ := h
    apply Tiles.blanks hgap
    rw [← hcolumn]
    exact .token hspelled hrest htiles

theorem lexFrom_nil (column : Nat) : lexFrom column [] = .ok [] := by
  rw [lexFrom]

theorem lexFrom_blank {column : Nat} {c : Char} {rest : List Char} (h : isBlank c) :
    lexFrom column (c :: rest) = lexFrom (column + 1) rest := by
  rw [lexFrom, if_pos h]

theorem lexFrom_of_munch?_eq_some {column : Nat} {c : Char} {rest after : List Char}
    {token : Token} (hblank : isBlank c = false)
    (h : Token.munch? c rest = some (token, after)) :
    lexFrom column (c :: rest) =
      (lexFrom (column + token.chars.length) after).map (⟨token, column⟩ :: ·) := by
  rw [lexFrom, hblank, if_neg Bool.false_ne_true]
  split
  · next heq =>
      rw [h] at heq
      cases heq
  · next heq =>
      rw [h] at heq
      cases heq
      cases lexFrom (column + token.chars.length) after <;> rfl

/-- The lexer finds every tiling of a text. -/
theorem lexFrom_eq_ok_of_tiles {column : Nat} {lexemes : List Lexeme} {text : List Char}
    (h : Tiles column lexemes text) : lexFrom column text = .ok lexemes := by
  induction h with
  | nil column => exact lexFrom_nil column
  | blank hblank _ ih => rw [lexFrom_blank hblank, ih]
  | @token column token lexemes rest hspelled hrest _ ih =>
      obtain ⟨c, more, hchars, hblank⟩ := Token.exists_chars_eq_cons hspelled
      have hmunch : Token.munch? c (more ++ rest) = some (token, rest) := by
        apply Token.munch?_eq_some hspelled _ hrest
        rw [hchars, List.cons_append]
      rw [hchars, List.cons_append, lexFrom_of_munch?_eq_some hblank hmunch, ih]
      rfl

/-- What the lexer finds is a tiling. -/
theorem tiles_of_lexFrom_eq_ok {column : Nat} {lexemes : List Lexeme} {text : List Char}
    (h : lexFrom column text = .ok lexemes) : Tiles column lexemes text := by
  fun_induction lexFrom column text generalizing lexemes with
  | case1 column =>
      cases h
      exact .nil column
  | case2 column c rest hblank ih => exact .blank hblank (ih h)
  | case3 => cases h
  | case4 column c rest hblank token after hmunch ih =>
      obtain ⟨hspelled, hchars, hafter⟩ := Token.munch?_eq_some_iff.1 hmunch
      cases hrest : lexFrom (column + token.chars.length) after with
      | error e =>
          rw [hrest] at h
          cases h
      | ok more =>
          rw [hrest] at h
          cases h
          rw [← hchars]
          exact .token hspelled hafter (ih hrest)

/-- Lexing succeeds exactly on the texts that have a tiling, and with the tiling. -/
theorem lexFrom_eq_ok_iff_tiles {column : Nat} {lexemes : List Lexeme} {text : List Char} :
    lexFrom column text = .ok lexemes ↔ Tiles column lexemes text :=
  ⟨tiles_of_lexFrom_eq_ok, lexFrom_eq_ok_of_tiles⟩

/-- Every token of a tiling is well spelled. -/
theorem Tiles.isSpelled {column : Nat} {lexemes : List Lexeme} {text : List Char}
    (h : Tiles column lexemes text) : ∀ token ∈ lexemes.map Lexeme.token, token.isSpelled := by
  induction h with
  | nil column => simp
  | blank _ _ ih => exact ih
  | token hspelled _ _ ih => exact List.forall_mem_cons.2 ⟨hspelled, ih⟩

end Lexeme

end PrefixCalc
