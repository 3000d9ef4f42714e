/-
# Ways to write tokens

`Token.Spells tokens text` says that a text, wherever it stands, is read as these
tokens. Spellings are put together from those of single tokens. The only care to be
taken is where two texts meet: the second has to start with a character that goes on
with no token, which a blank or a parenthesis does.
-/

import PrefixCalc.Proofs.Token.Tiling

namespace PrefixCalc

/-- Whether a text ends every token that stands directly before it. -/
def EndsToken (text : List Char) : Prop :=
  ∀ c ∈ text.head?, isBlank c ∨ c = '(' ∨ c = ')'

@[simp] theorem endsToken_cons_iff {c : Char} {text : List Char} :
    EndsToken (c :: text) ↔ isBlank c ∨ c = '(' ∨ c = ')' := by
  simp [EndsToken]

namespace Lexeme

/-- Two tilings are one, if no token reaches over the place where they meet. -/
theorem Tiles.append {column : Nat} {front back : List Lexeme} {text rest : List Char}
    (hfront : Tiles column front text) (hends : EndsToken rest)
    (hback : Tiles (column + text.length) back rest) :
    Tiles column (front ++ back) (text ++ rest) := by
  induction hfront with
  | nil column => exact hback
  | @blank column c lexemes more hblank _ ih =>
      apply Tiles.blank hblank
      apply ih
      rw [List.length_cons] at hback
      rwa [Nat.add_assoc, Nat.add_comm 1]
  | @token column token lexemes more hspelled hmore _ ih =>
      rw [List.cons_append, List.append_assoc]
      apply Tiles.token hspelled
      · cases more with
        | nil => exact fun next hnext => token.isExtendedBy_eq_false (hends next hnext)
        | cons c more => exact hmore
      · apply ih
        rw [List.length_append] at hback
        rwa [Nat.add_assoc]

end Lexeme

namespace Token

/-- A text is read as these tokens, wherever it stands. -/
def Spells (tokens : List Token) (text : List Char) : Prop :=
  ∀ column, ∃ lexemes, lexemes.map Lexeme.token = tokens ∧ Lexeme.Tiles column lexemes text

variable {tokens tokens' : List Token} {text text' : List Char}

theorem spells_nil : Spells [] [] :=
  fun column => ⟨[], rfl, .nil column⟩

theorem spells_singleton {token : Token} (h : token.isSpelled) : Spells [token] token.chars := by
  intro column
  have htiles : Lexeme.Tiles column [⟨token, column⟩] (token.chars ++ []) :=
    .token h (by simp) (.nil _)
  rw [List.append_nil] at htiles
  exact ⟨[⟨token, column⟩], rfl, htiles⟩

theorem Spells.blank {c : Char} (hc : isBlank c) (h : Spells tokens text) :
    Spells tokens (c :: text) := by
  intro column
  obtain ⟨lexemes, htokens, htiles⟩ := h (column + 1)
  exact ⟨lexemes, htokens, .blank hc htiles⟩

theorem Spells.blanks {gap : List Char} (hgap : ∀ c ∈ gap, isBlank c) (h : Spells tokens text) :
    Spells tokens (gap ++ text) := by
  intro column
  obtain ⟨lexemes, htokens, htiles⟩ := h (column + gap.length)
  exact ⟨lexemes, htokens, .blanks hgap htiles⟩

/-- Nothing goes on with a parenthesis, so that it needs no separator behind it. -/
theorem Spells.paren {paren : Token} (hparen : paren.isParen) (h : Spells tokens text) :
    Spells (paren :: tokens) (paren.chars ++ text) := by
  intro column
  obtain ⟨lexemes, htokens, htiles⟩ := h (column + paren.chars.length)
  refine ⟨⟨paren, column⟩ :: lexemes, by rw [List.map_cons, htokens], ?_⟩
  cases paren with
  | atom a => cases hparen
  | leftParen => exact .token rfl (fun _ _ => rfl) htiles
  | rightParen => exact .token rfl (fun _ _ => rfl) htiles

theorem Spells.leftParen (h : Spells tokens text) :
    Spells (.leftParen :: tokens) ('(' :: text) := by
  simpa using h.paren (show Token.leftParen.isParen from rfl)

theorem Spells.rightParen (h : Spells tokens text) :
    Spells (.rightParen :: tokens) (')' :: text) := by
  simpa using h.paren (show Token.rightParen.isParen from rfl)

theorem Spells.append (h : Spells tokens text) (hends : EndsToken text')
    (h' : Spells tokens' text') : Spells (tokens ++ tokens') (text ++ text') := by
  intro column
  obtain ⟨front, hfront, htiles⟩ := h column
  obtain ⟨back, hback, htiles'⟩ := h' (column + text.length)
  exact ⟨front ++ back, by rw [List.map_append, hfront, hback], htiles.append hends htiles'⟩

/-- Blanks keep any two texts apart. -/
theorem Spells.append_blanks {gap : List Char} (h : Spells tokens text) (hne : gap ≠ [])
    (hgap : ∀ c ∈ gap, isBlank c) (h' : Spells tokens' text') :
    Spells (tokens ++ tokens') (text ++ (gap ++ text')) := by
  obtain ⟨c, rest, rfl⟩ := List.exists_cons_of_ne_nil hne
  exact h.append (endsToken_cons_iff.2 (.inl (hgap c List.mem_cons_self))) (h'.blanks hgap)

theorem Spells.append_space (h : Spells tokens text) (h' : Spells tokens' text') :
    Spells (tokens ++ tokens') (text ++ ' ' :: text') :=
  h.append_blanks (List.cons_ne_nil ' ' []) (List.forall_mem_singleton.2 rfl) h'

/-- A text that is tiled at one column is so at every other, with the same tokens. -/
theorem spells_of_tiles {column : Nat} {lexemes : List Lexeme}
    (h : Lexeme.Tiles column lexemes text) : Spells (lexemes.map Lexeme.token) text := by
  induction h with
  | nil _ => exact spells_nil
  | blank hblank _ ih => exact ih.blank hblank
  | @token _ token lexemes rest hspelled hrest _ ih =>
      intro column
      obtain ⟨more, htokens, htiles⟩ := ih (column + token.chars.length)
      exact ⟨⟨token, column⟩ :: more, by rw [List.map_cons, List.map_cons, htokens],
        .token hspelled hrest htiles⟩

/-- What is spelled is well spelled. -/
theorem Spells.isSpelled (h : Spells tokens text) : ∀ token ∈ tokens, token.isSpelled := by
  obtain ⟨lexemes, rfl, htiles⟩ := h 1
  exact htiles.isSpelled

end Token

end PrefixCalc
