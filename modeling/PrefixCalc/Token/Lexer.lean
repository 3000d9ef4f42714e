/-
# Reading tokens

The lexer goes through a source text once, skips blanks, and at every other
character takes the longest token that starts there. A minus sign directly before
a digit is therefore the sign of a numeral, and elsewhere an operator.

`munch?_chars` says that a token and what follows it are exactly the text it was
taken from, and `munch?_isSpelled` that a token is well spelled; no character is
lost or read twice.
-/

import PrefixCalc.SyntaxError
import PrefixCalc.Token.Basic

namespace PrefixCalc

namespace Token

/-- Whether a numeral starts at `c`, which is followed by `rest`. -/
def startsNumeral (c : Char) (rest : List Char) : Bool :=
  c.isDigit || (c = '-' && rest.head?.any Char.isDigit)

/-- The longest token that starts at `c`, and what is left of `rest` after it. -/
def munch? (c : Char) (rest : List Char) : Option (Token × List Char) :=
  if c = '(' then some (.leftParen, rest)
  else if c = ')' then some (.rightParen, rest)
  else if startsNumeral c rest then
    some (.atom (.numeral (String.ofList (c :: rest.takeWhile Char.isDigit))),
      rest.dropWhile Char.isDigit)
  else if isWordStart c then
    some (.atom (.word (String.ofList (c :: rest.takeWhile isWordPart))),
      rest.dropWhile isWordPart)
  else (Operator.ofGlyph? c).map fun op => (.atom (.operator op), rest)

/-- A token followed by what is left is the text that the token was taken from. -/
theorem munch?_chars {c : Char} {rest after : List Char} {token : Token}
    (h : munch? c rest = some (token, after)) : token.chars ++ after = c :: rest := by
  unfold munch? at h
  split at h
  · cases h; simp_all
  split at h
  · cases h; simp_all
  split at h
  · cases h; simp [chars, text, Atom.text, List.takeWhile_append_dropWhile]
  split at h
  · cases h; simp [chars, text, Atom.text, List.takeWhile_append_dropWhile]
  · obtain ⟨op, hop, heq⟩ := Option.map_eq_some_iff.1 h
    cases heq
    rw [Operator.ofGlyph?_eq_some_iff] at hop
    simp [chars, text, Atom.text, Operator.symbol, hop]

theorem isNumeral_of_startsNumeral {c : Char} {rest : List Char} (h : startsNumeral c rest) :
    isNumeral (c :: rest.takeWhile Char.isDigit) := by
  have hall : (rest.takeWhile Char.isDigit).all Char.isDigit := by simp
  unfold isNumeral
  split
  · next digits heq =>
    cases heq
    rw [startsNumeral] at h
    cases rest with
    | nil => exact absurd h (by decide)
    | cons d more =>
      have hd : d.isDigit := by simpa using h
      simp_all
  · next heq =>
    have hc : c.isDigit := by
      rw [startsNumeral] at h
      by_cases hminus : c = '-'
      · subst hminus
        exact absurd rfl (heq _)
      · simpa [hminus] using h
    simp_all

/-- The longest token that starts somewhere is well spelled. -/
theorem munch?_isSpelled {c : Char} {rest after : List Char} {token : Token}
    (h : munch? c rest = some (token, after)) : token.isSpelled := by
  unfold munch? at h
  split at h
  · cases h; rfl
  split at h
  · cases h; rfl
  split at h
  · next hnumeral =>
    cases h
    simpa [isSpelled, Atom.isSpelled] using isNumeral_of_startsNumeral hnumeral
  split at h
  · next hword =>
    cases h
    simp [isSpelled, Atom.isSpelled, isWord, hword]
  · obtain ⟨op, _, heq⟩ := Option.map_eq_some_iff.1 h
    cases heq
    rfl

/-- What is left after a token is no longer than what was there before. -/
theorem munch?_length_le {c : Char} {rest after : List Char} {token : Token}
    (h : munch? c rest = some (token, after)) : after.length ≤ rest.length := by
  unfold munch? at h
  split at h
  · cases h; exact Nat.le_refl _
  split at h
  · cases h; exact Nat.le_refl _
  split at h
  · cases h; exact (List.dropWhile_sublist _).length_le
  split at h
  · cases h; exact (List.dropWhile_sublist _).length_le
  · obtain ⟨op, _, heq⟩ := Option.map_eq_some_iff.1 h
    cases heq; exact Nat.le_refl _

end Token

namespace Lexeme

/-- The tokens of a text whose first character stands at `column`. -/
def lexFrom (column : Nat) : List Char → Except SyntaxError (List Lexeme)
  | [] => .ok []
  | c :: rest =>
    if isBlank c then lexFrom (column + 1) rest
    else
      match _h : Token.munch? c rest with
      | none => .error ⟨.unexpectedCharacter c, column⟩
      | some (token, after) => do
        let lexemes ← lexFrom (column + token.chars.length) after
        return ⟨token, column⟩ :: lexemes
termination_by source => source.length
decreasing_by
  · simp
  · have := Token.munch?_length_le _h
    simp only [List.length_cons]
    omega

/-- The tokens of a source text, each with its column. -/
def lex (source : String) : Except SyntaxError (List Lexeme) := lexFrom 1 source.toList

end Lexeme

/-- The column just past the end of a source text. -/
def endColumn (source : String) : Nat := source.length + 1

end PrefixCalc
