/-
# The longest token

Which token starts at a character is decided by that character and the ones behind
it. `munch?_eq_some_iff` says so without the lexer's case distinctions: the token
found is the one that is well spelled, stands there, and would not have gone on with
the next character. `munch?_eq_none_iff` says at which characters none starts.

Both rest on one fact about characters: those that atoms are made of are neither
blanks nor parentheses.
-/

import PrefixCalc.Token.Lexer

namespace PrefixCalc

/-! ## The characters of atoms -/

theorem isNumeral_cons_iff {c : Char} {rest : List Char} :
    isNumeral (c :: rest) ↔ rest.all Char.isDigit ∧ (c.isDigit ∨ c = '-' ∧ rest ≠ []) := by
  by_cases hminus : c = '-'
  · subst hminus
    have hdigit : '-'.isDigit = false := by decide
    simp [isNumeral, hdigit, and_comm]
  · have hdigits : isNumeral (c :: rest) =
        (!(c :: rest).isEmpty && (c :: rest).all Char.isDigit) := by
      unfold isNumeral
      split
      · next heq =>
          cases heq
          exact absurd rfl hminus
      · rfl
    simp [hdigits, hminus, and_comm]

/-- Every letter comes behind the digits. -/
theorem isDigit_eq_false_of_isAlpha {c : Char} (h : c.isAlpha) : c.isDigit = false := by
  have hletter : 'A'.toNat ≤ c.toNat := by
    rcases Bool.or_eq_true_iff.1 h with hupper | hlower
    · have hbounds : 'A'.val ≤ c.val ∧ c.val ≤ 'Z'.val := of_decide_eq_true hupper
      exact UInt32.le_iff_toNat_le.1 hbounds.1
    · have hbound : 'a'.val ≤ c.val := of_decide_eq_true (Bool.and_eq_true_iff.1 hlower).1
      exact Nat.le_trans (by decide) (UInt32.le_iff_toNat_le.1 hbound)
  cases hdigit : c.isDigit with
  | false => rfl
  | true =>
      have hbound : c.toNat ≤ '9'.toNat := (Char.isDigit_iff_toNat.1 hdigit).2
      exact absurd (Nat.le_trans hletter hbound) (by decide)

theorem isDigit_eq_false_of_isWordStart {c : Char} (h : isWordStart c) : c.isDigit = false := by
  rw [isWordStart, Bool.or_eq_true, decide_eq_true_eq] at h
  rcases h with halpha | rfl
  · exact isDigit_eq_false_of_isAlpha halpha
  · decide

/-- The characters that atoms are made of. -/
def isAtomPart (c : Char) : Bool := isWordPart c || (Operator.ofGlyph? c).isSome

theorem isWordPart_eq (c : Char) : isWordPart c = (isWordStart c || c.isDigit) := by
  rw [isWordPart, isWordStart, Char.isAlphanum, Bool.or_right_comm]

/-- Atoms contain neither blanks nor parentheses. -/
theorem not_isBlank_of_isAtomPart {c : Char} (h : isAtomPart c) :
    isBlank c = false ∧ c ≠ '(' ∧ c ≠ ')' := by
  refine ⟨?_, ?_, ?_⟩
  · cases hblank : isBlank c with
    | false => rfl
    | true =>
        simp only [isBlank, Bool.or_eq_true, decide_eq_true_eq] at hblank
        rcases hblank with (((rfl | rfl) | rfl) | rfl) | rfl <;> exact absurd h (by decide)
  · rintro rfl
    exact absurd h (by decide)
  · rintro rfl
    exact absurd h (by decide)

theorem isAtomPart_of_isDigit {c : Char} (h : c.isDigit) : isAtomPart c := by
  simp [isAtomPart, isWordPart_eq, h]

theorem isAtomPart_of_isWordStart {c : Char} (h : isWordStart c) : isAtomPart c := by
  simp [isAtomPart, isWordPart_eq, h]

/-- The text of a well-spelled atom consists of atom characters. -/
theorem isAtomPart_of_mem {a : Atom} (h : a.isSpelled) {c : Char} (hc : c ∈ a.text.toList) :
    isAtomPart c := by
  cases a with
  | operator op =>
      obtain rfl : c = op.glyph := by simpa [Atom.text, Operator.symbol] using hc
      simp [isAtomPart]
  | numeral text =>
      rw [Atom.text] at hc
      rw [Atom.isSpelled] at h
      cases hchars : text.toList with
      | nil => simp [hchars] at hc
      | cons first digits =>
          rw [hchars, isNumeral_cons_iff] at h
          rw [hchars, List.mem_cons] at hc
          obtain ⟨hdigits, hfirst⟩ := h
          rcases hc with rfl | hc
          · rcases hfirst with hdigit | ⟨rfl, -⟩
            · exact isAtomPart_of_isDigit hdigit
            · decide
          · exact isAtomPart_of_isDigit (List.all_eq_true.1 hdigits c hc)
  | word name =>
      rw [Atom.text] at hc
      rw [Atom.isSpelled] at h
      cases hchars : name.toList with
      | nil => simp [hchars] at hc
      | cons first parts =>
          rw [hchars] at h hc
          obtain ⟨hstart, hparts⟩ : isWordStart first ∧ parts.all isWordPart := by
            simpa [isWord] using h
          rcases List.mem_cons.1 hc with rfl | hc
          · exact isAtomPart_of_isWordStart hstart
          · simp [isAtomPart, List.all_eq_true.1 hparts c hc]

/-! ## Runs -/

private theorem takeWhile_eq_nil_of_head {α : Type} {p : α → Bool} {l : List α}
    (h : ∀ a ∈ l.head?, p a = false) : l.takeWhile p = [] ∧ l.dropWhile p = l := by
  cases l with
  | nil => simp
  | cons a rest => simp [h a (by simp)]

/-- A run of elements with a property ends where an element without it follows. -/
theorem span_append {α : Type} {p : α → Bool} {run rest : List α} (hrun : run.all p)
    (hrest : ∀ a ∈ rest.head?, p a = false) :
    (run ++ rest).takeWhile p = run ∧ (run ++ rest).dropWhile p = rest := by
  have hall : ∀ a ∈ run, p a = true := List.all_eq_true.1 hrun
  obtain ⟨htake, hdrop⟩ := takeWhile_eq_nil_of_head hrest
  rw [List.takeWhile_append_of_pos hall, List.dropWhile_append_of_pos hall, htake, hdrop]
  exact ⟨List.append_nil run, rfl⟩

namespace Token

theorem isAtomPart_of_startsNumeral {c : Char} {rest : List Char} (h : startsNumeral c rest) :
    isAtomPart c := by
  rw [startsNumeral, Bool.or_eq_true] at h
  rcases h with hdigit | hminus
  · exact isAtomPart_of_isDigit hdigit
  · rw [Bool.and_eq_true, decide_eq_true_eq] at hminus
    rw [hminus.1]
    decide

theorem not_startsNumeral_of_isWordStart {c : Char} (h : isWordStart c) (rest : List Char) :
    ¬ startsNumeral c rest := by
  have hminus : c ≠ '-' := by
    rintro rfl
    exact absurd h (by decide)
  simp [startsNumeral, isDigit_eq_false_of_isWordStart h, hminus]

/-! ## What goes on with a token -/

/-- Whether a character would have been part of the token that it directly
follows. -/
def isExtendedBy : Token → Char → Bool
  | .atom (.numeral _), c => c.isDigit
  | .atom (.operator op), c => op = .sub && c.isDigit
  | .atom (.word _), c => isWordPart c
  | .leftParen, _ => false
  | .rightParen, _ => false

theorem isAtomPart_of_isExtendedBy {token : Token} {c : Char} (h : token.isExtendedBy c) :
    isAtomPart c := by
  cases token with
  | leftParen => cases h
  | rightParen => cases h
  | atom a =>
      cases a with
      | numeral text => exact isAtomPart_of_isDigit h
      | operator op =>
          rw [isExtendedBy, Bool.and_eq_true] at h
          exact isAtomPart_of_isDigit h.2
      | word name =>
          rw [isExtendedBy] at h
          rw [isAtomPart, h, Bool.true_or]

/-- A blank or a parenthesis ends every token. -/
theorem isExtendedBy_eq_false (token : Token) {c : Char}
    (h : isBlank c ∨ c = '(' ∨ c = ')') : token.isExtendedBy c = false := by
  cases hextended : token.isExtendedBy c with
  | false => rfl
  | true =>
      have hpart := not_isBlank_of_isAtomPart (isAtomPart_of_isExtendedBy hextended)
      simp_all

private theorem head_dropWhile {p : Char → Bool} (cs : List Char) :
    ∀ c ∈ (cs.dropWhile p).head?, p c = false := by
  intro c hc
  have := List.head?_dropWhile_not p cs
  rw [hc] at this
  simpa using this

/-! ## The longest token -/

/-- The longest token is not followed by a character that would go on with it. -/
theorem munch?_not_isExtendedBy {c : Char} {rest after : List Char} {token : Token}
    (h : munch? c rest = some (token, after)) :
    ∀ next ∈ after.head?, token.isExtendedBy next = false := by
  unfold munch? at h
  split at h
  · cases h; intro _ _; rfl
  split at h
  · cases h; intro _ _; rfl
  split at h
  · cases h; exact head_dropWhile rest
  split at h
  · cases h; exact head_dropWhile rest
  · next hnumeral _ =>
      obtain ⟨op, hop, heq⟩ := Option.map_eq_some_iff.1 h
      cases heq
      rw [Operator.ofGlyph?_eq_some_iff] at hop
      subst hop
      intro next hnext
      by_cases hsub : op = .sub
      · subst hsub
        cases hdigit : next.isDigit with
        | true =>
            rw [Option.mem_def] at hnext
            exact absurd (by simp [startsNumeral, hnext, hdigit, Operator.glyph]) hnumeral
        | false => simp [isExtendedBy, hdigit]
      · simp [isExtendedBy, hsub]

/-- A numeral is found where it stands, if no digit follows. -/
theorem munch?_numeral {c : Char} {digits after : List Char} (hnumeral : isNumeral (c :: digits))
    (hafter : ∀ next ∈ after.head?, next.isDigit = false) :
    munch? c (digits ++ after) = some (.atom (.numeral (String.ofList (c :: digits))), after) := by
  obtain ⟨hdigits, hfirst⟩ := isNumeral_cons_iff.1 hnumeral
  have hstarts : startsNumeral c (digits ++ after) := by
    rcases hfirst with hdigit | ⟨rfl, hne⟩
    · simp [startsNumeral, hdigit]
    · obtain ⟨d, more, rfl⟩ := List.exists_cons_of_ne_nil hne
      have hd : d.isDigit := List.all_eq_true.1 hdigits d (by simp)
      simp [startsNumeral, hd]
  have hparens := (not_isBlank_of_isAtomPart (isAtomPart_of_startsNumeral hstarts)).2
  obtain ⟨htake, hdrop⟩ := span_append hdigits hafter
  rw [munch?, if_neg hparens.1, if_neg hparens.2, if_pos hstarts, htake, hdrop]

/-- A word is found where it stands, if no word character follows. -/
theorem munch?_word {c : Char} {parts after : List Char} (hword : isWord (c :: parts))
    (hafter : ∀ next ∈ after.head?, isWordPart next = false) :
    munch? c (parts ++ after) = some (.atom (.word (String.ofList (c :: parts))), after) := by
  obtain ⟨hstart, hparts⟩ : isWordStart c ∧ parts.all isWordPart := by
    simpa [isWord] using hword
  have hparens := (not_isBlank_of_isAtomPart (isAtomPart_of_isWordStart hstart)).2
  have hnumeral := not_startsNumeral_of_isWordStart hstart (parts ++ after)
  obtain ⟨htake, hdrop⟩ := span_append hparts hafter
  rw [munch?, if_neg hparens.1, if_neg hparens.2, if_neg hnumeral, if_pos hstart, htake, hdrop]

/-- An operator is found where it stands, unless it is the sign of a numeral. -/
theorem munch?_glyph {op : Operator} {after : List Char}
    (hafter : ∀ next ∈ after.head?, (op = .sub && next.isDigit) = false) :
    munch? op.glyph after = some (.atom (.operator op), after) := by
  have hnumeral : startsNumeral op.glyph after = false := by
    cases op with
    | sub =>
        cases after with
        | nil => rfl
        | cons next more =>
            have hnext := hafter next rfl
            simpa [startsNumeral, Operator.glyph] using hnext
    | add | mul | div | rem => rfl
  have hword : isWordStart op.glyph = false := by
    cases op <;> decide
  have hparens : op.glyph ≠ '(' ∧ op.glyph ≠ ')' := by
    cases op <;> decide
  rw [munch?, if_neg hparens.1, if_neg hparens.2, hnumeral, hword]
  simp

/-- A well-spelled token is found where it stands, if nothing goes on with it. -/
theorem munch?_eq_some {c : Char} {rest after : List Char} {token : Token}
    (hspelled : token.isSpelled) (hchars : token.chars ++ after = c :: rest)
    (hafter : ∀ next ∈ after.head?, token.isExtendedBy next = false) :
    munch? c rest = some (token, after) := by
  cases token with
  | leftParen =>
      rw [chars_leftParen] at hchars
      cases hchars
      rfl
  | rightParen =>
      rw [chars_rightParen] at hchars
      cases hchars
      rfl
  | atom a =>
      cases a with
      | operator op =>
          obtain ⟨rfl, rfl⟩ : op.glyph = c ∧ after = rest := by
            simpa [chars, text, Atom.text, Operator.symbol] using hchars
          exact munch?_glyph hafter
      | numeral text =>
          obtain ⟨cs, rfl⟩ : ∃ cs, text = String.ofList cs := ⟨text.toList, by simp⟩
          have hnumeral : isNumeral cs := by simpa [isSpelled, Atom.isSpelled] using hspelled
          cases cs with
          | nil => exact absurd hnumeral (by decide)
          | cons first digits =>
              obtain ⟨rfl, rfl⟩ : first = c ∧ digits ++ after = rest := by
                simpa [chars, Token.text, Atom.text] using hchars
              exact munch?_numeral hnumeral hafter
      | word name =>
          obtain ⟨cs, rfl⟩ : ∃ cs, name = String.ofList cs := ⟨name.toList, by simp⟩
          have hword : isWord cs := by simpa [isSpelled, Atom.isSpelled] using hspelled
          cases cs with
          | nil => exact absurd hword (by decide)
          | cons first parts =>
              obtain ⟨rfl, rfl⟩ : first = c ∧ parts ++ after = rest := by
                simpa [chars, text, Atom.text] using hchars
              exact munch?_word hword hafter

/-- The longest token is the one that is well spelled and that nothing goes on with. -/
theorem munch?_eq_some_iff {c : Char} {rest after : List Char} {token : Token} :
    munch? c rest = some (token, after) ↔
      token.isSpelled ∧ token.chars ++ after = c :: rest ∧
        ∀ next ∈ after.head?, token.isExtendedBy next = false :=
  ⟨fun h => ⟨munch?_isSpelled h, munch?_chars h, munch?_not_isExtendedBy h⟩,
    fun h => munch?_eq_some h.1 h.2.1 h.2.2⟩

/-- A token starts with a character that is no blank. -/
theorem exists_chars_eq_cons {token : Token} (h : token.isSpelled) :
    ∃ c rest, token.chars = c :: rest ∧ isBlank c = false := by
  cases token with
  | leftParen => exact ⟨'(', [], chars_leftParen, by decide⟩
  | rightParen => exact ⟨')', [], chars_rightParen, by decide⟩
  | atom a =>
      cases hchars : a.text.toList with
      | nil =>
          cases a with
          | operator op => simp [Atom.text, Operator.symbol] at hchars
          | numeral text => simp_all [isSpelled, Atom.isSpelled, Atom.text, isNumeral]
          | word name => simp_all [isSpelled, Atom.isSpelled, Atom.text, isWord]
      | cons c rest =>
          have hatom : isAtomPart c := isAtomPart_of_mem h (by simp [hchars])
          exact ⟨c, rest, hchars, (not_isBlank_of_isAtomPart hatom).1⟩

/-- A token that nothing goes on with is the longest of all that stand at its place. -/
theorem length_chars_le_of_prefix {token other : Token} {after : List Char}
    (hspelled : token.isSpelled) (hother : other.isSpelled)
    (hafter : ∀ next ∈ after.head?, token.isExtendedBy next = false)
    (hplace : other.chars <+: token.chars ++ after) :
    other.chars.length ≤ token.chars.length := by
  apply Nat.le_of_not_lt
  intro hlonger
  obtain ⟨rest, hrest⟩ : token.chars <+: other.chars :=
    List.prefix_of_prefix_length_le (List.prefix_append ..) hplace (Nat.le_of_lt hlonger)
  obtain ⟨c, more, rfl⟩ : ∃ c more, rest = c :: more := by
    apply List.exists_cons_of_ne_nil
    rintro rfl
    rw [← hrest, List.append_nil] at hlonger
    exact Nat.lt_irrefl _ hlonger
  rw [← hrest, List.prefix_append_right_inj] at hplace
  obtain ⟨later, rfl⟩ := hplace
  -- In the text of the longer token alone, both would be found at the same place.
  obtain ⟨first, parts, hchars, -⟩ := exists_chars_eq_cons hspelled
  rw [hchars, List.cons_append] at hrest
  have hmunch : munch? first (parts ++ c :: more) = some (token, c :: more) :=
    munch?_eq_some hspelled (by rw [hchars, List.cons_append]) hafter
  have hmunchOther : munch? first (parts ++ c :: more) = some (other, []) :=
    munch?_eq_some hother (by rw [List.append_nil, hrest]) nofun
  rw [hmunch] at hmunchOther
  cases hmunchOther

/-- A character starts a token exactly if it is a parenthesis or may stand in an atom. -/
theorem munch?_eq_none_iff {c : Char} {rest : List Char} :
    munch? c rest = none ↔ c ≠ '(' ∧ c ≠ ')' ∧ isAtomPart c = false := by
  by_cases hopening : c = '('
  · simp [munch?, hopening]
  by_cases hclosing : c = ')'
  · simp [munch?, hclosing]
  by_cases hnumeral : startsNumeral c rest
  · simp [munch?, hopening, hclosing, hnumeral, isAtomPart_of_startsNumeral hnumeral]
  by_cases hstart : isWordStart c
  · simp [munch?, hopening, hclosing, hnumeral, hstart, isAtomPart, isWordPart_eq]
  · have hdigit : c.isDigit = false := by simp_all [startsNumeral]
    simp [munch?, hopening, hclosing, hnumeral, hstart, hdigit, isAtomPart, isWordPart_eq]

end Token

end PrefixCalc
