/-
# What lines are

`splitAfter` and `lines` walk through a sequence element by element. This module says
what they find without any walk: `IsCut` holds of the pieces that end with the
terminators of a sequence, and `IsLines` of the lines of a text with either kind of line
ending. Each of the two determines its pieces, and they are the ones that are computed.

Bytes that may not be text throughout are read as far as their lines are: `IsRead`.
-/

import PrefixCalc.Text.Lines

namespace PrefixCalc

namespace Text

variable {α : Type}

/-! ## Pieces -/

/-- A sequence consists of some pieces, each of which ends with its only terminator. What
stands behind the last terminator is one more piece, unless nothing does. -/
inductive IsCut (isTerminator : α → Bool) : List α → List (List α) → Prop
  | nil : IsCut isTerminator [] []
  | last {piece : List α} : piece ≠ [] → (∀ a ∈ piece, ¬ isTerminator a) →
      IsCut isTerminator piece [piece]
  | cons {body : List α} {a : α} {rest : List α} {pieces : List (List α)} :
      (∀ b ∈ body, ¬ isTerminator b) → isTerminator a → IsCut isTerminator rest pieces →
      IsCut isTerminator (body ++ a :: rest) ((body ++ [a]) :: pieces)

/-- A sequence without a terminator is one that the terminator is not in. -/
theorem forall_not_iff_not_mem [DecidableEq α] {terminator : α} {piece : List α} :
    (∀ a ∈ piece, ¬ decide (a = terminator) = true) ↔ terminator ∉ piece := by
  simp only [decide_eq_true_eq]
  exact List.forall_mem_ne'

/-- Nothing is cut where there is no terminator. -/
theorem splitAfter_of_forall_not {isTerminator : α → Bool} {piece : List α}
    (hne : piece ≠ []) (h : ∀ a ∈ piece, ¬ isTerminator a) :
    splitAfter isTerminator piece = [piece] := by
  induction piece with
  | nil => exact absurd rfl hne
  | cons a rest ih =>
    obtain ⟨ha, hrest⟩ := List.forall_mem_cons.1 h
    rw [splitAfter, if_neg ha]
    cases rest with
    | nil => rfl
    | cons b more => rw [ih (List.cons_ne_nil b more) hrest]

/-- A sequence with a single terminator, at its end, is a single piece. -/
theorem splitAfter_concat {isTerminator : α → Bool} {body : List α} {a : α}
    (hbody : ∀ b ∈ body, ¬ isTerminator b) (ha : isTerminator a) :
    splitAfter isTerminator (body ++ [a]) = [body ++ [a]] := by
  induction body with
  | nil => simp [splitAfter, ha]
  | cons b rest ih =>
    obtain ⟨hb, hrest⟩ := List.forall_mem_cons.1 hbody
    rw [List.cons_append, splitAfter, if_neg hb, ih hrest]

theorem isCut_splitAfter (isTerminator : α → Bool) (l : List α) :
    IsCut isTerminator l (splitAfter isTerminator l) := by
  induction l with
  | nil => exact .nil
  | cons a rest ih =>
    rw [splitAfter]
    by_cases ha : isTerminator a
    · rw [if_pos ha]
      have hbody : ∀ b ∈ ([] : List α), ¬ isTerminator b := List.forall_mem_nil _
      exact .cons hbody ha ih
    · rw [if_neg ha]
      -- The element joins the piece that comes first behind it.
      generalize splitAfter isTerminator rest = pieces at ih
      cases ih with
      | nil => exact .last (List.cons_ne_nil a []) (List.forall_mem_singleton.2 ha)
      | last _ hpiece => exact .last (List.cons_ne_nil a _) (List.forall_mem_cons.2 ⟨ha, hpiece⟩)
      | cons hbody hb hrest => exact .cons (List.forall_mem_cons.2 ⟨ha, hbody⟩) hb hrest

/-- The pieces of a sequence are the ones that it is cut into. -/
theorem isCut_iff {isTerminator : α → Bool} {l : List α} {pieces : List (List α)} :
    IsCut isTerminator l pieces ↔ splitAfter isTerminator l = pieces := by
  refine ⟨fun h => ?_, ?_⟩
  · induction h with
    | nil => rfl
    | last hne hpiece => exact splitAfter_of_forall_not hne hpiece
    | cons hbody ha _ ih =>
      rw [splitAfter_append_cons ha, splitAfter_concat hbody ha, ih, List.singleton_append]
  · rintro rfl
    exact isCut_splitAfter isTerminator l

/-! ## Lines -/

/-- A text consists of some lines. A line is ended by a line feed together with one
carriage return directly before it, if there is one, and neither belongs to the line. What
stands behind the last line feed is one more line, unless nothing does; a carriage return
at its end belongs to it. -/
inductive IsLines : List Char → List (List Char) → Prop
  | nil : IsLines [] []
  | last {line : List Char} : line ≠ [] → '\n' ∉ line → IsLines line [line]
  | lineFeed {line text : List Char} {lines : List (List Char)} :
      '\n' ∉ line → line.getLast? ≠ some '\r' → IsLines text lines →
      IsLines (line ++ '\n' :: text) (line :: lines)
  | carriageReturn {line text : List Char} {lines : List (List Char)} :
      '\n' ∉ line → IsLines text lines →
      IsLines (line ++ '\r' :: '\n' :: text) (line :: lines)

theorem dropTerminator_of_not_mem {line : List Char} (h : '\n' ∉ line) :
    dropTerminator line = line := by
  unfold dropTerminator
  split
  · next rest heq => exact absurd (List.mem_reverse.1 (by rw [heq]; simp)) h
  · next rest heq => exact absurd (List.mem_reverse.1 (by rw [heq]; simp)) h
  · rfl

theorem dropTerminator_lineFeed {line : List Char} (h : line.getLast? ≠ some '\r') :
    dropTerminator (line ++ ['\n']) = line := by
  unfold dropTerminator
  split
  · next rest heq =>
    rw [List.reverse_append, List.reverse_singleton, List.singleton_append, List.cons.injEq] at heq
    exact absurd (by rw [← List.head?_reverse, heq.2]; rfl) h
  · next rest _ heq =>
    rw [List.reverse_append, List.reverse_singleton, List.singleton_append, List.cons.injEq] at heq
    rw [← heq.2, List.reverse_reverse]
  · next hother => exact absurd (by simp) (hother line.reverse)

theorem dropTerminator_carriageReturn (line : List Char) :
    dropTerminator (line ++ ['\r', '\n']) = line := by
  simp [dropTerminator]

/-- Lines are what remains of the pieces of a text without what ends them. -/
theorem isLines_of_isCut {text : List Char} {pieces : List (List Char)}
    (h : IsCut (fun c => c = '\n') text pieces) :
    IsLines text (pieces.map dropTerminator) := by
  induction h with
  | nil => exact .nil
  | last hne hpiece =>
    have hfree := forall_not_iff_not_mem.1 hpiece
    rw [List.map_singleton, dropTerminator_of_not_mem hfree]
    exact .last hne hfree
  | @cons body a rest pieces hbody ha _ ih =>
    obtain rfl : a = '\n' := of_decide_eq_true ha
    have hfree := forall_not_iff_not_mem.1 hbody
    rw [List.map_cons]
    by_cases hreturn : body.getLast? = some '\r'
    · obtain ⟨line, rfl⟩ := List.getLast?_eq_some_iff.1 hreturn
      rw [List.append_assoc, List.append_assoc, List.singleton_append, List.singleton_append,
        dropTerminator_carriageReturn]
      exact .carriageReturn (fun hmem => hfree (List.mem_append_left _ hmem)) ih
    · rw [dropTerminator_lineFeed hreturn]
      exact .lineFeed hfree hreturn ih

/-- The first line feed ends the first line. -/
theorem lines_append_cons {body : List Char} (h : '\n' ∉ body) (rest : List Char) :
    lines (body ++ '\n' :: rest) = dropTerminator (body ++ ['\n']) :: lines rest := by
  have hbody := forall_not_iff_not_mem.2 h
  rw [lines, splitAfter_append_cons (by decide), splitAfter_concat hbody (by decide)]
  rfl

/-- The lines of a text are the ones that it is read as. -/
theorem isLines_iff {text : List Char} {ls : List (List Char)} :
    IsLines text ls ↔ lines text = ls := by
  refine ⟨fun h => ?_, ?_⟩
  · induction h with
    | nil => rfl
    | @last line hne hline =>
      rw [lines, splitAfter_of_forall_not hne (forall_not_iff_not_mem.2 hline),
        List.map_singleton, dropTerminator_of_not_mem hline]
    | lineFeed hline hreturn _ ih =>
      rw [lines_append_cons hline, dropTerminator_lineFeed hreturn, ih]
    | @carriageReturn line _ _ hline _ ih =>
      have hboth : '\n' ∉ line ++ ['\r'] := by simpa using hline
      rw [List.append_cons, lines_append_cons hboth, List.append_assoc, List.singleton_append,
        dropTerminator_carriageReturn, ih]
  · rintro rfl
    exact isLines_of_isCut (isCut_splitAfter _ text)

/-! ## Lines of bytes -/

/-- Bytes are decoded to the text that they encode. -/
theorem fromUTF8?_eq_some_iff {bytes : ByteArray} {text : String} :
    String.fromUTF8? bytes = some text ↔ bytes = text.toUTF8 := by
  unfold String.fromUTF8?
  refine ⟨fun h => ?_, ?_⟩
  · split at h
    · cases h
      rfl
    · cases h
  · rintro rfl
    exact dif_pos text.isValidUTF8

theorem fromUTF8?_eq_none_iff {bytes : ByteArray} :
    String.fromUTF8? bytes = none ↔ ∀ text : String, bytes ≠ text.toUTF8 := by
  rw [Option.eq_none_iff_forall_ne_some]
  exact forall_congr' fun text => not_congr fromUTF8?_eq_some_iff

/-- The bytes that a text is encoded as. -/
def encoded (text : String) : List UInt8 := text.toUTF8.data.toList

theorem fromUTF8?_eq_some_iff_encoded {line : List UInt8} {text : String} :
    String.fromUTF8? ⟨line.toArray⟩ = some text ↔ line = encoded text := by
  rw [fromUTF8?_eq_some_iff, ByteArray.ext_iff, ← Array.toList_inj]
  rfl

theorem fromUTF8?_encoded (text : String) :
    String.fromUTF8? ⟨(encoded text).toArray⟩ = some text :=
  fromUTF8?_eq_some_iff_encoded.2 rfl

theorem fromUTF8?_eq_none_of_forall_ne {line : List UInt8}
    (h : ∀ text, line ≠ encoded text) : String.fromUTF8? ⟨line.toArray⟩ = none :=
  Option.eq_none_iff_forall_ne_some.2 fun text hsome =>
    h text (fromUTF8?_eq_some_iff_encoded.1 hsome)

/-- Bytes that are one line: they end with their only line feed. -/
def IsLine (bytes : List UInt8) : Prop := ∃ body, 0x0A ∉ body ∧ bytes = body ++ [0x0A]

/-- Bytes are read as some texts: these are their lines, each with its line feed, up to the
first line that is not the encoding of any text, or all of them if there is none. -/
def IsRead (bytes : List UInt8) (texts : List String) : Prop :=
  ∃ unread, IsCut (fun byte => byte = 0x0A) bytes (texts.map encoded ++ unread) ∧
    ∀ line ∈ unread.head?, ∀ text, line ≠ encoded text

/-- Pieces begin with the encodings of some texts, up to the first that encodes none. -/
theorem exists_texts (pieces : List (List UInt8)) :
    ∃ (texts : List String) (unread : List (List UInt8)), pieces = texts.map encoded ++ unread ∧
      ∀ line ∈ unread.head?, ∀ text, line ≠ encoded text := by
  induction pieces with
  | nil => exact ⟨[], [], rfl, nofun⟩
  | cons line rest ih =>
    by_cases htext : ∃ text, line = encoded text
    · obtain ⟨text, rfl⟩ := htext
      obtain ⟨texts, unread, rfl, hunread⟩ := ih
      exact ⟨text :: texts, unread, rfl, hunread⟩
    · refine ⟨[], line :: rest, rfl, ?_⟩
      rintro _ ⟨⟩ text heq
      exact htext ⟨text, heq⟩

theorem exists_isRead (bytes : List UInt8) : ∃ texts, IsRead bytes texts := by
  obtain ⟨texts, unread, hpieces, hunread⟩ :=
    exists_texts (splitAfter (fun byte => byte = 0x0A) bytes)
  exact ⟨texts, unread, isCut_iff.2 hpieces, hunread⟩

theorem isRead_nil : IsRead [] [] := ⟨[], .nil, nofun⟩

/-- A line that is a text is read, and then the bytes behind it. -/
theorem IsRead.cons {text : String} {bytes : List UInt8} {texts : List String}
    (htext : IsLine (encoded text)) (h : IsRead bytes texts) :
    IsRead (encoded text ++ bytes) (text :: texts) := by
  obtain ⟨unread, hcut, hunread⟩ := h
  obtain ⟨body, hbody, htext⟩ := htext
  refine ⟨unread, ?_, hunread⟩
  rw [List.map_cons, List.cons_append, htext, List.append_assoc]
  exact .cons (forall_not_iff_not_mem.2 hbody) (by decide) hcut

theorem IsRead.append {before : List String} {bytes : List UInt8} {texts : List String}
    (hbefore : ∀ text ∈ before, IsLine (encoded text)) (h : IsRead bytes texts) :
    IsRead (before.flatMap encoded ++ bytes) (before ++ texts) := by
  induction before with
  | nil => exact h
  | cons text rest ih =>
    obtain ⟨htext, hrest⟩ := List.forall_mem_cons.1 hbefore
    rw [List.flatMap_cons, List.append_assoc]
    exact .cons htext (ih hrest)

/-- Nothing is read from a line on that is not a text. -/
theorem isRead_nil_of_forall_ne {line after : List UInt8} (hline : ∀ text, line ≠ encoded text)
    (hended : IsLine line ∨ 0x0A ∉ line ∧ after = []) : IsRead (line ++ after) [] := by
  rcases hended with ⟨body, hbody, rfl⟩ | ⟨hfree, rfl⟩
  · refine ⟨(body ++ [0x0A]) :: splitAfter (fun byte => byte = 0x0A) after, ?_, ?_⟩
    · rw [List.append_assoc]
      exact .cons (forall_not_iff_not_mem.2 hbody) (by decide) (isCut_splitAfter _ after)
    · rintro _ ⟨⟩
      exact hline
  · have hne : line ≠ [] := hline ""
    refine ⟨[line], ?_, ?_⟩
    · rw [List.append_nil]
      exact .last hne (forall_not_iff_not_mem.2 hfree)
    · rintro _ ⟨⟩
      exact hline

end Text

end PrefixCalc
