/-
# Lines

A line ends with its line feed; the last one may do without. `splitAfter` cuts a
sequence behind every terminator, which loses nothing: `flatten_splitAfter` puts the
pieces together again, and `splitAfter_append` says that a sequence may be cut where a
line has ended. `lines` then takes away what ends each line.
-/

namespace PrefixCalc

namespace Text

variable {α : Type}

/-- Cut a sequence behind every terminator. Each piece holds one, as its last element,
except that the last piece may hold none. -/
def splitAfter (isTerminator : α → Bool) : List α → List (List α)
  | [] => []
  | a :: rest =>
    if isTerminator a then [a] :: splitAfter isTerminator rest
    else
      match splitAfter isTerminator rest with
      | [] => [[a]]
      | line :: lines => (a :: line) :: lines

/-- The pieces are the sequence. -/
theorem flatten_splitAfter (isTerminator : α → Bool) (l : List α) :
    (splitAfter isTerminator l).flatten = l := by
  induction l with
  | nil => rfl
  | cons a rest ih =>
    rw [splitAfter]
    split
    · simp [ih]
    · split
      · next h => simpa [h] using ih
      · next h => simpa [h] using ih

theorem splitAfter_append_cons {isTerminator : α → Bool} {a : α} (ha : isTerminator a)
    (front back : List α) :
    splitAfter isTerminator (front ++ a :: back) =
      splitAfter isTerminator (front ++ [a]) ++ splitAfter isTerminator back := by
  induction front with
  | nil => simp [splitAfter, ha]
  | cons b rest ih =>
    simp only [List.cons_append, splitAfter, ih]
    split
    · rfl
    · split
      · next h =>
        have hflat := flatten_splitAfter isTerminator (rest ++ [a])
        simp_all
      · next h =>
        split
        · next h' =>
          have hflat := flatten_splitAfter isTerminator (rest ++ [a])
          simp_all
        · next h' => simp_all

/-- A sequence may be cut where a piece has ended before its pieces are cut. -/
theorem splitAfter_append {isTerminator : α → Bool} {front : List α}
    (h : ∀ a ∈ front.getLast?, isTerminator a) (back : List α) :
    splitAfter isTerminator (front ++ back) =
      splitAfter isTerminator front ++ splitAfter isTerminator back := by
  rcases List.eq_nil_or_concat front with rfl | ⟨rest, a, rfl⟩
  · simp [splitAfter]
  · have ha : isTerminator a := h a (by simp)
    simpa using splitAfter_append_cons ha rest back

/-- A line without its line feed and without one carriage return before that. A last
line that has no line feed is kept as it is. -/
def dropTerminator (line : List Char) : List Char :=
  match line.reverse with
  | '\n' :: '\r' :: rest => rest.reverse
  | '\n' :: rest => rest.reverse
  | _ => line

/-- The lines of a text, without what ends them. -/
def lines (text : List Char) : List (List Char) :=
  (splitAfter (fun c => c = '\n') text).map dropTerminator

/-- The lines of a text that is cut behind a line feed are those of its parts. -/
theorem lines_append {front : List Char} (h : ∀ c ∈ front.getLast?, c = '\n')
    (back : List Char) : lines (front ++ back) = lines front ++ lines back := by
  rw [lines, splitAfter_append (fun c hc => by simpa using h c hc), List.map_append, lines, lines]

end Text

end PrefixCalc
