/-
# What arguments spell

Arguments spell flags, nesting limits and operands. `Spells` says how, one constructor for
each spelling, without taking the arguments one by one and without any request that is
filled on the way: flags by their letters, several behind one hyphen, or by their names; a
limit joined to its option or behind it; operands as they are; and behind two lone hyphens
nothing but operands.

Taking arguments is taking what they spell, from the left (`Spells.addArguments_eq`), and
only what is spelled in this way is ever taken to its end (`exists_spells_of_addArguments`).
So what a request holds in the end is a matter of its items, in whatever spelling they
stand.
-/

import PrefixCalc.CommandLine.Arguments
import Mathlib.Data.List.TakeWhile

namespace PrefixCalc

namespace CommandLine

/-- Something that arguments say. -/
inductive Item where
  /-- A flag is set. -/
  | flag (flag : Flag)
  /-- A nesting limit is given, by a text. -/
  | limit (text : String)
  /-- An operand is given. -/
  | operand (text : String)
  deriving DecidableEq

namespace Item

/-- The text of a nesting limit. -/
def limit? : Item → Option String
  | .limit text => some text
  | _ => none

/-- The text of an operand. -/
def operand? : Item → Option String
  | .operand text => some text
  | _ => none

end Item

/-- How arguments spell items. -/
inductive Spells : List String → List Item → Prop
  /-- No arguments say nothing. -/
  | nil : Spells [] []
  /-- Flags may be given by their letters, all of them behind one hyphen. -/
  | letters {flags : List Flag} {rest : List String} {items : List Item} :
      flags ≠ [] → Spells rest items →
      Spells (String.ofList ('-' :: flags.map Flag.letter) :: rest) (flags.map .flag ++ items)
  /-- A flag may be given by its name behind two hyphens. -/
  | name (flag : Flag) {rest : List String} {items : List Item} :
      Spells rest items → Spells (("--" ++ flag.longName) :: rest) (.flag flag :: items)
  /-- The limit may be an argument of its own. -/
  | limit (text : String) {rest : List String} {items : List Item} :
      Spells rest items → Spells ("--max-depth" :: text :: rest) (.limit text :: items)
  /-- The limit may be joined to its option by an equals sign. -/
  | joinedLimit (text : String) {rest : List String} {items : List Item} :
      Spells rest items → Spells (("--max-depth=" ++ text) :: rest) (.limit text :: items)
  /-- What does not start with a hyphen, and a lone hyphen, is an operand. -/
  | operand {text : String} {rest : List String} {items : List Item} :
      (∀ c cs, text.toList ≠ '-' :: c :: cs) → Spells rest items →
      Spells (text :: rest) (.operand text :: items)
  /-- Behind two lone hyphens there are only operands. -/
  | hyphens (operands : List String) : Spells ("--" :: operands) (operands.map .operand)

/-- Arguments may be followed by more, as long as no two lone hyphens stand among them. -/
theorem Spells.append {front back : List String} {items items' : List Item}
    (hfront : Spells front items) (hopen : "--" ∉ front) (hback : Spells back items') :
    Spells (front ++ back) (items ++ items') := by
  induction hfront with
  | nil => exact hback
  | letters hflags _ ih =>
    rw [List.append_assoc]
    exact .letters hflags (ih fun hmem => hopen (List.mem_cons_of_mem _ hmem))
  | name flag _ ih => exact .name flag (ih fun hmem => hopen (List.mem_cons_of_mem _ hmem))
  | limit text _ ih =>
    exact .limit text (ih fun hmem => hopen (List.mem_cons_of_mem _ (List.mem_cons_of_mem _ hmem)))
  | joinedLimit text _ ih =>
    exact .joinedLimit text (ih fun hmem => hopen (List.mem_cons_of_mem _ hmem))
  | operand htext _ ih =>
    exact .operand htext (ih fun hmem => hopen (List.mem_cons_of_mem _ hmem))
  | hyphens operands => exact absurd List.mem_cons_self hopen

/-! ## Taking arguments is taking what they spell -/

/-- Take an item. -/
def Request.add (request : Request) : Item → Except Stop Request
  | .flag flag => request.addFlag flag
  | .limit text => request.addLimit text
  | .operand text => request.addOperand text

namespace Flag

theorem ofLetter?_letter (flag : Flag) : ofLetter? flag.letter = some flag := by
  cases flag <;> rfl

theorem ofLetter?_eq_some_iff {c : Char} {flag : Flag} :
    ofLetter? c = some flag ↔ flag.letter = c := by
  refine ⟨fun h => ?_, ?_⟩
  · simpa using List.find?_some h
  · rintro rfl
    exact ofLetter?_letter flag

theorem ofLongName?_eq_some_iff {name : String} {flag : Flag} :
    ofLongName? name = some flag ↔ flag.longName = name := by
  refine ⟨fun h => ?_, ?_⟩
  · simpa using List.find?_some h
  · rintro rfl
    cases flag <;> rfl

theorem letter_ne_hyphen (flag : Flag) : flag.letter ≠ '-' := by
  cases flag <;> decide

end Flag

/-- Two steps of taking arguments succeed exactly if both do. -/
theorem Stop.bind_eq_ok_iff {α β : Type} {first : Except Stop α} {next : α → Except Stop β}
    {b : β} : first >>= next = .ok b ↔ ∃ a, first = .ok a ∧ next a = .ok b := by
  cases first with
  | ok a => simp [bind, Except.bind]
  | error stop => simp [bind, Except.bind]

namespace Request

variable {request filled : Request}

theorem addLetters_map_letter (request : Request) (flags : List Flag) :
    request.addLetters (flags.map Flag.letter) = (flags.map Item.flag).foldlM add request := by
  rw [addLetters, List.foldlM_map, List.foldlM_map]
  simp only [Flag.ofLetter?_letter]
  rfl

/-- Only letters of flags are taken. -/
theorem exists_flags_of_addLetters {letters : List Char}
    (h : request.addLetters letters = .ok filled) :
    ∃ flags : List Flag, letters = flags.map Flag.letter := by
  induction letters generalizing request with
  | nil => exact ⟨[], rfl⟩
  | cons c rest ih =>
    rw [addLetters, List.foldlM_cons, Stop.bind_eq_ok_iff] at h
    obtain ⟨next, hnext, hrest⟩ := h
    cases hflag : Flag.ofLetter? c with
    | none =>
      rw [hflag] at hnext
      cases hnext
    | some flag =>
      obtain ⟨flags, rfl⟩ := ih hrest
      exact ⟨flag :: flags, by rw [List.map_cons, Flag.ofLetter?_eq_some_iff.1 hflag]⟩

theorem forall_ne_equals {name : List Char} (h : '=' ∉ name) :
    ∀ c ∈ name, decide (c ≠ '=') = true :=
  fun _ hc => decide_eq_true fun heq => h (heq ▸ hc)

/-- A name is taken as far as the equals sign behind it. -/
theorem addLong_append (request : Request) {name : List Char} (hname : '=' ∉ name)
    (value : List Char) :
    request.addLong (name ++ '=' :: value) =
      if String.ofList name = limitOption then request.addLimit (String.ofList value)
      else if (Flag.ofLongName? (String.ofList name)).isSome then
        .error (.misuse (.unexpectedValue (String.ofList name)))
      else .error (.misuse (.unknownOption (String.ofList name))) := by
  have hall := forall_ne_equals hname
  have htake : (name ++ '=' :: value).takeWhile (fun c => decide (c ≠ '=')) = name := by
    rw [List.takeWhile_append_of_pos hall, List.takeWhile_cons_of_neg (by decide), List.append_nil]
  have hdrop : (name ++ '=' :: value).dropWhile (fun c => decide (c ≠ '=')) = '=' :: value := by
    rw [List.dropWhile_append_of_pos hall, List.dropWhile_cons_of_neg (by decide)]
  simp only [addLong, htake, hdrop]

theorem addLong_of_not_mem (request : Request) {name : List Char} (hname : '=' ∉ name) :
    request.addLong name =
      match Flag.ofLongName? (String.ofList name) with
      | some flag => request.addFlag flag
      | none =>
        if String.ofList name = limitOption then
          .error (.misuse (.missingValue (String.ofList name)))
        else .error (.misuse (.unknownOption (String.ofList name))) := by
  have hall := forall_ne_equals hname
  have htake := List.takeWhile_eq_self_iff.2 hall
  have hdrop := List.dropWhile_eq_nil_iff.2 hall
  cases hflag : Flag.ofLongName? (String.ofList name) with
  | none => simp only [addLong, htake, hdrop, hflag]
  | some flag => simp only [addLong, htake, hdrop, hflag]

theorem addLong_longName (request : Request) (flag : Flag) :
    request.addLong flag.longName.toList = request.addFlag flag := by
  have hname : '=' ∉ flag.longName.toList := by cases flag <;> decide
  rw [addLong_of_not_mem request hname, String.ofList_toList, Flag.ofLongName?_eq_some_iff.2 rfl]

theorem addLong_limitOption (request : Request) (text : String) :
    request.addLong (limitOption.toList ++ '=' :: text.toList) = request.addLimit text := by
  rw [addLong_append request (by decide), String.ofList_toList, if_pos rfl, String.ofList_toList]

/-- Behind two hyphens only names of flags are taken, and the option of the limit with a
value. -/
theorem spelling_of_addLong {option : List Char} (h : request.addLong option = .ok filled) :
    (∃ flag : Flag, option = flag.longName.toList) ∨
      ∃ text : String, option = limitOption.toList ++ '=' :: text.toList := by
  by_cases hvalue : '=' ∈ option
  · obtain ⟨name, value, rfl, hname⟩ := List.eq_append_cons_of_mem hvalue
    rw [addLong_append request hname] at h
    split at h
    · next heq => exact .inr ⟨String.ofList value, by rw [← heq, String.toList_ofList,
        String.toList_ofList]⟩
    · split at h <;> cases h
  · rw [addLong_of_not_mem request hvalue] at h
    split at h
    · next flag hflag =>
      refine .inl ⟨flag, ?_⟩
      rw [Flag.ofLongName?_eq_some_iff.1 hflag, String.toList_ofList]
    · split at h <;> cases h

/-! ### One argument -/

theorem addArgument_letters (request : Request) {flags : List Flag} (h : flags ≠ []) :
    request.addArgument (String.ofList ('-' :: flags.map Flag.letter)) =
      (flags.map Item.flag).foldlM add request := by
  obtain ⟨flag, more, rfl⟩ := List.exists_cons_of_ne_nil h
  rw [← addLetters_map_letter, addArgument, String.toList_ofList, List.map_cons]
  split
  · next option heq =>
    rw [List.cons.injEq, List.cons.injEq] at heq
    exact absurd heq.2.1 flag.letter_ne_hyphen
  · next letter letters _ heq => rw [(List.cons.inj heq).2]
  · next hother => exact absurd rfl (hother _ _)

theorem addArgument_longName (request : Request) (flag : Flag) :
    request.addArgument ("--" ++ flag.longName) = request.addFlag flag := by
  rw [addArgument, String.toList_append]
  exact addLong_longName request flag

theorem addArgument_joinedLimit (request : Request) (text : String) :
    request.addArgument ("--max-depth=" ++ text) = request.addLimit text := by
  rw [addArgument, String.toList_append]
  exact addLong_limitOption request text

theorem addArgument_operand (request : Request) {text : String}
    (h : ∀ c cs, text.toList ≠ '-' :: c :: cs) :
    request.addArgument text = request.addOperand text := by
  unfold addArgument
  split
  · next option heq => exact absurd heq (h _ _)
  · next letter letters _ heq => exact absurd heq (h _ _)
  · rfl

/-- An argument that is taken by itself spells something, whatever follows it. -/
theorem exists_spells_of_addArgument {argument : String}
    (h : request.addArgument argument = .ok filled) :
    ∃ first, ∀ rest items, Spells rest items → Spells (argument :: rest) (first ++ items) := by
  unfold addArgument at h
  split at h
  · next option heq =>
    rcases spelling_of_addLong h with ⟨flag, rfl⟩ | ⟨text, rfl⟩
    · obtain rfl : argument = "--" ++ flag.longName := by
        rw [← String.toList_inj, heq, String.toList_append]
        rfl
      exact ⟨[.flag flag], fun rest items hrest => .name flag hrest⟩
    · obtain rfl : argument = "--max-depth=" ++ text := by
        rw [← String.toList_inj, heq, String.toList_append]
        rfl
      exact ⟨[.limit text], fun rest items hrest => .joinedLimit text hrest⟩
  · next letter letters _ heq =>
    obtain ⟨flags, hflags⟩ := exists_flags_of_addLetters h
    obtain rfl : argument = String.ofList ('-' :: flags.map Flag.letter) := by
      rw [← hflags, ← heq, String.ofList_toList]
    refine ⟨flags.map .flag, fun rest items hrest => .letters ?_ hrest⟩
    rintro rfl
    cases hflags
  · next hlong hletters =>
    refine ⟨[.operand argument], fun rest items hrest => .operand ?_ hrest⟩
    exact fun c cs => hletters c cs

/-! ### All arguments -/

theorem addArguments_cons (request : Request) {argument : String} (rest : List String)
    (hhyphens : argument ≠ "--") (hlimit : argument ≠ "--max-depth") :
    request.addArguments (argument :: rest) =
      request.addArgument argument >>= fun next => next.addArguments rest := by
  rw [addArguments]
  · exact hhyphens
  · exact fun _ _ heq => absurd heq hlimit

end Request

/-- Taking arguments is taking the items that they spell. -/
theorem Spells.addArguments_eq {arguments : List String} {items : List Item}
    (h : Spells arguments items) (request : Request) :
    request.addArguments arguments = items.foldlM Request.add request := by
  induction h generalizing request with
  | nil => rw [Request.addArguments]; rfl
  | @letters flags rest items hflags _ ih =>
    have hsecond : ∀ cs,
        String.ofList ('-' :: flags.map Flag.letter) ≠ String.ofList ('-' :: '-' :: cs) := by
      intro cs heq
      obtain ⟨flag, more, rfl⟩ := List.exists_cons_of_ne_nil hflags
      rw [String.ofList_inj, List.map_cons, List.cons.injEq, List.cons.injEq] at heq
      exact flag.letter_ne_hyphen heq.2.1
    rw [Request.addArguments_cons request rest (hsecond []) (hsecond "max-depth".toList),
      Request.addArgument_letters request hflags, List.foldlM_append]
    exact bind_congr ih
  | @name flag rest items _ ih =>
    rw [Request.addArguments_cons request rest (by cases flag <;> decide)
      (by cases flag <;> decide), Request.addArgument_longName, List.foldlM_cons]
    exact bind_congr ih
  | limit text _ ih =>
    rw [Request.addArguments, List.foldlM_cons]
    exact bind_congr ih
  | @joinedLimit text rest items _ ih =>
    -- The equals sign tells it from the arguments that are taken in another way.
    have hequals : '=' ∈ ("--max-depth=" ++ text).toList := by simp
    have hne : ∀ {other : String}, '=' ∉ other.toList → "--max-depth=" ++ text ≠ other :=
      fun hother heq => hother (heq ▸ hequals)
    rw [Request.addArguments_cons request rest (hne (by decide)) (hne (by decide)),
      Request.addArgument_joinedLimit, List.foldlM_cons]
    exact bind_congr ih
  | @operand text rest items htext _ ih =>
    have hne : ∀ c cs, text ≠ String.ofList ('-' :: c :: cs) := by
      rintro c cs rfl
      exact htext c cs (String.toList_ofList)
    rw [Request.addArguments_cons request rest (hne _ _) (hne _ _),
      Request.addArgument_operand request htext, List.foldlM_cons]
    exact bind_congr ih
  | hyphens operands =>
    rw [Request.addArguments, List.foldlM_map]
    rfl

/-- Only what is spelled is taken. -/
theorem exists_spells_of_addArguments {request filled : Request} {arguments : List String}
    (h : request.addArguments arguments = .ok filled) : ∃ items, Spells arguments items := by
  fun_induction Request.addArguments request arguments with
  | case1 => exact ⟨[], .nil⟩
  | case2 request operands => exact ⟨_, .hyphens operands⟩
  | case3 request text rest ih =>
    obtain ⟨next, -, hrest⟩ := Stop.bind_eq_ok_iff.1 h
    obtain ⟨items, hitems⟩ := ih next hrest
    exact ⟨_, .limit text hitems⟩
  | case4 request argument rest _ _ ih =>
    obtain ⟨next, hnext, hrest⟩ := Stop.bind_eq_ok_iff.1 h
    obtain ⟨items, hitems⟩ := ih next hrest
    obtain ⟨first, hfirst⟩ := Request.exists_spells_of_addArgument hnext
    exact ⟨_, hfirst rest items hitems⟩

end CommandLine

end PrefixCalc
