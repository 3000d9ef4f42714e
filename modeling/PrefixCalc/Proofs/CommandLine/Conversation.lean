/-
# Conversations

A conversation is carried on in turns. In each turn the prompt is printed and a line is read,
and then there is an answer, or the conversation is over, because nothing was left to be read
or because the line was not text. `Conversation.turn` is one turn.

This does not make a second kind of conversation. A turn answers the first line and leaves
the others to be read (`turn_of_isRead_cons`), and so the turns come to the transcript and
end there (`iterate_turn`). The transcript is known from the lines alone: every line that is
a text is answered like a run that is given the line without the white space around it, and
nothing but that line is needed for the answer.
-/

import PrefixCalc.Proofs.CommandLine.Chosen
import PrefixCalc.Proofs.Text.Lines
import Mathlib.Logic.Function.Iterate

namespace PrefixCalc

namespace CommandLine

open Text

/-! ## What is read -/

/-- The typed lines are the texts that are read. -/
theorem typedLines_eq_of_isRead {input : ByteArray} {texts : List String}
    (h : IsRead input.data.toList texts) : typedLines input = texts := by
  obtain ⟨unread, hcut, hunread⟩ := h
  rw [typedLines, isCut_iff.1 hcut]
  clear hcut
  induction texts with
  | nil =>
    cases unread with
    | nil => rfl
    | cons line rest =>
      have hnone := fromUTF8?_eq_none_of_forall_ne (hunread line rfl)
      simp [hnone]
  | cons text rest ih => simpa [fromUTF8?_encoded] using ih

/-! ## Turns -/

/-- The first line of some bytes, with its line feed if it has one, and the bytes behind it. -/
def firstLine : List UInt8 → List UInt8 × List UInt8
  | [] => ([], [])
  | byte :: rest =>
    if byte = 0x0A then ([byte], rest) else (byte :: (firstLine rest).1, (firstLine rest).2)

theorem firstLine_append_cons {body : List UInt8} (h : 0x0A ∉ body) (rest : List UInt8) :
    firstLine (body ++ 0x0A :: rest) = (body ++ [0x0A], rest) := by
  induction body with
  | nil => rfl
  | cons byte more ih =>
    obtain ⟨hbyte, hmore⟩ := List.ne_and_not_mem_of_not_mem_cons h
    rw [List.cons_append, firstLine, if_neg (Ne.symm hbyte), ih hmore, List.cons_append]

theorem firstLine_of_not_mem {line : List UInt8} (h : 0x0A ∉ line) :
    firstLine line = (line, []) := by
  induction line with
  | nil => rfl
  | cons byte more ih =>
    obtain ⟨hbyte, hmore⟩ := List.ne_and_not_mem_of_not_mem_cons h
    rw [firstLine, if_neg (Ne.symm hbyte), ih hmore]

/-- What comes of an attempt to read a line. -/
inductive Heard where
  /-- There is nothing left to be read. -/
  | nothing
  /-- A line was read, and some bytes are left. -/
  | line (text : String) (unread : List UInt8)
  /-- There is a line, but it is not text. -/
  | noText

/-- Try to read a line. -/
def listen : List UInt8 → Heard
  | [] => .nothing
  | byte :: rest =>
    match String.fromUTF8? ⟨(firstLine (byte :: rest)).1.toArray⟩ with
    | some text => .line text (firstLine (byte :: rest)).2
    | none => .noText

/-- Where a conversation stands. -/
structure Conversation where
  /-- Everything that has been printed. -/
  printed : String
  /-- The bytes that have not been read, unless the conversation is over. -/
  unread : Option (List UInt8)

/-- One turn of a conversation. -/
def Conversation.turn (settings : Settings) (conversation : Conversation) : Conversation :=
  match conversation.unread with
  | none => conversation
  | some unread =>
    match listen unread with
    | .line text rest =>
      ⟨conversation.printed ++ prompt ++ replyToTyped settings text, some rest⟩
    | .nothing | .noText => ⟨conversation.printed ++ prompt ++ "\n", none⟩

/-- A line is heard if it is the first of the pieces. -/
theorem listen_of_isCut {bytes line : List UInt8} {pieces : List (List UInt8)}
    (h : IsCut (fun byte => byte = 0x0A) bytes (line :: pieces)) :
    ∃ unread, IsCut (fun byte => byte = 0x0A) unread pieces ∧
      listen bytes =
        match String.fromUTF8? ⟨line.toArray⟩ with
        | some text => .line text unread
        | none => .noText := by
  have hne : bytes ≠ [] := by
    rintro rfl
    cases isCut_iff.1 h
  have hlisten : listen bytes =
      match String.fromUTF8? ⟨(firstLine bytes).1.toArray⟩ with
      | some text => .line text (firstLine bytes).2
      | none => .noText := by
    obtain ⟨byte, rest, rfl⟩ := List.exists_cons_of_ne_nil hne
    rfl
  cases h with
  | last _ hfree =>
    rw [firstLine_of_not_mem (forall_not_iff_not_mem.1 hfree)] at hlisten
    exact ⟨[], .nil, hlisten⟩
  | @cons body byte rest _ hfree hbyte hrest =>
    obtain rfl : byte = 0x0A := of_decide_eq_true hbyte
    rw [firstLine_append_cons (forall_not_iff_not_mem.1 hfree)] at hlisten
    exact ⟨rest, hrest, hlisten⟩

variable {settings : Settings} {unread : List UInt8} {text : String} {texts : List String}

/-- Where no line is read, the conversation is over. -/
theorem turn_of_isRead_nil (h : IsRead unread []) (printed : String) :
    Conversation.turn settings ⟨printed, some unread⟩ = ⟨printed ++ prompt ++ "\n", none⟩ := by
  obtain ⟨pieces, hcut, hpieces⟩ := h
  rw [List.map_nil, List.nil_append] at hcut
  have hlisten : listen unread = .nothing ∨ listen unread = .noText := by
    cases pieces with
    | nil =>
      cases hcut
      exact .inl rfl
    | cons line rest =>
      obtain ⟨_, -, hlisten⟩ := listen_of_isCut hcut
      rw [fromUTF8?_eq_none_of_forall_ne (hpieces line rfl)] at hlisten
      exact .inr hlisten
  rcases hlisten with hlisten | hlisten
  · simp only [Conversation.turn, hlisten]
  · simp only [Conversation.turn, hlisten]

/-- A line that is read is answered, and the conversation goes on behind it. -/
theorem turn_of_isRead_cons (h : IsRead unread (text :: texts)) (printed : String) :
    ∃ rest, IsRead rest texts ∧ Conversation.turn settings ⟨printed, some unread⟩ =
      ⟨printed ++ prompt ++ replyToTyped settings text, some rest⟩ := by
  obtain ⟨pieces, hcut, hpieces⟩ := h
  obtain ⟨rest, hrest, hlisten⟩ := listen_of_isCut hcut
  rw [fromUTF8?_encoded] at hlisten
  exact ⟨rest, ⟨pieces, hrest, hpieces⟩, by simp only [Conversation.turn, hlisten]⟩

/-- What is printed for some lines that are read: a prompt and an answer for each. -/
def exchanges (settings : Settings) (texts : List String) : String :=
  String.join (texts.map fun text => prompt ++ replyToTyped settings text)

theorem exchanges_append (settings : Settings) (front back : List String) :
    exchanges settings (front ++ back) = exchanges settings front ++ exchanges settings back := by
  rw [exchanges, List.map_append, String.join_append]
  rfl

/-- A turn for each line and one more turn bring a conversation to its end. -/
theorem iterate_turn (h : IsRead unread texts) (printed : String) :
    (Conversation.turn settings)^[texts.length + 1] ⟨printed, some unread⟩ =
      ⟨printed ++ exchanges settings texts ++ prompt ++ "\n", none⟩ := by
  induction texts generalizing unread printed with
  | nil =>
    rw [List.length_nil, Function.iterate_one, turn_of_isRead_nil h]
    simp [exchanges]
  | cons text more ih =>
    obtain ⟨rest, hrest, hturn⟩ := turn_of_isRead_cons h printed
    rw [List.length_cons, Function.iterate_succ_apply, hturn, ih hrest]
    simp [exchanges, String.append_assoc]

/-! ## Runs -/

variable {options arguments : List String} {readFile : String → Option ByteArray}
  {input : ByteArray}

theorem run_of_prompt (harguments : Command.ofArguments arguments = .prompt settings)
    (h : IsRead input.data.toList texts) :
    run readFile input arguments =
      .success (banner ++ exchanges settings texts ++ prompt ++ "\n") := by
  rw [run, harguments, Command.run, transcript, typedLines_eq_of_isRead h]
  rfl

/-- The response to a typed line is that to the line without the white space around it, if
there is anything left of it. -/
theorem replyToTyped_eq (settings : Settings) (text : String) :
    replyToTyped settings text = if Text.trim text.toList = [] then ""
      else reply settings (String.ofList (Text.trim text.toList)) := by
  rw [replyToTyped]
  cases Text.trim text.toList with
  | nil => rfl
  | cons c rest => rfl

/-- A conversation is answered line by line. With any settings that can be chosen, a
conversation succeeds. It consists of the banner, and then of a prompt for each line that is
read and what a run with the same settings prints for that line without the white space
around it, and of a last prompt and a line feed; carried on in turns, it ends after as many
turns as there are prompts. What stands from the first line on that is not text makes no
difference, and what stands in one line makes no difference to what is printed for the
others. -/
theorem conversation_is_answered_line_by_line (settings : Settings)
    (hone : 1 ≤ settings.nestingLimit) (hle : settings.nestingLimit ≤ Settings.ceiling) :
    (∃ options, AreOptions options settings) ∧
    ∀ options, AreOptions options settings → ∀ arguments,
      Command.ofArguments arguments = .prompt settings → ∀ readFile,
      let answer (text : String) : String :=
        if Text.trim text.toList = [] then "" else
          (run readFile .empty (options ++ ["--", String.ofList (Text.trim text.toList)])).output
      let answers (input : List UInt8) := run readFile ⟨input.toArray⟩ arguments
      (∀ input, ∃ texts, IsRead input texts ∧
        answers input = ⟨0, banner ++ String.join (texts.map fun text => prompt ++ answer text) ++
          prompt ++ "\n"⟩ ∧
        (Conversation.turn settings)^[texts.length + 1] ⟨banner, some input⟩ =
          ⟨(answers input).output, none⟩) ∧
      ∀ before : List String, (∀ text ∈ before, IsLine (encoded text)) → ∀ after,
        (∀ line, (∀ text, line ≠ encoded text) → (IsLine line ∨ 0x0A ∉ line ∧ after = []) →
          answers (before.flatMap encoded ++ line ++ after) = answers (before.flatMap encoded)) ∧
        ∃ opening closing, ∀ text, IsLine (encoded text) →
          answers (before.flatMap encoded ++ encoded text ++ after) =
            ⟨0, opening ++ prompt ++ answer text ++ closing⟩ := by
  refine ⟨exists_areOptions hone hle, fun options hoptions arguments harguments readFile => ?_⟩
  intro answer answers
  have hanswer : ∀ text, replyToTyped settings text = answer text := by
    intro text
    simp only [answer, hoptions.run_expression, replyToTyped_eq, Outcome.success]
  have hanswers : ∀ {input texts}, IsRead input texts →
      answers input = ⟨0, banner ++ exchanges settings texts ++ prompt ++ "\n"⟩ :=
    fun hread => run_of_prompt harguments hread
  refine ⟨fun input => ?_, fun before hbefore after => ⟨fun line hline hended => ?_, ?_⟩⟩
  · obtain ⟨texts, hread⟩ := exists_isRead input
    refine ⟨texts, hread, ?_, ?_⟩
    · simp only [hanswers hread, exchanges, hanswer]
    · rw [iterate_turn hread, hanswers hread]
  · have hread := (isRead_nil_of_forall_ne hline hended).append hbefore
    have hread' := isRead_nil.append hbefore
    rw [List.append_assoc, hanswers hread]
    rw [List.append_nil] at hread'
    rw [hanswers hread']
  · obtain ⟨texts, hread⟩ := exists_isRead after
    refine ⟨banner ++ exchanges settings before, exchanges settings texts ++ prompt ++ "\n",
      fun text htext => ?_⟩
    rw [List.append_assoc, hanswers ((hread.cons htext).append hbefore), exchanges_append,
      ← hanswer]
    simp [exchanges, String.append_assoc]

theorem conversation_is_answered_line_by_line_of_broken_line :
    let settings : Settings := ⟨1, false⟩
    let options := ["--max-depth", "1"]
    let arguments := ["--max-depth=01", "--"]
    let before := ["(- 5)\r\n", " \t\n"]
    let broken : List UInt8 := [0x37, 0xFF, 0x0A]
    let answers (input : List UInt8) := run (fun _ => none) ⟨input.toArray⟩ arguments
    AreOptions options settings ∧ Command.ofArguments arguments = .prompt settings ∧
      (∀ text ∈ before, IsLine (encoded text)) ∧ (∀ text, broken ≠ encoded text) ∧
      IsLine broken ∧ IsLine (encoded "((\n") ∧
      answers (before.flatMap encoded) = ⟨0, banner ++ "rlisp> 5\nrlisp> rlisp> \n"⟩ ∧
      (Conversation.turn settings)^[3] ⟨banner, some (before.flatMap encoded)⟩ =
        ⟨banner ++ "rlisp> 5\nrlisp> rlisp> \n", none⟩ ∧
      answers (before.flatMap encoded ++ broken ++ encoded "9\n") =
        answers (before.flatMap encoded) ∧
      ∃ opening closing,
        answers (before.flatMap encoded ++ encoded "((\n" ++ encoded "9\n") =
          ⟨0, opening ++ "rlisp> <stdin>:1:2: error: expressions nest deeper than 1 levels\n" ++
            closing⟩ := by
  intro settings options arguments before broken answers
  have hoptions : AreOptions options settings := ⟨by decide +kernel, by decide +kernel⟩
  have harguments : Command.ofArguments arguments = .prompt settings := by decide +kernel
  have hline : IsLine (encoded "((\n") := ⟨[0x28, 0x28], by decide, by decide +kernel⟩
  have hbefore : ∀ text ∈ before, IsLine (encoded text) :=
    List.forall_mem_cons.2 ⟨⟨encoded "(- 5)\r", by decide +kernel, by decide +kernel⟩,
      List.forall_mem_singleton.2 ⟨[0x20, 0x09], by decide, by decide +kernel⟩⟩
  have hbroken : ∀ text, broken ≠ encoded text := by
    have hnone : String.fromUTF8? ⟨broken.toArray⟩ = none := by decide +kernel
    intro text heq
    rw [fromUTF8?_eq_some_iff_encoded.2 heq] at hnone
    cases hnone
  have hended : IsLine broken := ⟨[0x37, 0xFF], by decide, rfl⟩
  obtain ⟨hread, hlines⟩ :=
    (conversation_is_answered_line_by_line settings (by decide) (by decide)).2 options hoptions
      arguments harguments fun _ => none
  obtain ⟨texts, htexts, hanswers, hturns⟩ := hread (before.flatMap encoded)
  obtain rfl : texts = before := by
    rw [← typedLines_eq_of_isRead (show IsRead (⟨(before.flatMap encoded).toArray⟩ :
      ByteArray).data.toList texts from htexts)]
    decide +kernel
  have hprinted : answers (before.flatMap encoded) = ⟨0, banner ++ "rlisp> 5\nrlisp> rlisp> \n"⟩ :=
    hanswers.trans (by decide +kernel)
  obtain ⟨hunread, opening, closing, hopening⟩ := hlines before hbefore (encoded "9\n")
  refine ⟨hoptions, harguments, hbefore, hbroken, hended, hline, hprinted, ?_, ?_, ?_⟩
  · have houtput := congrArg Outcome.output hprinted
    exact hturns.trans (congrArg (Conversation.mk · none) houtput)
  · exact hunread broken hbroken (.inl hended)
  · have hanswer : (run (fun _ => none) .empty (options ++ ["--", "(("])).output =
        "<stdin>:1:2: error: expressions nest deeper than 1 levels\n" := by decide +kernel
    have htrim : String.ofList (Text.trim "((\n".toList) = "((" := by decide +kernel
    refine ⟨opening, closing, (hopening "((\n" hline).trans ?_⟩
    have hne : Text.trim "((\n".toList ≠ [] := by decide +kernel
    have hprompt : prompt ++ "<stdin>:1:2: error: expressions nest deeper than 1 levels\n" =
        "rlisp> <stdin>:1:2: error: expressions nest deeper than 1 levels\n" := by decide +kernel
    simp only [if_neg hne, htrim, hanswer, ← hprompt, String.append_assoc]

end CommandLine

end PrefixCalc
