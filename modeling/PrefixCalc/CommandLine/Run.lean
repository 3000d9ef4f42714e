/-
# Runs

A run of the program as a function of everything it can see: its arguments, the files
it may read and what is typed. Files and typed lines are bytes until they are decoded.

Every line is answered by itself, by `reply`, so that neither a file nor a conversation
carries anything from one line to the next. `replyToFile_append` says so for a file that is
cut where a line ends.

What is wrong with the arguments or the file is reported apart from the output. There is a
report exactly if the run fails (`reports_iff_fails`), and then there is no output.
-/

import PrefixCalc.Calculator
import PrefixCalc.CommandLine.Arguments
import PrefixCalc.CommandLine.Texts
import PrefixCalc.Text.Lines
import PrefixCalc.Text.WhiteSpace

namespace PrefixCalc

namespace CommandLine

/-- What is left of a run when it has ended. -/
structure Outcome where
  /-- Zero for success, one for a file that cannot be read, two for wrong arguments. -/
  exitCode : Nat
  /-- Everything that was printed. -/
  output : String
  deriving DecidableEq

namespace Outcome

/-- A run that printed a text and succeeded. -/
def success (output : String) : Outcome := ⟨0, output⟩

/-- A run that could not read its file. -/
def unreadable : Outcome := ⟨1, ""⟩

/-- A run that was refused its arguments. -/
def refused : Outcome := ⟨2, ""⟩

end Outcome

/-! ## Files -/

/-- The response to one line of a file: nothing, if there is only white space in it.
The line is evaluated as it stands. -/
def replyToFileLine (settings : Settings) (line : List Char) : String :=
  if line.all Text.isWhiteSpace then "" else reply settings (String.ofList line)

/-- The response to the text of a file: those to its lines, one after the other. -/
def replyToFile (settings : Settings) (text : String) : String :=
  String.join ((Text.lines text.toList).map (replyToFileLine settings))

/-- A file that is cut behind a line feed is answered part by part. -/
theorem replyToFile_append (settings : Settings) {front : String}
    (h : ∀ c ∈ front.toList.getLast?, c = '\n') (back : String) :
    replyToFile settings (front ++ back) =
      replyToFile settings front ++ replyToFile settings back := by
  simp [replyToFile, Text.lines_append h]

/-- Evaluate a file. A file that is not encoded in UTF-8 throughout is not evaluated at
all. -/
def runFile (settings : Settings) (bytes : Option ByteArray) : Outcome :=
  match bytes.bind String.fromUTF8? with
  | some text => .success (replyToFile settings text)
  | none => .unreadable

/-! ## Conversations -/

/-- The response to a line that was typed: nothing, if there is only white space in it.
White space around the line is taken away. -/
def replyToTyped (settings : Settings) (line : String) : String :=
  match Text.trim line.toList with
  | [] => ""
  | text => reply settings (String.ofList text)

/-- The lines that were typed, each with its line feed, up to the first that is not
encoded in UTF-8. -/
def typedLines (input : ByteArray) : List String :=
  let lines := Text.splitAfter (fun byte => byte = 0x0A) input.data.toList
  let decoded := lines.map fun line => String.fromUTF8? ⟨line.toArray⟩
  (decoded.takeWhile Option.isSome).filterMap id

/-- Everything that is printed in a conversation: a prompt before each line and before
the end, and a line feed to leave the last prompt. -/
def transcript (settings : Settings) (input : ByteArray) : String :=
  banner ++
    String.join ((typedLines input).map fun line => prompt ++ replyToTyped settings line) ++
    prompt ++ "\n"

/-! ## All commands -/

/-- Carry out a command. `readFile` gives the content of the files that can be read. -/
def Command.run (readFile : String → Option ByteArray) (input : ByteArray) : Command → Outcome
  | .help => .success helpText
  | .version => .success versionText
  | .refuse _ => .refused
  | .expression source settings => .success (reply settings source)
  | .file path settings => runFile settings (readFile path)
  | .prompt settings => .success (transcript settings input)

/-- What a command reports apart from its output. -/
def Command.report? (readFile : String → Option ByteArray) : Command → Option String
  | .refuse error => some error.message
  | .file path _ =>
    match (readFile path).bind String.fromUTF8? with
    | some _ => none
    | none => some ("Error: " ++ unreadableText path)
  | .help | .version | .expression _ _ | .prompt _ => none

/-- A command reports something exactly if it fails, and then prints nothing. -/
theorem Command.reports_iff_fails (readFile : String → Option ByteArray) (input : ByteArray)
    (command : Command) :
    ((command.report? readFile).isSome ↔ (command.run readFile input).exitCode ≠ 0) ∧
      ((command.report? readFile).isSome → (command.run readFile input).output = "") := by
  cases command with
  | help | version | expression _ _ | prompt _ => exact ⟨⟨nofun, absurd rfl⟩, nofun⟩
  | refuse error => exact ⟨⟨fun _ => Nat.succ_ne_zero 1, fun _ => rfl⟩, fun _ => rfl⟩
  | file path settings =>
      rw [report?, run, runFile]
      cases (readFile path).bind String.fromUTF8? with
      | some text => exact ⟨⟨nofun, absurd rfl⟩, nofun⟩
      | none => exact ⟨⟨fun _ => Nat.succ_ne_zero 0, fun _ => rfl⟩, fun _ => rfl⟩

/-- A run of the program. -/
def run (readFile : String → Option ByteArray) (input : ByteArray) (arguments : List String) :
    Outcome :=
  (Command.ofArguments arguments).run readFile input

end CommandLine

end PrefixCalc
