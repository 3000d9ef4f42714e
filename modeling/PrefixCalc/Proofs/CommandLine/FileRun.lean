/-
# Runs over a file

A run over a file can be had line by line: it prints what runs for its lines print, each of
them started with the same options and with one line as its expression. So a line that
fails, in whatever way, does not disturb the others, and a file may be cut where a line has
ended. Only a file that is not text throughout prints nothing at all.

The lines are those of `Text.IsLines`, which says how a text is made of them, and the
options those of `AreOptions`, in whatever spelling.
-/

import PrefixCalc.Proofs.CommandLine.Chosen
import PrefixCalc.Proofs.Text.Lines

namespace PrefixCalc

namespace CommandLine

variable {options arguments : List String} {settings : Settings} {path : String}
  {readFile : String → Option ByteArray} {input : ByteArray}

theorem run_of_file (harguments : Command.ofArguments arguments = .file path settings)
    {text : String} (hfile : readFile path = some text.toUTF8) :
    run readFile input arguments = .success (replyToFile settings text) := by
  rw [run, harguments, Command.run, runFile, hfile, Option.bind_some,
    Text.fromUTF8?_eq_some_iff.2 rfl]

theorem run_of_undecodable_file (harguments : Command.ofArguments arguments = .file path settings)
    {bytes : ByteArray} (hfile : readFile path = some bytes)
    (hbytes : ∀ text : String, bytes ≠ text.toUTF8) :
    run readFile input arguments = .unreadable := by
  rw [run, harguments, Command.run, runFile, hfile, Option.bind_some,
    Text.fromUTF8?_eq_none_iff.2 hbytes]

/-- Lines of white space add nothing to the response to a file. -/
theorem replyToFile_eq (settings : Settings) (text : String) :
    replyToFile settings text = String.join
      (((Text.lines text.toList).filter fun line => !line.all Text.isWhiteSpace).map
        fun line => reply settings (String.ofList line)) := by
  rw [replyToFile]
  induction Text.lines text.toList with
  | nil => rfl
  | cons line rest ih =>
    by_cases hblank : line.all Text.isWhiteSpace = true <;> simp [replyToFileLine, hblank, ih]

/-- A file is answered line by line. With any settings that can be chosen, a run over a text
succeeds and prints what runs with the same settings print for the lines of the text, one
after the other, without those that are white space. So the response to a text that is cut
behind a line feed is that to both parts. A file that is not encoded in UTF-8 throughout is
not answered at all. -/
theorem file_is_answered_line_by_line (settings : Settings) (hone : 1 ≤ settings.nestingLimit)
    (hle : settings.nestingLimit ≤ Settings.ceiling) :
    (∃ options, AreOptions options settings) ∧
    ∀ options, AreOptions options settings → ∀ path,
      Command.ofArguments (options ++ ["--file", "--", path]) = .file path settings ∧
      ∀ arguments, Command.ofArguments arguments = .file path settings → ∀ readFile input,
        (∀ text : String, readFile path = some text.toUTF8 →
          ∃ lines, Text.IsLines text.toList lines ∧
            run readFile input arguments = ⟨0, String.join
              ((lines.filter fun line => !line.all Text.isWhiteSpace).map fun line =>
                (run readFile input (options ++ ["--", String.ofList line])).output)⟩) ∧
        (∀ front back : String, (front = "" ∨ ∃ start, front = start ++ "\n") →
          let printed (text : String) := (run (fun _ => some text.toUTF8) input arguments).output
          printed (front ++ back) = printed front ++ printed back) ∧
        ∀ bytes, readFile path = some bytes → (∀ text : String, bytes ≠ text.toUTF8) →
          run readFile input arguments = ⟨1, ""⟩ := by
  refine ⟨exists_areOptions hone hle, fun options hoptions path =>
    ⟨hoptions.ofArguments_file path, fun arguments harguments readFile input => ⟨?_, ?_, ?_⟩⟩⟩
  · intro text hfile
    refine ⟨Text.lines text.toList, Text.isLines_iff.2 rfl, ?_⟩
    simp only [hoptions.run_expression]
    rw [run_of_file harguments hfile, replyToFile_eq]
    rfl
  · intro front back hfront
    have hended : ∀ c ∈ front.toList.getLast?, c = '\n' := by
      rcases hfront with rfl | ⟨start, rfl⟩
      · nofun
      · simp
    intro printed
    have hprinted : ∀ text, printed text = replyToFile settings text :=
      fun text => congrArg Outcome.output (run_of_file harguments rfl)
    rw [hprinted, hprinted, hprinted, replyToFile_append settings hended]
  · intro bytes hfile hbytes
    exact run_of_undecodable_file harguments hfile hbytes

theorem file_is_answered_line_by_line_of_failing_lines :
    let options := ["--max-depth=+02"]
    let arguments := ["-f", "--max-depth", "2", "script"]
    let text := "(+ 1 2)\r\n\u00a0 \n((\n(/ 1 0)\r"
    let undecodable : ByteArray := ⟨#[0x31, 0x0A, 0xFF]⟩
    let answers (content : ByteArray) := run (fun _ => some content) .empty arguments
    AreOptions options ⟨2, false⟩ ∧ Command.ofArguments arguments = .file "script" ⟨2, false⟩ ∧
      answers text.toUTF8 = ⟨0, String.join (["(+ 1 2)", "((", "(/ 1 0)\r"].map fun line =>
        (run (fun _ => some text.toUTF8) .empty (options ++ ["--", line])).output)⟩ ∧
      (answers text.toUTF8).output = "3\n<stdin>:1:3: error: unexpected end of input, " ++
        "expected ')'\nError: Division by zero.\n" ∧
      (answers ("((" ++ "\n" ++ "(- 5)").toUTF8).output =
        (answers ("((" ++ "\n").toUTF8).output ++ (answers "(- 5)".toUTF8).output ∧
      (∀ text : String, undecodable ≠ text.toUTF8) ∧ answers undecodable = ⟨1, ""⟩ := by
  intro options arguments text undecodable answers
  have hoptions : AreOptions options ⟨2, false⟩ := ⟨by decide +kernel, by decide +kernel⟩
  have harguments : Command.ofArguments arguments = .file "script" ⟨2, false⟩ := by decide +kernel
  have hbytes : ∀ text : String, undecodable ≠ text.toUTF8 :=
    Text.fromUTF8?_eq_none_iff.1 (by decide +kernel)
  have hlines : Text.lines text.toList =
      ["(+ 1 2)".toList, "\u00a0 ".toList, "((".toList, "(/ 1 0)\r".toList] := by decide +kernel
  have hfile := ((file_is_answered_line_by_line ⟨2, false⟩ (by decide) (by decide)).2 options
    hoptions "script").2 arguments harguments
  obtain ⟨lines, hisLines, hrun⟩ :=
    (hfile (fun _ => some text.toUTF8) .empty).1 text rfl
  rw [← Text.isLines_iff.1 hisLines, hlines] at hrun
  refine ⟨hoptions, harguments, hrun, ?_, ?_, hbytes, ?_⟩
  · decide +kernel
  · exact (hfile (fun _ => some text.toUTF8) .empty).2.1 _ "(- 5)" (.inr ⟨"((", rfl⟩)
  · exact (hfile (fun _ => some undecodable) .empty).2.2 undecodable rfl hbytes

end CommandLine

end PrefixCalc
