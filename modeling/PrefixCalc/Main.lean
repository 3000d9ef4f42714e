/-
# The program

The outermost layer: it reads what a run may see, prints what the run prints, and
decides nothing. A conversation is carried on line by line, so that each answer
appears before the next line is typed.
-/

import PrefixCalc.CommandLine.Run

namespace PrefixCalc

namespace CommandLine

/-- The content of a file, if it can be read. -/
def readFile (path : String) : IO (Option ByteArray) := do
  try
    return some (← IO.FS.readBinFile path)
  catch _ =>
    return none

/-- Answer lines until there are no more, or one is not text. -/
partial def converse (settings : Settings) (input output : IO.FS.Stream) : IO Unit := do
  output.putStr prompt
  output.flush
  let line ←
    try input.getLine
    catch _ => pure ""
  if line.isEmpty then
    output.putStr "\n"
  else
    output.putStr (replyToTyped settings line)
    converse settings input output

/-- Print what a command prints and reports, given the file that it may read. -/
def finish (command : Command) (file : Option ByteArray) : IO UInt32 := do
  let outcome := command.run (fun _ => file) ByteArray.empty
  (← IO.getStdout).putStr outcome.output
  if let some report := command.report? fun _ => file then
    (← IO.getStderr).putStr (report ++ "\n")
  return outcome.exitCode.toUInt32

/-- Carry out a command with the files and the terminal at hand. -/
def perform : Command → IO UInt32
  | .prompt settings => do
    let output ← IO.getStdout
    output.putStr banner
    converse settings (← IO.getStdin) output
    return 0
  | .file path settings => do finish (.file path settings) (← readFile path)
  | command => finish command none

end CommandLine

end PrefixCalc

/-- Evaluate integer arithmetic in prefix form, as the arguments say. -/
def main (arguments : List String) : IO UInt32 :=
  PrefixCalc.CommandLine.perform (PrefixCalc.CommandLine.Command.ofArguments arguments)
