/-
# Arguments

The command line has options and at most one operand. Arguments are taken one after
the other, and the first that asks for help, asks for the version or is a mistake
decides; what stands behind it is not looked at. After a lone `--` every argument is
an operand.

`Command.ofArguments` says what is to be done. A nesting limit is taken only if it is
from one to the ceiling, which `mem_of_readLimit?` states; a limit that is given is
therefore never lowered to the ceiling, but refused above it.
-/

import PrefixCalc.Number
import PrefixCalc.Settings

namespace PrefixCalc

namespace CommandLine

/-- The options that take no value. -/
inductive Flag where
  /-- The operand is the path of a file with one expression a line. -/
  | file
  /-- Trees are shown. -/
  | tree
  /-- The help text is asked for. -/
  | help
  /-- The version is asked for. -/
  | version
  deriving DecidableEq

namespace Flag

/-- The name behind two hyphens. -/
def longName : Flag → String
  | .file => "file"
  | .tree => "tree"
  | .help => "help"
  | .version => "version"

/-- The flag with a long name. Names must be complete. -/
def ofLongName? (name : String) : Option Flag :=
  [file, tree, help, version].find? fun flag => flag.longName = name

/-- The letter behind a single hyphen. -/
def letter : Flag → Char
  | .file => 'f'
  | .tree => 't'
  | .help => 'h'
  | .version => 'V'

/-- The flag with a letter. -/
def ofLetter? (letter : Char) : Option Flag :=
  [file, tree, help, version].find? fun flag => flag.letter = letter

end Flag

/-- The long name of the option whose value is the nesting limit. -/
def limitOption : String := "max-depth"

/-- What can be wrong with an argument list. -/
inductive UsageError where
  /-- There is no such option. -/
  | unknownOption (option : String)
  /-- An option was given twice. -/
  | repeatedOption (option : String)
  /-- A flag was given a value. -/
  | unexpectedValue (option : String)
  /-- An option that needs a value has none. -/
  | missingValue (option : String)
  /-- The value is no nesting limit that may be chosen. -/
  | invalidLimit (text : String)
  /-- There are two operands. -/
  | extraOperand (operand : String)
  /-- A file is to be read, but there is no operand to name it. -/
  | missingPath
  deriving DecidableEq

/-- What is wrong, for the user. Nothing is laid down for these texts, and the wording is this
library's own; that a run with wrong arguments reports one of them is `reports_iff_fails`. -/
def UsageError.message : UsageError → String
  | .unknownOption option => "error: there is no option '" ++ option ++ "'"
  | .repeatedOption option => "error: the option '" ++ option ++ "' was given twice"
  | .unexpectedValue option => "error: the option '" ++ option ++ "' takes no value"
  | .missingValue option => "error: the option '" ++ option ++ "' needs a value"
  | .invalidLimit text => "error: '" ++ text ++ "' is not a nesting limit from 1 to " ++
    toString Settings.ceiling
  | .extraOperand operand => "error: there is no use for '" ++ operand ++ "'"
  | .missingPath => "error: there is no path to read"

/-- Why the arguments are not read to their end. -/
inductive Stop where
  /-- The help text is asked for. -/
  | help
  /-- The version is asked for. -/
  | version
  /-- An argument is a mistake. -/
  | misuse (error : UsageError)
  deriving DecidableEq

/-- What is known after some of the arguments. -/
structure Request where
  /-- Whether the operand is a path. -/
  file : Bool := false
  /-- Whether trees are shown. -/
  tree : Bool := false
  /-- The nesting limit, if one was given. -/
  limit : Option Nat := none
  /-- The operand, if there was one. -/
  operand : Option String := none
  deriving DecidableEq

/-- The nesting limit that a text gives: a numeral for one of the permitted limits. -/
def readLimit? (text : String) : Option Nat :=
  match Numeral.integer? text.toList with
  | some n => if 1 ≤ n ∧ n ≤ Settings.ceiling then some n.toNat else none
  | none => none

namespace Request

/-- Take a flag. -/
def addFlag (request : Request) : Flag → Except Stop Request
  | .file =>
    if request.file then .error (.misuse (.repeatedOption Flag.file.longName))
    else .ok { request with file := true }
  | .tree =>
    if request.tree then .error (.misuse (.repeatedOption Flag.tree.longName))
    else .ok { request with tree := true }
  | .help => .error .help
  | .version => .error .version

/-- Take the nesting limit. -/
def addLimit (request : Request) (text : String) : Except Stop Request :=
  match request.limit, readLimit? text with
  | none, some limit => .ok { request with limit := some limit }
  | none, none => .error (.misuse (.invalidLimit text))
  | some _, _ => .error (.misuse (.repeatedOption limitOption))

/-- Take the operand. -/
def addOperand (request : Request) (operand : String) : Except Stop Request :=
  match request.operand with
  | none => .ok { request with operand := some operand }
  | some _ => .error (.misuse (.extraOperand operand))

/-- Take the letters behind a single hyphen, each of which is a flag. -/
def addLetters (request : Request) (letters : List Char) : Except Stop Request :=
  letters.foldlM (fun request letter =>
    match Flag.ofLetter? letter with
    | some flag => request.addFlag flag
    | none => .error (.misuse (.unknownOption (String.singleton letter)))) request

/-- Take what stands behind two hyphens: a name and, after an equals sign, a value. -/
def addLong (request : Request) (option : List Char) : Except Stop Request :=
  let name := String.ofList (option.takeWhile fun c => c ≠ '=')
  match option.dropWhile fun c => c ≠ '=' with
  | [] =>
    match Flag.ofLongName? name with
    | some flag => request.addFlag flag
    | none =>
      if name = limitOption then .error (.misuse (.missingValue name))
      else .error (.misuse (.unknownOption name))
  | _ :: value =>
    if name = limitOption then request.addLimit (String.ofList value)
    else if (Flag.ofLongName? name).isSome then .error (.misuse (.unexpectedValue name))
    else .error (.misuse (.unknownOption name))

/-- Take one argument that stands for itself. A lone hyphen is an operand. -/
def addArgument (request : Request) (argument : String) : Except Stop Request :=
  match argument.toList with
  | '-' :: '-' :: option => request.addLong option
  | '-' :: letter :: letters => request.addLetters (letter :: letters)
  | _ => request.addOperand argument

/-- Take arguments from the left. The limit may be an argument of its own behind its
option, whatever it looks like. -/
def addArguments (request : Request) : List String → Except Stop Request
  | [] => .ok request
  | "--" :: operands => operands.foldlM addOperand request
  | "--max-depth" :: text :: rest => do addArguments (← request.addLimit text) rest
  | argument :: rest => do addArguments (← request.addArgument argument) rest

/-- The settings that were chosen. -/
def settings (request : Request) : Settings :=
  let base : Settings := ({} : Settings).withShowTrees request.tree
  match request.limit with
  | some limit => base.withNestingLimit limit
  | none => base

end Request

/-- What the program is asked to do. -/
inductive Command where
  /-- Show the help text. -/
  | help
  /-- Show the version. -/
  | version
  /-- Refuse the arguments. -/
  | refuse (error : UsageError)
  /-- Evaluate one expression. -/
  | expression (source : String) (settings : Settings)
  /-- Evaluate every line of a file. -/
  | file (path : String) (settings : Settings)
  /-- Evaluate what is typed, line by line. -/
  | prompt (settings : Settings)
  deriving DecidableEq

/-- What a complete request asks for. -/
def Request.command (request : Request) : Command :=
  match request.operand, request.file with
  | some path, true => .file path request.settings
  | some source, false => .expression source request.settings
  | none, true => .refuse .missingPath
  | none, false => .prompt request.settings

/-- What an argument list asks for. -/
def Command.ofArguments (arguments : List String) : Command :=
  match Request.addArguments {} arguments with
  | .ok request => request.command
  | .error .help => .help
  | .error .version => .version
  | .error (.misuse error) => .refuse error

/-! ## The nesting limit -/

/-- Only permitted limits are read. -/
theorem mem_of_readLimit? {text : String} {limit : Nat} (h : readLimit? text = some limit) :
    1 ≤ limit ∧ limit ≤ Settings.ceiling := by
  unfold readLimit? at h
  split at h
  · split at h
    · next hmem =>
      cases h
      omega
    · cases h
  · cases h

end CommandLine

end PrefixCalc
