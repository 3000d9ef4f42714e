/-
# The bound on nesting

No arguments lift the bound on nesting. A command that evaluates anything evaluates all of it
with one choice of settings, those that its arguments choose, and `Evaluates` says which
sources these are and what is printed for them. The limit among the settings is a permitted
one. Reading and evaluation stop at it, and so nothing that is built for a source goes deeper
than the ceiling. `BuildsWithin` also says that nothing else is built: what is printed for a
source is made of the tree within the bound, evaluated with the same limit.
-/

import Mathlib
import PrefixCalc.Proofs.CommandLine.Conversation
import PrefixCalc.Proofs.CommandLine.FileRun
import PrefixCalc.Proofs.NestingAgreement
import PrefixCalc.Proofs.SExpr.OpenLists
import PrefixCalc.Proofs.SyntaxTree.Leaves

namespace PrefixCalc

/-- A tree that was parsed nests no deeper than the limit. -/
theorem SyntaxTree.listDepth_le_of_parse {limit : Nat} {source : String} {tree : SyntaxTree}
    (h : SyntaxTree.parse limit source = .ok tree) : tree.listDepth ≤ limit := by
  obtain ⟨program, hprogram, rfl⟩ := parse_eq_ok_iff.1 h
  rw [listDepth_ofProgram]
  exact Program.depths_le_of_parse hprogram

/-- What is built for a source text stays within a bound, and what is printed for it is made
of the tree that is built. -/
structure BuildsWithin (bound : Nat) (settings : Settings) (source : String) : Prop where
  /-- In no state of reading are more lists open, and no item that has been read nests
  deeper. -/
  reading {lexemes rest : List Lexeme} {items : List SExpr} {enclosing : List (List SExpr)} :
    Lexeme.lex source = .ok lexemes →
    SExpr.Reading settings.nestingLimit lexemes items enclosing rest →
    (∀ column, SExpr.readOnto settings.nestingLimit column items enclosing rest =
      SExpr.read settings.nestingLimit column lexemes) ∧
    enclosing.length ≤ bound ∧ ∀ item ∈ items, (SyntaxTree.ofSExpr item).listDepth ≤ bound
  /-- The tree nests no deeper, and its value has one level more, that of its root. -/
  tree {tree : SyntaxTree} :
    SyntaxTree.parse settings.nestingLimit source = .ok tree →
    tree.listDepth ≤ bound ∧ (Value.ofTree tree).depth ≤ bound + 1
  /-- There is no other tree, and its value is evaluated with the same limit. -/
  evaluation : evaluate settings source =
    (SyntaxTree.parse settings.nestingLimit source).map fun tree =>
      ⟨((Evaluator.mk settings.nestingLimit 0).evalProgram (.ofTree tree)).1,
        if settings.showTrees then some (ShownTrees.ofTree tree) else none⟩
  /-- A diagnostic is printed if there is no tree, and else the answer to its value, behind
  the tree and the value if trees are shown. -/
  printed : reply settings source =
    match SyntaxTree.parse settings.nestingLimit source with
    | .error error => error.message ++ "\n"
    | .ok tree =>
      (if settings.showTrees then
        tree.outline ++ ((Value.ofTree tree).soleItem?.getD (.ofTree tree)).display ++ "\n"
      else "") ++
        ((Evaluator.mk settings.nestingLimit 0).evalProgram (.ofTree tree)).1.render ++ "\n"

theorem buildsWithin {bound : Nat} {settings : Settings} (h : settings.nestingLimit ≤ bound)
    (source : String) : BuildsWithin bound settings source where
  reading _ hreading := by
    obtain ⟨hopen, hitems⟩ := hreading.le_limit
    refine ⟨fun _ => hreading.readOnto_eq, hopen.trans h, fun item hitem => ?_⟩
    rw [SyntaxTree.listDepth_ofSExpr]
    exact (hitems item hitem).trans h
  tree htree := by
    have hvalue := SyntaxTree.depth_le_of_parse htree
    exact ⟨(SyntaxTree.listDepth_le_of_parse htree).trans h, by omega⟩
  evaluation := evaluate_eq_map settings source
  printed := reply_eq settings source

namespace CommandLine

open Text

/-- A command evaluates some sources one after the other, all of them with the same
settings, and what is printed for them makes an outcome. -/
inductive Evaluates (readFile : String → Option ByteArray) (input : ByteArray) :
    Command → Settings → List String → Outcome → Prop
  /-- An expression is evaluated as it stands. -/
  | expression (source : String) (settings : Settings) :
      Evaluates readFile input (.expression source settings) settings [source]
        ⟨0, reply settings source⟩
  /-- Of a file, if it is a text, the lines are evaluated that are not white space. -/
  | file {path text : String} {lines : List (List Char)} (settings : Settings) :
      readFile path = some text.toUTF8 → IsLines text.toList lines →
      Evaluates readFile input (.file path settings) settings
        ((lines.filter fun line => !line.all isWhiteSpace).map String.ofList)
        ⟨0, String.join ((lines.filter fun line => !line.all isWhiteSpace).map fun line =>
          reply settings (String.ofList line))⟩
  /-- Of what is typed, the lines are evaluated that are read, without the white space
  around them, if anything is left of them. -/
  | prompt {texts : List String} (settings : Settings) :
      IsRead input.data.toList texts →
      Evaluates readFile input (.prompt settings) settings
        (((texts.map fun text => trim text.toList).filter fun text => text ≠ []).map String.ofList)
        ⟨0, banner ++ String.join (texts.map fun text => prompt ++
          if trim text.toList = [] then ""
          else reply settings (String.ofList (trim text.toList))) ++ prompt ++ "\n"⟩

variable {readFile : String → Option ByteArray} {input : ByteArray} {arguments : List String}
  {command : Command} {settings : Settings} {sources : List String} {outcome : Outcome}

theorem Evaluates.settings?_eq (h : Evaluates readFile input command settings sources outcome) :
    command.settings? = some settings := by
  cases h with
  | expression source settings => rfl
  | file settings hfile hlines => rfl
  | prompt settings hread => rfl

/-- A run comes to what is printed for the sources that its command evaluates. -/
theorem Evaluates.run_eq
    (h : Evaluates readFile input (Command.ofArguments arguments) settings sources outcome) :
    run readFile input arguments = outcome := by
  generalize harguments : Command.ofArguments arguments = command at h
  cases h with
  | expression source settings =>
    rw [run, harguments]
    rfl
  | file settings hfile hlines =>
    rw [run_of_file harguments hfile, replyToFile_eq, isLines_iff.1 hlines]
    rfl
  | prompt settings hread =>
    rw [run_of_prompt harguments hread]
    simp only [exchanges, replyToTyped_eq]
    rfl

/-- A command that evaluates nothing prints a fixed text, or nothing at all. -/
theorem Command.run_mem_of_not_evaluates
    (h : ¬ ∃ settings sources outcome, Evaluates readFile input command settings sources outcome) :
    command.run readFile input ∈
      [⟨2, ""⟩, ⟨1, ""⟩, ⟨0, helpText⟩, (⟨0, versionText⟩ : Outcome)] := by
  cases command with
  | help => simp [Command.run, Outcome.success]
  | version => simp [Command.run, Outcome.success]
  | refuse error => simp [Command.run, Outcome.refused]
  | expression source settings => exact absurd ⟨_, _, _, .expression source settings⟩ h
  | file path settings =>
    have hbytes : ∀ bytes ∈ readFile path, ∀ text : String, bytes ≠ text.toUTF8 := by
      rintro _ hfile text rfl
      exact h ⟨_, _, _, .file settings hfile (isLines_iff.2 rfl)⟩
    have hunreadable : runFile settings (readFile path) = .unreadable := by
      cases hfile : readFile path with
      | none => rfl
      | some bytes =>
        rw [runFile, Option.bind_some, fromUTF8?_eq_none_iff.2 (hbytes bytes hfile)]
    rw [Command.run, hunreadable]
    simp [Outcome.unreadable]
  | prompt settings =>
    obtain ⟨texts, hread⟩ := exists_isRead input.data.toList
    exact absurd ⟨_, _, _, .prompt settings hread⟩ h

/-- No arguments lift the bound on nesting. Whatever the arguments, the files and the typed
lines are, either nothing is evaluated, or everything that is evaluated is evaluated with the
same settings. These show trees if and only if the arguments say so. Their nesting limit is
the one that the arguments give, or the usual one, and always one of the permitted limits, so
that it is never lowered to the ceiling. Hence nothing that is built for any of the sources
nests deeper than the ceiling, and what is printed for them is made of that alone. -/
theorem nesting_is_bounded_for_all_arguments (readFile : String → Option ByteArray)
    (input : ByteArray) (arguments : List String) :
    ((∀ settings sources outcome,
        ¬ Evaluates readFile input (Command.ofArguments arguments) settings sources outcome) ∧
      run readFile input arguments ∈
        [⟨2, ""⟩, ⟨1, ""⟩, ⟨0, helpText⟩, (⟨0, versionText⟩ : Outcome)]) ∨
    ∃ settings sources,
      Evaluates readFile input (Command.ofArguments arguments) settings sources
        (run readFile input arguments) ∧
      (∃ items, Spells arguments items) ∧
      (∀ items, Spells arguments items → Chooses items settings) ∧
      1 ≤ settings.nestingLimit ∧ settings.nestingLimit ≤ 1024 ∧
      (∀ base : Settings,
        (base.withNestingLimit settings.nestingLimit).nestingLimit = settings.nestingLimit) ∧
      ∀ source ∈ sources, BuildsWithin 1024 settings source := by
  by_cases h : ∃ settings sources outcome,
      Evaluates readFile input (Command.ofArguments arguments) settings sources outcome
  · right
    obtain ⟨settings, sources, outcome, hevaluates⟩ := h
    obtain ⟨hspells, hchooses, hone, hle⟩ := chooses_of_settings? hevaluates.settings?_eq
    exact ⟨settings, sources, hevaluates.run_eq.symm ▸ hevaluates, hspells, hchooses, hone, hle,
      fun base => base.nestingLimit_withNestingLimit_of_le hle,
      fun source _ => buildsWithin hle source⟩
  · left
    exact ⟨fun settings sources outcome hevaluates => h ⟨settings, sources, outcome, hevaluates⟩,
      Command.run_mem_of_not_evaluates h⟩

/-- A limit beyond the ceiling is refused and not lowered, in whatever spelling. -/
example : run (fun _ => none) .empty ["-t", "--max-depth=+01025", "--", "1"] = .refused := by
  decide +kernel

end CommandLine

end PrefixCalc
