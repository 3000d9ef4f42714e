/-
# The calculator

From a source text to an answer: the text is parsed, the tree gives a value, and the
value is reduced as a program. One nesting limit holds for both the parentheses of
the text and the expressions of the value.

`evaluate` gives the parts of the answer; `reply` is what a user sees of them. Both are
made of the tree of the text and of nothing else, as `evaluate_eq_map` and `reply_eq` say.
-/

import PrefixCalc.Evaluator
import PrefixCalc.SyntaxTree.Outline
import PrefixCalc.SyntaxTree.OfSource
import PrefixCalc.Value.OfTree
import PrefixCalc.Value.Printer

namespace PrefixCalc

/-- The trees of an input, as they are shown. -/
structure ShownTrees where
  /-- The outline of the syntax tree. -/
  syntaxTree : String
  /-- The display of the value before it was reduced. -/
  valueTree : String
  deriving DecidableEq

/-- The answer to a source text that could be parsed. -/
structure Evaluation where
  /-- A number or a failure. -/
  value : Value
  /-- The trees of the input, if they are to be shown. -/
  trees : Option ShownTrees

namespace Evaluation

/-- The answer as text. -/
def output (evaluation : Evaluation) : String := evaluation.value.render

/-- Everything a user sees: the trees, if shown, and the answer, each ending its
line. -/
def shown (evaluation : Evaluation) : String :=
  match evaluation.trees with
  | some trees => trees.syntaxTree ++ trees.valueTree ++ "\n" ++ evaluation.output ++ "\n"
  | none => evaluation.output ++ "\n"

end Evaluation

/-- The trees of a program. A program of one item is shown as that item. -/
def ShownTrees.ofTree (tree : SyntaxTree) : ShownTrees :=
  let root := Value.ofTree tree
  ⟨tree.outline, (root.soleItem?.getD root).display⟩

/-- Parse and evaluate a source text. -/
def evaluate (settings : Settings) (source : String) : Except SyntaxError Evaluation := do
  let tree ← SyntaxTree.parse settings.nestingLimit source
  let root := Value.ofTree tree
  return {
    value := ((Evaluator.ofSettings settings).evalProgram root).1
    trees := if settings.showTrees then some (ShownTrees.ofTree tree) else none }

/-- The answer to a text is made of the tree of the text. -/
theorem evaluate_eq_map (settings : Settings) (source : String) :
    evaluate settings source = (SyntaxTree.parse settings.nestingLimit source).map fun tree =>
      { value := ((Evaluator.ofSettings settings).evalProgram (Value.ofTree tree)).1
        trees := if settings.showTrees then some (ShownTrees.ofTree tree) else none } := by
  rw [evaluate]
  cases SyntaxTree.parse settings.nestingLimit source with
  | error error => rfl
  | ok tree => rfl

/-- The answer or the diagnostic for a source text, without trees. -/
def answer (settings : Settings) (source : String) : String :=
  match evaluate settings source with
  | .ok evaluation => evaluation.output
  | .error error => error.message

/-- Everything a user sees in response to a source text. -/
def reply (settings : Settings) (source : String) : String :=
  match evaluate settings source with
  | .ok evaluation => evaluation.shown
  | .error error => error.message ++ "\n"

/-- A user sees the diagnostic, or the trees of the text, if they are shown, and what its
value comes to as a program. -/
theorem reply_eq (settings : Settings) (source : String) :
    reply settings source =
      match SyntaxTree.parse settings.nestingLimit source with
      | .error error => error.message ++ "\n"
      | .ok tree =>
        (if settings.showTrees then
          tree.outline ++ ((Value.ofTree tree).soleItem?.getD (Value.ofTree tree)).display ++ "\n"
        else "") ++
          ((Evaluator.ofSettings settings).evalProgram (Value.ofTree tree)).1.render ++ "\n" := by
  rw [reply, evaluate_eq_map]
  cases SyntaxTree.parse settings.nestingLimit source with
  | error error => rfl
  | ok tree =>
      cases settings.showTrees with
      | true => rfl
      | false => exact congrArg (fun text => text ++ "\n") String.empty_append.symm

end PrefixCalc
