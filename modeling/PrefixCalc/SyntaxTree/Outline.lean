/-
# Outlines

The outline of a syntax tree shows one node a line, parents before children, each
level two spaces further in. A line shows the tag and, unless it is empty, the
content in quotes.

The outline is made in two steps, and each can be undone: `outlineFrom` lists the
nodes with their levels, and `OutlineLine.text` writes one of them.
-/

import PrefixCalc.SyntaxTree.Basic

namespace PrefixCalc

/-- One line of an outline: a node without its children, and how deep it lies. -/
structure OutlineLine where
  /-- The number of nodes above it. -/
  level : Nat
  /-- The node's tag. -/
  tag : String
  /-- The node's content. -/
  content : String
  deriving DecidableEq

/-- How a line is written, up to its line feed. -/
def OutlineLine.text (line : OutlineLine) : String :=
  String.ofList (List.replicate (2 * line.level) ' ') ++ line.tag ++
    if line.content = "" then "" else " '" ++ line.content ++ "'"

namespace SyntaxTree

mutual

/-- The lines of a tree whose root lies at `level`. -/
def outlineFrom (level : Nat) : SyntaxTree → List OutlineLine
  | ⟨tag, content, children⟩ => ⟨level, tag, content⟩ :: outlinesFrom (level + 1) children

/-- The lines of some trees that lie side by side at `level`. -/
def outlinesFrom (level : Nat) : List SyntaxTree → List OutlineLine
  | [] => []
  | tree :: rest => outlineFrom level tree ++ outlinesFrom level rest

end

@[simp] theorem outlineFrom_mk (level : Nat) (tag content : String)
    (children : List SyntaxTree) :
    outlineFrom level ⟨tag, content, children⟩ =
      ⟨level, tag, content⟩ :: outlinesFrom (level + 1) children := by rw [outlineFrom]

/-- Trees that lie side by side are outlined one after the other. -/
theorem outlinesFrom_eq_flatMap (level : Nat) (trees : List SyntaxTree) :
    outlinesFrom level trees = trees.flatMap (outlineFrom level) := by
  induction trees with
  | nil => rw [outlinesFrom, List.flatMap_nil]
  | cons tree rest ih => rw [outlinesFrom, ih, List.flatMap_cons]

/-- The lines of a whole tree. -/
def outlineLines (tree : SyntaxTree) : List OutlineLine := tree.outlineFrom 0

/-- The outline of a tree; every line ends with a line feed. -/
def outline (tree : SyntaxTree) : String :=
  String.join (tree.outlineLines.map fun line => line.text ++ "\n")

end SyntaxTree

end PrefixCalc
