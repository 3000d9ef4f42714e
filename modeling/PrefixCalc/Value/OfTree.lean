/-
# The value of a syntax tree

A number node is read as a numeral, a symbol node is its content, and a container
is the expression of its significant children. Structural nodes stand for nothing
among the children of a container; the root of a tree is built from whatever kind it
is, even if it would be structural elsewhere.

`ofTree_container` is the equation that ties the two mutually recursive functions to
`SyntaxTree.significant`.
-/

import PrefixCalc.SyntaxTree.Basic
import PrefixCalc.Value.Basic

namespace PrefixCalc

namespace Value

/-- The value of a numeral. -/
def ofNumeral (text : String) : Value :=
  match Number.read? text with
  | some n => .number n
  | none => .failure (Cause.badLiteral text).failure

mutual

/-- The value that a syntax tree stands for. -/
def ofTree : SyntaxTree → Value
  | ⟨tag, content, children⟩ =>
    match NodeKind.ofTag tag with
    | .number => ofNumeral content
    | .symbol => .symbol content
    | .container => .expression (ofTrees children)
    | .unknown => .failure (Cause.unrecognizedNode tag).failure

/-- The values of those trees that are not structural. -/
def ofTrees : List SyntaxTree → List Value
  | [] => []
  | tree :: rest => if tree.IsStructural then ofTrees rest else ofTree tree :: ofTrees rest

end

theorem ofTrees_eq_map_filter (trees : List SyntaxTree) :
    ofTrees trees = (trees.filter fun tree => ¬ tree.IsStructural).map ofTree := by
  induction trees with
  | nil => simp [ofTrees]
  | cons tree rest ih => by_cases h : tree.IsStructural <;> simp [ofTrees, h, ih]

theorem ofTree_number {tree : SyntaxTree} (h : tree.kind = .number) :
    ofTree tree = ofNumeral tree.content := by
  obtain ⟨tag, content, children⟩ := tree
  rw [ofTree, show NodeKind.ofTag tag = .number from h]

theorem ofTree_symbol {tree : SyntaxTree} (h : tree.kind = .symbol) :
    ofTree tree = .symbol tree.content := by
  obtain ⟨tag, content, children⟩ := tree
  rw [ofTree, show NodeKind.ofTag tag = .symbol from h]

/-- A container is the expression of its significant children. -/
theorem ofTree_container {tree : SyntaxTree} (h : tree.kind = .container) :
    ofTree tree = .expression (tree.significant.map ofTree) := by
  obtain ⟨tag, content, children⟩ := tree
  rw [ofTree, show NodeKind.ofTag tag = .container from h, SyntaxTree.significant,
    ← ofTrees_eq_map_filter]

theorem ofTree_unknown {tree : SyntaxTree} (h : tree.kind = .unknown) :
    ofTree tree = .failure (Cause.unrecognizedNode tree.tag).failure := by
  obtain ⟨tag, content, children⟩ := tree
  rw [ofTree, show NodeKind.ofTag tag = .unknown from h]

end Value

end PrefixCalc
