/-
# Syntax trees

A syntax tree keeps a source text in full: besides atoms and lists it has a node
for each parenthesis and one for either end of the text. Every node has a tag, a
content and children. The type admits any tags and any shape, so that trees can
also be made by hand; the ones that stand for programs are `ofProgram`.

A tag lists the rules a node came from, separated by bars, and what a node stands
for is told from the names its tag mentions. Independently of that, parentheses and
ends of text are *structural*: they are there to be shown, and stand for nothing
among the children of another node.
-/

import PrefixCalc.SExpr.Basic

namespace PrefixCalc

/-- A node with its children. -/
structure SyntaxTree where
  /-- The rules the node came from. -/
  tag : String
  /-- The source text of a leaf; empty for a node with children. -/
  content : String
  /-- The nodes below it, in the order of the source text. -/
  children : List SyntaxTree := []

/-- What a node may stand for. -/
inductive NodeKind where
  | number
  | symbol
  | container
  | unknown
  deriving DecidableEq

/-! ## Tags -/

namespace Tag

/-- The tag of a whole program. -/
def root : String := ">"

/-- The tag of either end of a program. -/
def boundary : String := "regex"

/-- The tag of a numeral. -/
def numeral : String := "expr|number|regex"

/-- The tag of an operator. -/
def operator : String := "expr|symbol|char"

/-- The tag of a word. -/
def word : String := "expr|symbol|regex"

/-- The tag of a list. -/
def list : String := "expr|sexpr|>"

/-- The tag of a parenthesis. -/
def paren : String := "char"

/-- Whether one sequence of characters stands somewhere in another, without a gap. -/
def occursIn (part : List Char) : List Char → Bool
  | [] => part.isEmpty
  | c :: rest => part.isPrefixOf (c :: rest) || occursIn part rest

theorem occursIn_iff {part whole : List Char} : occursIn part whole ↔ part <:+: whole := by
  induction whole with
  | nil => simp [occursIn]
  | cons c rest ih => simp [occursIn, ih, List.infix_cons_iff]

/-- Whether a rule's name occurs in a tag. -/
def mentions (tag name : String) : Bool := occursIn name.toList tag.toList

end Tag

namespace NodeKind

/-- What a node with this tag stands for. Numbers are looked for first, then symbols,
then containers. -/
def ofTag (tag : String) : NodeKind :=
  if Tag.mentions tag "number" then .number
  else if Tag.mentions tag "symbol" then .symbol
  else if tag = Tag.root ∨ Tag.mentions tag "sexpr" then .container
  else .unknown

end NodeKind

namespace SyntaxTree

/-- Induction on syntax trees. The property may be assumed of a node's children. -/
@[induction_eliminator]
theorem recOn_children {motive : SyntaxTree → Prop}
    (node : ∀ tag content children, (∀ child ∈ children, motive child) →
      motive ⟨tag, content, children⟩) : ∀ tree, motive tree
  | ⟨tag, content, children⟩ =>
    node tag content children fun child _ => recOn_children node child

/-- What the node stands for. -/
def kind (tree : SyntaxTree) : NodeKind := NodeKind.ofTag tree.tag

/-- Whether the node is only there to be shown: a parenthesis or an end of the
text. -/
def IsStructural (tree : SyntaxTree) : Prop :=
  tree.content = "(" ∨ tree.content = ")" ∨ tree.tag = Tag.boundary

instance (tree : SyntaxTree) : Decidable tree.IsStructural :=
  inferInstanceAs (Decidable (_ ∨ _))

/-- The children that stand for something. -/
def significant (tree : SyntaxTree) : List SyntaxTree :=
  tree.children.filter fun child => ¬ child.IsStructural

/-! ## The tree of a program -/

/-- The end of a program on either side. -/
def boundary : SyntaxTree := ⟨Tag.boundary, "", []⟩

/-- The node of a parenthesis. -/
def paren (text : String) : SyntaxTree := ⟨Tag.paren, text, []⟩

/-- The tag of an atom's node. -/
def tagOfAtom : Atom → String
  | .numeral _ => Tag.numeral
  | .operator _ => Tag.operator
  | .word _ => Tag.word

mutual

/-- The tree of an s-expression: a leaf for an atom, and for a list a node whose first
and last children are its parentheses. -/
def ofSExpr : SExpr → SyntaxTree
  | .atom a => ⟨tagOfAtom a, a.text, []⟩
  | .list items => ⟨Tag.list, "", paren "(" :: (ofSExprs items ++ [paren ")"])⟩

/-- The trees of some s-expressions. -/
def ofSExprs : List SExpr → List SyntaxTree
  | [] => []
  | expr :: rest => ofSExpr expr :: ofSExprs rest

end

@[simp] theorem ofSExpr_atom (a : Atom) : ofSExpr (.atom a) = ⟨tagOfAtom a, a.text, []⟩ := by
  rw [ofSExpr]

@[simp] theorem ofSExpr_list (items : List SExpr) :
    ofSExpr (.list items) = ⟨Tag.list, "", paren "(" :: (ofSExprs items ++ [paren ")"])⟩ := by
  rw [ofSExpr]

@[simp] theorem ofSExprs_eq_map (items : List SExpr) : ofSExprs items = items.map ofSExpr := by
  induction items with
  | nil => rw [ofSExprs, List.map_nil]
  | cons expr rest ih => rw [ofSExprs, ih, List.map_cons]

/-- The tree of a program: its items between the two ends of the text. -/
def ofProgram (program : Program) : SyntaxTree :=
  ⟨Tag.root, "", boundary :: (ofSExprs program ++ [boundary])⟩

/-! ## Kinds of the tags in use -/

theorem ofTag_root : NodeKind.ofTag Tag.root = .container := by decide
theorem ofTag_list : NodeKind.ofTag Tag.list = .container := by decide
theorem ofTag_numeral : NodeKind.ofTag Tag.numeral = .number := by decide
theorem ofTag_operator : NodeKind.ofTag Tag.operator = .symbol := by decide
theorem ofTag_word : NodeKind.ofTag Tag.word = .symbol := by decide

/-- Numerals are the atoms that stand for numbers. -/
theorem ofTag_tagOfAtom (a : Atom) :
    NodeKind.ofTag (tagOfAtom a) = match a with
      | .numeral _ => .number
      | .operator _ | .word _ => .symbol := by
  cases a with
  | numeral => exact ofTag_numeral
  | operator => exact ofTag_operator
  | word => exact ofTag_word

end SyntaxTree

end PrefixCalc
