/-
# Editing syntax trees

Much of a syntax tree is only there to be shown. `Edit` is one change of such a part, at the
root or anywhere below it: a structural node is put among the children of another node or
taken away, a node that is no container has its children exchanged, or a container has its
content changed, in such a way that it stays structural or stays significant.

Trees of any tags and shapes may be edited, however often, and their value stays the same.
What a node stands for and whether it is structural are told from different things: a number
with a parenthesis for its content is structural among the children of another node, and is
read as a numeral where it is the root. The value has no more nodes than the tree, and nests
no more deeply than the tree has levels.
-/

import PrefixCalc.Evaluator
import PrefixCalc.Proofs.Value.OfProgram
import Mathlib.Logic.Relation

namespace PrefixCalc

namespace SyntaxTree

/-- One tree becomes another by a change of a part that stands for nothing. -/
inductive Edit : SyntaxTree → SyntaxTree → Prop
  | insert (tag content : String) (front back : List SyntaxTree) {node : SyntaxTree} :
      node.IsStructural → Edit ⟨tag, content, front ++ back⟩ ⟨tag, content, front ++ node :: back⟩
  | delete (tag content : String) (front back : List SyntaxTree) {node : SyntaxTree} :
      node.IsStructural → Edit ⟨tag, content, front ++ node :: back⟩ ⟨tag, content, front ++ back⟩
  | children {tag : String} (content : String) (children children' : List SyntaxTree) :
      NodeKind.ofTag tag ≠ .container → Edit ⟨tag, content, children⟩ ⟨tag, content, children'⟩
  | content {tag : String} (content content' : String) (children : List SyntaxTree) :
      NodeKind.ofTag tag = .container →
      (IsStructural ⟨tag, content, children⟩ ↔ IsStructural ⟨tag, content', children⟩) →
      Edit ⟨tag, content, children⟩ ⟨tag, content', children⟩
  | child (tag content : String) (front back : List SyntaxTree) {node node' : SyntaxTree} :
      Edit node node' →
      Edit ⟨tag, content, front ++ node :: back⟩ ⟨tag, content, front ++ node' :: back⟩

/-- One tree becomes another by any number of edits. -/
def Edits : SyntaxTree → SyntaxTree → Prop := Relation.ReflTransGen Edit

/-- Edited nodes stay among the structural ones, or among the significant ones. -/
theorem Edit.isStructural_iff {tree tree' : SyntaxTree} (h : Edit tree tree') :
    tree.IsStructural ↔ tree'.IsStructural := by
  cases h with
  | content content content' children _ hsame => exact hsame
  | insert | delete | children | child => exact Iff.rfl

/-! ## Measures -/

mutual

/-- The number of nodes of a tree. -/
def nodeCount : SyntaxTree → Nat
  | ⟨_, _, children⟩ => 1 + nodeCounts children

/-- The number of nodes of some trees. -/
def nodeCounts : List SyntaxTree → Nat
  | [] => 0
  | tree :: rest => tree.nodeCount + nodeCounts rest

end

mutual

/-- The number of levels of a tree; a leaf has one. -/
def levelCount : SyntaxTree → Nat
  | ⟨_, _, children⟩ => 1 + levelCounts children

/-- The greatest number of levels in some trees, zero if there are none. -/
def levelCounts : List SyntaxTree → Nat
  | [] => 0
  | tree :: rest => max tree.levelCount (levelCounts rest)

end

end SyntaxTree

namespace Value

open SyntaxTree (Edit Edits)

/-! ## Edited trees -/

theorem ofTrees_append (front back : List SyntaxTree) :
    ofTrees (front ++ back) = ofTrees front ++ ofTrees back := by
  simp [ofTrees_eq_map_filter]

theorem ofTrees_cons_of_isStructural {tree : SyntaxTree} (h : tree.IsStructural)
    (rest : List SyntaxTree) : ofTrees (tree :: rest) = ofTrees rest := by
  rw [ofTrees, if_pos h]

theorem ofTrees_cons_of_not_isStructural {tree : SyntaxTree} (h : ¬ tree.IsStructural)
    (rest : List SyntaxTree) : ofTrees (tree :: rest) = ofTree tree :: ofTrees rest := by
  rw [ofTrees, if_neg h]

/-- Children count for their values only. -/
theorem ofTree_congr {tag content : String} {children children' : List SyntaxTree}
    (h : ofTrees children = ofTrees children') :
    ofTree ⟨tag, content, children⟩ = ofTree ⟨tag, content, children'⟩ := by
  rw [ofTree, ofTree, h]

/-- An edit keeps the value. -/
theorem ofTree_eq_of_edit {tree tree' : SyntaxTree} (h : Edit tree tree') :
    ofTree tree = ofTree tree' := by
  induction h with
  | insert tag content front back hnode =>
      apply ofTree_congr
      rw [ofTrees_append, ofTrees_append, ofTrees_cons_of_isStructural hnode]
  | delete tag content front back hnode =>
      apply ofTree_congr
      rw [ofTrees_append, ofTrees_append, ofTrees_cons_of_isStructural hnode]
  | @children tag content children children' hkind =>
      rw [ofTree, ofTree]
      cases htag : NodeKind.ofTag tag with
      | container => exact absurd htag hkind
      | number | symbol | unknown => rfl
  | content content content' children hkind _ => rw [ofTree, ofTree, hkind]
  | @child tag content front back node node' hedit ih =>
      apply ofTree_congr
      rw [ofTrees_append, ofTrees_append]
      -- The edited child is skipped before and after, or its value is the same.
      by_cases hnode : node.IsStructural
      · rw [ofTrees_cons_of_isStructural hnode,
          ofTrees_cons_of_isStructural (hedit.isStructural_iff.1 hnode)]
      · rw [ofTrees_cons_of_not_isStructural hnode,
          ofTrees_cons_of_not_isStructural (mt hedit.isStructural_iff.2 hnode), ih]

/-- Any number of edits keeps the value. -/
theorem ofTree_eq_of_edits {tree tree' : SyntaxTree} (h : Edits tree tree') :
    ofTree tree = ofTree tree' := by
  induction h with
  | refl => rfl
  | tail _ hedit ih => exact ih.trans (ofTree_eq_of_edit hedit)

/-! ## The size of the value -/

/-- A tree stands for the expression of its children or for a leaf. -/
theorem ofTree_cases (tag content : String) (children : List SyntaxTree) :
    ofTree ⟨tag, content, children⟩ = .expression (ofTrees children) ∨
      (ofTree ⟨tag, content, children⟩).nodeCount = 1 ∧
        (ofTree ⟨tag, content, children⟩).depth = 0 := by
  rw [ofTree]
  cases NodeKind.ofTag tag with
  | container => exact .inl rfl
  | symbol => exact .inr ⟨nodeCount_symbol _, depth_symbol _⟩
  | unknown => exact .inr ⟨nodeCount_failure _, depth_failure _⟩
  | number =>
      refine .inr ⟨?_, depth_ofNumeral content⟩
      change (ofNumeral content).nodeCount = 1
      unfold ofNumeral
      split
      · exact nodeCount_number _
      · exact nodeCount_failure _

theorem nodeCounts_ofTrees_le {trees : List SyntaxTree}
    (h : ∀ tree ∈ trees, (ofTree tree).nodeCount ≤ tree.nodeCount) :
    nodeCounts (ofTrees trees) ≤ SyntaxTree.nodeCounts trees := by
  induction trees with
  | nil => exact Nat.le_of_eq nodeCounts_nil
  | cons tree rest ih =>
      obtain ⟨htree, hrest⟩ := List.forall_mem_cons.1 h
      have hcounts := ih hrest
      rw [SyntaxTree.nodeCounts]
      by_cases hstructural : tree.IsStructural
      · rw [ofTrees_cons_of_isStructural hstructural]
        omega
      · rw [ofTrees_cons_of_not_isStructural hstructural, nodeCounts_cons]
        omega

/-- A value has no more nodes than the tree that stands for it. -/
theorem nodeCount_ofTree_le (tree : SyntaxTree) : (ofTree tree).nodeCount ≤ tree.nodeCount := by
  induction tree with
  | node tag content children ih =>
      rw [SyntaxTree.nodeCount]
      rcases ofTree_cases tag content children with hexpression | ⟨hone, -⟩
      · rw [hexpression, nodeCount_expression]
        exact Nat.add_le_add_left (nodeCounts_ofTrees_le ih) 1
      · rw [hone]
        exact Nat.le_add_right 1 _

theorem depths_ofTrees_le {trees : List SyntaxTree}
    (h : ∀ tree ∈ trees, (ofTree tree).depth ≤ tree.levelCount) :
    depths (ofTrees trees) ≤ SyntaxTree.levelCounts trees := by
  induction trees with
  | nil => exact Nat.le_of_eq depths_nil
  | cons tree rest ih =>
      obtain ⟨htree, hrest⟩ := List.forall_mem_cons.1 h
      have hdepths := ih hrest
      rw [SyntaxTree.levelCounts]
      by_cases hstructural : tree.IsStructural
      · rw [ofTrees_cons_of_isStructural hstructural]
        exact Nat.le_trans hdepths (Nat.le_max_right _ _)
      · rw [ofTrees_cons_of_not_isStructural hstructural, depths_cons]
        exact Nat.max_le.2 ⟨Nat.le_trans htree (Nat.le_max_left _ _),
          Nat.le_trans hdepths (Nat.le_max_right _ _)⟩

/-- A value does not nest more deeply than the tree that stands for it has levels. -/
theorem depth_ofTree_le (tree : SyntaxTree) : (ofTree tree).depth ≤ tree.levelCount := by
  induction tree with
  | node tag content children ih =>
      rw [SyntaxTree.levelCount]
      rcases ofTree_cases tag content children with hexpression | ⟨-, hzero⟩
      · rw [hexpression, depth_expression]
        exact Nat.add_le_add_left (depths_ofTrees_le ih) 1
      · rw [hzero]
        exact Nat.zero_le _

/-- What is only there to be shown makes no difference. However often a tree is edited in
such parts, and wherever, its value stays the same, and so do the answer to it as a program
and the visits. The value is no larger than the tree: neither in nodes nor in levels. -/
theorem ofTree_ignores_edits :
    (∀ tree tree', Edits tree tree' →
      ofTree tree = ofTree tree' ∧
      ∀ evaluator : Evaluator,
        evaluator.evalProgram (ofTree tree) = evaluator.evalProgram (ofTree tree')) ∧
    ∀ tree, (ofTree tree).nodeCount ≤ tree.nodeCount ∧ (ofTree tree).depth ≤ tree.levelCount := by
  refine ⟨fun tree tree' hedits => ?_, fun tree => ?_⟩
  · have hvalue := ofTree_eq_of_edits hedits
    exact ⟨hvalue, fun evaluator => by rw [hvalue]⟩
  · exact ⟨nodeCount_ofTree_le tree, depth_ofTree_le tree⟩

theorem ofTree_ignores_edits_of_remainder :
    let percent (children : List SyntaxTree) : SyntaxTree := ⟨"expr|symbol|char", "%", children⟩
    let nine : SyntaxTree := ⟨"expr|number|regex", "9", []⟩
    let odd : SyntaxTree := ⟨"number|sexpr", ")", [nine]⟩
    let program (content : String) (items : List SyntaxTree) : SyntaxTree :=
      ⟨">", content, [⟨"expr|sexpr|>", "", items⟩]⟩
    let shown := program "" [⟨"char", "(", []⟩, percent [], nine, nine, ⟨"char", ")", []⟩]
    let edited := program "seen" [percent [nine], nine, odd, nine]
    Edits shown edited ∧
      ofTree shown = .expression [.expression [.symbol "%", .number 9, .number 9]] ∧
      ofTree shown = ofTree edited ∧ ofTree odd = .failure (Cause.badLiteral ")").failure ∧
      (Evaluator.mk 1 0).evalProgram (ofTree edited) = (.number 0, ⟨1, 3⟩) := by
  intro percent nine odd program shown edited
  have hopening : Edit shown (program "" [percent [], nine, nine, ⟨"char", ")", []⟩]) :=
    .child _ _ [] [] (.delete _ _ [] _ (.inl rfl))
  have hclosing : Edit (program "" [percent [], nine, nine, ⟨"char", ")", []⟩])
      (program "" [percent [], nine, nine]) :=
    .child _ _ [] [] (.delete _ _ [percent [], nine, nine] [] (.inr (.inl rfl)))
  have hodd : Edit (program "" [percent [], nine, nine])
      (program "" [percent [], nine, odd, nine]) :=
    .child _ _ [] [] (.insert _ _ [percent [], nine] [nine] (.inr (.inl rfl)))
  have hpercent : Edit (program "" [percent [], nine, odd, nine])
      (program "" [percent [nine], nine, odd, nine]) :=
    .child _ _ [] [] (.child _ _ [] _ (.children _ [] [nine] (by decide)))
  have hcontent : Edit (program "" [percent [nine], nine, odd, nine]) edited :=
    .content "" "seen" _ (by decide) (by decide)
  have hedits : Edits shown edited :=
    ((((Relation.ReflTransGen.single hopening).tail hclosing).tail hodd).tail hpercent).tail
      hcontent
  obtain ⟨hvalue, hanswer⟩ := ofTree_ignores_edits.1 shown edited hedits
  have hshown : ofTree shown = .expression [.expression [.symbol "%", .number 9, .number 9]] := by
    decide
  refine ⟨hedits, hshown, hvalue, by decide, ?_⟩
  rw [← hanswer, hshown]
  rfl

end Value

end PrefixCalc
