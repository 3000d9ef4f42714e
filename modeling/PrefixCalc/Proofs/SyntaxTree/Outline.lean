/-
# Reading outlines back

An outline says everything about its tree, as long as its lines can be told apart:
`IsPlain` asks that no tag is empty or has a space in it, and that no line feed stands in
any tag or content. Contents may have spaces and quotes in them.

`ofOutline?` reads the tree from the text. On a line the indentation gives the level, and
the first space behind it ends the tag. The nodes are put together from the last line to the
first: of the trees that were found so far, those up to the first that lies no deeper than a
line are the children of its node.
-/

import Mathlib
import PrefixCalc.Proofs.Text.Lines
import PrefixCalc.Proofs.Token.Longest
import PrefixCalc.Proofs.Value.OfProgram
import PrefixCalc.SyntaxTree.Outline

namespace PrefixCalc

/-- A node whose tag and content can be told from its line in an outline. -/
structure IsPlainNode (tag content : String) : Prop where
  /-- Behind the indentation there is something. -/
  tag_ne_empty : tag ≠ ""
  /-- The tag ends where a space stands. -/
  space_not_mem : ' ' ∉ tag.toList
  /-- The tag stays on its line. -/
  lineFeed_not_mem_tag : '\n' ∉ tag.toList
  /-- The content stays on its line. -/
  lineFeed_not_mem_content : '\n' ∉ content.toList

/-! ## Lines -/

namespace OutlineLine

/-- The line that is written like this, without a line feed. -/
def ofText (text : List Char) : OutlineLine :=
  let node := text.dropWhile (· = ' ')
  ⟨(text.takeWhile (· = ' ')).length / 2, String.ofList (node.takeWhile (· ≠ ' ')),
    String.ofList ((node.dropWhile (· ≠ ' ')).drop 2).dropLast⟩

/-- What stands on a line behind the tag. -/
def quoted (content : String) : List Char :=
  if content = "" then [] else ' ' :: '\'' :: (content.toList ++ ['\''])

theorem toList_text (line : OutlineLine) :
    line.text.toList =
      List.replicate (2 * line.level) ' ' ++ (line.tag.toList ++ quoted line.content) := by
  rw [text, quoted]
  split <;> simp

theorem head?_quoted (content : String) : ∀ c ∈ (quoted content).head?, c = ' ' := by
  rw [quoted]
  split <;> simp

theorem dropLast_drop_quoted (content : String) :
    String.ofList ((quoted content).drop 2).dropLast = content := by
  rw [quoted]
  split
  · next h => rw [h]; rfl
  · rw [List.drop_succ_cons, List.drop_succ_cons, List.drop_zero, List.dropLast_concat,
      String.ofList_toList]

/-- A plain node is read back from its line. -/
theorem ofText_text {line : OutlineLine} (h : IsPlainNode line.tag line.content) :
    ofText line.text.toList = line := by
  have hspace : ∀ c ∈ line.tag.toList, c ≠ ' ' := fun c hc heq => h.space_not_mem (heq ▸ hc)
  have hnode : ∀ c ∈ (line.tag.toList ++ quoted line.content).head?,
      decide (c = ' ') = false := by
    have hne : line.tag.toList ≠ [] := mt String.toList_eq_nil_iff.1 h.tag_ne_empty
    obtain ⟨c, rest, hchars⟩ := List.exists_cons_of_ne_nil hne
    rw [hchars]
    rintro _ ⟨⟩
    exact decide_eq_false (hspace c (by simp [hchars]))
  have hindent : (List.replicate (2 * line.level) ' ').all (· = ' ') := by simp
  have htag : line.tag.toList.all (· ≠ ' ') := by simpa using hspace
  have hquoted : ∀ c ∈ (quoted line.content).head?, decide (c ≠ ' ') = false := by
    simpa using head?_quoted line.content
  obtain ⟨hlevel, hrest⟩ := span_append hindent hnode
  obtain ⟨htake, hdrop⟩ := span_append htag hquoted
  rw [ofText, toList_text, hlevel, hrest, htake, hdrop, List.length_replicate,
    Nat.mul_div_cancel_left _ (by decide), String.ofList_toList, dropLast_drop_quoted]

theorem lineFeed_not_mem_text {line : OutlineLine} (h : IsPlainNode line.tag line.content) :
    '\n' ∉ line.text.toList := by
  have hquoted : '\n' ∉ quoted line.content := by
    rw [quoted]
    split
    · exact List.not_mem_nil
    · simpa using h.lineFeed_not_mem_content
  rw [toList_text, List.mem_append, List.mem_append, List.mem_replicate]
  rintro (⟨-, hspace⟩ | htag | hcontent)
  · exact absurd hspace (by decide)
  · exact h.lineFeed_not_mem_tag htag
  · exact hquoted hcontent

/-- The lines of a text in which every line ends with a line feed. -/
def ofLines (text : List Char) : List OutlineLine :=
  (Text.splitAfter (fun c => c = '\n') text).map fun piece => ofText piece.dropLast

/-- Lines of plain nodes are read back from the text that they make. -/
theorem ofLines_join {lines : List OutlineLine}
    (h : ∀ line ∈ lines, IsPlainNode line.tag line.content) :
    ofLines (String.join (lines.map fun line => line.text ++ "\n")).toList = lines := by
  have hcut : Text.IsCut (fun c => c = '\n')
      (String.join (lines.map fun line => line.text ++ "\n")).toList
      (lines.map fun line => line.text.toList ++ ['\n']) := by
    induction lines with
    | nil => exact .nil
    | cons line rest ih =>
        obtain ⟨hline, hrest⟩ := List.forall_mem_cons.1 h
        have hbody := Text.forall_not_iff_not_mem.2 (lineFeed_not_mem_text hline)
        have hcons := Text.IsCut.cons hbody (decide_eq_true rfl) (ih hrest)
        simpa using hcons
  rw [ofLines, Text.isCut_iff.1 hcut, List.map_map]
  refine (List.map_congr_left fun line hline => ?_).trans (List.map_id lines)
  rw [Function.comp_apply, List.dropLast_concat, ofText_text (h line hline), id]

end OutlineLine

namespace SyntaxTree

/-! ## Nodes -/

/-- Put a line in front of trees that are outlined behind it, each with the level of its
root. The trees that lie deeper, up to the first that does not, go below the line's node. -/
def place (line : OutlineLine) (trees : List (Nat × SyntaxTree)) : List (Nat × SyntaxTree) :=
  (line.level, ⟨line.tag, line.content,
    (trees.takeWhile fun tree => line.level < tree.1).map Prod.snd⟩) ::
    trees.dropWhile fun tree => line.level < tree.1

/-- The tree that is outlined like this, if the text is the outline of a single one. -/
def ofOutline? (text : String) : Option SyntaxTree :=
  match (OutlineLine.ofLines text.toList).foldr place [] with
  | [(_, tree)] => some tree
  | _ => none

/-- Trees side by side are put together one by one, if each of them is. -/
theorem foldr_place_outlinesFrom {trees : List SyntaxTree}
    (h : ∀ tree ∈ trees, ∀ (level : Nat) (after : List (Nat × SyntaxTree)),
      (∀ next ∈ after.head?, next.1 ≤ level) →
        (tree.outlineFrom level).foldr place after = (level, tree) :: after)
    {level : Nat} {after : List (Nat × SyntaxTree)}
    (hafter : ∀ next ∈ after.head?, next.1 ≤ level) :
    (outlinesFrom level trees).foldr place after =
      trees.map (fun tree => (level, tree)) ++ after := by
  induction trees with
  | nil => rw [outlinesFrom_eq_flatMap]; rfl
  | cons tree rest ih =>
      obtain ⟨htree, hrest⟩ := List.forall_mem_cons.1 h
      rw [outlinesFrom, List.foldr_append, ih hrest, htree, List.map_cons, List.cons_append]
      cases rest with
      | nil => exact hafter
      | cons next more =>
          rintro _ ⟨⟩
          exact Nat.le_refl level

/-- A tree is put together from its lines, if what is outlined behind it does not lie
deeper. -/
theorem foldr_place_outlineFrom (tree : SyntaxTree) (level : Nat)
    {after : List (Nat × SyntaxTree)} (hafter : ∀ next ∈ after.head?, next.1 ≤ level) :
    (tree.outlineFrom level).foldr place after = (level, tree) :: after := by
  induction tree generalizing level after with
  | node tag content children ih =>
      have hchildren : (outlinesFrom (level + 1) children).foldr place after =
          children.map (fun child => (level + 1, child)) ++ after :=
        foldr_place_outlinesFrom
          (fun child hchild level after hafter => ih child hchild level hafter)
          fun next hnext => Nat.le_succ_of_le (hafter next hnext)
      have hdeeper : (children.map fun child => (level + 1, child)).all
          fun child => decide (level < child.1) := by simp
      have hnotDeeper : ∀ next ∈ after.head?, decide (level < next.1) = false := by
        simpa using hafter
      -- The children are exactly the trees that `place` takes: the first that follows is too high.
      obtain ⟨htake, hdrop⟩ := span_append hdeeper hnotDeeper
      have hsame : (children.map fun child => (level + 1, child)).map Prod.snd = children := by
        rw [List.map_map]
        exact List.map_id children
      rw [outlineFrom_mk, List.foldr_cons, hchildren, place, htake, hdrop, hsame]

/-! ## Plain trees -/

/-- A tree of plain nodes. -/
inductive IsPlain : SyntaxTree → Prop
  | node {tag content : String} {children : List SyntaxTree} : IsPlainNode tag content →
      (∀ child ∈ children, IsPlain child) → IsPlain ⟨tag, content, children⟩

/-- Every line of a plain tree is that of a plain node. -/
theorem IsPlain.isPlainNode_of_mem {tree : SyntaxTree} (h : tree.IsPlain) {level : Nat} :
    ∀ line ∈ tree.outlineFrom level, IsPlainNode line.tag line.content := by
  induction h generalizing level with
  | node hnode _ ih =>
      rw [outlineFrom_mk, outlinesFrom_eq_flatMap, List.forall_mem_cons]
      refine ⟨hnode, fun line hline => ?_⟩
      obtain ⟨child, hchild, hline⟩ := List.mem_flatMap.1 hline
      exact ih child hchild line hline

theorem ofOutline?_outline {tree : SyntaxTree} (h : tree.IsPlain) :
    ofOutline? tree.outline = some tree := by
  have hlines : OutlineLine.ofLines tree.outline.toList = tree.outlineFrom 0 :=
    OutlineLine.ofLines_join h.isPlainNode_of_mem
  have hnone : ∀ next ∈ ([] : List (Nat × SyntaxTree)).head?, next.1 ≤ 0 := nofun
  rw [ofOutline?, hlines, foldr_place_outlineFrom tree 0 hnone]

/-- The tags in use have neither spaces nor line feeds. -/
theorem isPlainNode_of_mem {tag content : String}
    (htag : tag ∈ [Tag.root, Tag.boundary, Tag.numeral, Tag.operator, Tag.word, Tag.list,
      Tag.paren])
    (hcontent : '\n' ∉ content.toList) : IsPlainNode tag content := by
  have htags : ∀ tag ∈ [Tag.root, Tag.boundary, Tag.numeral, Tag.operator, Tag.word, Tag.list,
      Tag.paren], tag ≠ "" ∧ ' ' ∉ tag.toList ∧ '\n' ∉ tag.toList := by decide
  obtain ⟨hne, hspace, hlineFeed⟩ := htags tag htag
  exact ⟨hne, hspace, hlineFeed, hcontent⟩

theorem isPlain_leaf {tag content : String} (h : IsPlainNode tag content) :
    IsPlain ⟨tag, content, []⟩ :=
  .node h (List.forall_mem_nil _)

theorem isPlain_enclosed {tag : String} {opening closing : SyntaxTree} {items : List SyntaxTree}
    (htag : IsPlainNode tag "") (hopening : opening.IsPlain) (hclosing : closing.IsPlain)
    (hitems : ∀ item ∈ items, item.IsPlain) :
    IsPlain ⟨tag, "", opening :: (items ++ [closing])⟩ := by
  refine .node htag ?_
  rw [List.forall_mem_cons, List.forall_mem_append, List.forall_mem_singleton]
  exact ⟨hopening, hitems, hclosing⟩

/-- The trees of well-spelled s-expressions are plain. -/
theorem isPlain_ofSExpr {expr : SExpr} (h : ∀ token ∈ expr.tokens, token.isSpelled) :
    (ofSExpr expr).IsPlain := by
  induction expr with
  | atom a =>
      have ha : a.isSpelled := h (.atom a) (by simp)
      have htext : '\n' ∉ a.text.toList := fun hmem =>
        absurd (not_isBlank_of_isAtomPart (isAtomPart_of_mem ha hmem)).1 (by decide)
      rw [ofSExpr_atom]
      apply isPlain_leaf
      apply isPlainNode_of_mem _ htext
      cases a <;> simp [tagOfAtom]
  | list items ih =>
      have hparen : ∀ text ∈ ["(", ")"], IsPlain (paren text) := fun text htext =>
        isPlain_leaf (isPlainNode_of_mem (by simp) (by revert text; decide))
      rw [ofSExpr_list, ofSExprs_eq_map]
      apply isPlain_enclosed (isPlainNode_of_mem (by simp) (by decide)) (hparen "(" (by simp))
        (hparen ")" (by simp))
      rw [List.forall_mem_map]
      intro item hitem
      exact ih item hitem fun token htoken => h token (by simp [SExpr.mem_tokensOfAll hitem htoken])

/-- What is parsed is plain. -/
theorem isPlain_of_parse {limit : Nat} {source : String} {tree : SyntaxTree}
    (h : parse limit source = .ok tree) : tree.IsPlain := by
  obtain ⟨program, hprogram, rfl⟩ := parse_eq_ok_iff.1 h
  have hspelled := Program.isSpelled_of_parse hprogram
  have hboundary : IsPlain boundary := isPlain_leaf (isPlainNode_of_mem (by simp) (by decide))
  rw [ofProgram, ofSExprs_eq_map]
  apply isPlain_enclosed (isPlainNode_of_mem (by simp) (by decide)) hboundary hboundary
  rw [List.forall_mem_map]
  intro expr hexpr
  exact isPlain_ofSExpr fun token htoken => hspelled token (SExpr.mem_tokensOfAll hexpr htoken)

/-- An outline determines its tree, if the tree is plain: tags, contents, the order of
children and their nesting can all be read from the text. Whatever is parsed is plain. -/
theorem outline_determines_tree :
    (∀ limit source tree, parse limit source = .ok tree → tree.IsPlain) ∧
    (∀ tree : SyntaxTree, tree.IsPlain → ofOutline? tree.outline = some tree) ∧
    ∀ tree tree' : SyntaxTree, tree.IsPlain → tree'.IsPlain → tree.outline = tree'.outline →
      tree = tree' := by
  refine ⟨fun limit source tree hparse => isPlain_of_parse hparse,
    fun tree htree => ofOutline?_outline htree, fun tree tree' htree htree' houtline => ?_⟩
  have hread : some tree = some tree' := by
    rw [← ofOutline?_outline htree, houtline, ofOutline?_outline htree']
  exact Option.some_inj.1 hread

theorem outline_determines_tree_with_quotes :
    let parsed := ofProgram [.list [.atom (.operator .sub), .atom (.numeral "4")]]
    let written : SyntaxTree := ⟨">", "", [⟨"regex", "", []⟩, ⟨"expr|sexpr|>", "",
      [⟨"char", "(", []⟩, ⟨"expr|symbol|char", "-", []⟩, ⟨"expr|number|regex", "4", []⟩,
        ⟨"char", ")", []⟩]⟩, ⟨"regex", "", []⟩]⟩
    let quoting : SyntaxTree := ⟨"a|b", "it's  'so'", [⟨"c", " '", [⟨"d", "", []⟩]⟩, ⟨"d", "", []⟩]⟩
    parse 1 "(- 4)" = .ok parsed ∧ parsed.IsPlain ∧ written.IsPlain ∧
      parsed.outline = written.outline ∧ parsed = written ∧
      quoting.IsPlain ∧ quoting.outline = "a|b 'it's  'so''\n  c ' ''\n    d\n  d\n" ∧
      ofOutline? "a|b 'it's  'so''\n  c ' ''\n    d\n  d\n" = some quoting := by
  intro parsed written quoting
  obtain ⟨hparsePlain, hreads, hdetermines⟩ := outline_determines_tree
  have hparse : parse 1 "(- 4)" = .ok parsed := by cbv
  have hparsed : parsed.IsPlain := hparsePlain 1 "(- 4)" parsed hparse
  have hwritten : written.IsPlain := hparsed
  have houtline : parsed.outline = written.outline := by rfl
  have hquoting : quoting.IsPlain := by
    have hd : IsPlain ⟨"d", "", []⟩ :=
      isPlain_leaf ⟨by decide, by decide, by decide, by decide⟩
    have hc : IsPlain ⟨"c", " '", [⟨"d", "", []⟩]⟩ :=
      .node ⟨by decide, by decide, by decide, by decide⟩ (List.forall_mem_singleton.2 hd)
    refine .node ⟨by decide, by decide, by decide, by decide⟩ ?_
    exact List.forall_mem_cons.2 ⟨hc, List.forall_mem_singleton.2 hd⟩
  have htext : quoting.outline = "a|b 'it's  'so''\n  c ' ''\n    d\n  d\n" := by cbv
  have hread := hreads quoting hquoting
  rw [htext] at hread
  exact ⟨hparse, hparsed, hwritten, houtline, hdetermines parsed written hparsed hwritten houtline,
    hquoting, htext, hread⟩

end SyntaxTree

end PrefixCalc
