/-
# Parsing by descent

A text may be parsed by functions that call one another as deeply as its lists nest, each of
which knows at which depth it is called and makes the nodes of the tree itself. The reader of
`SExpr.readOnto` keeps the open lists in a list of its own and makes no nodes.

`parseByDescent_eq_parse` says that both come to the same tree, or end with the same error at
the same column. The depth that is passed on is the number of open lists (`Follows`). Of the
exits of `parseItem` two are never taken, since its callers look at the next token first.
-/

import PrefixCalc.SyntaxTree.OfSource

namespace PrefixCalc

/-- What is left of some lexemes when at least one of them has been taken. -/
def Lexeme.Rest (lexemes : List Lexeme) : Type :=
  { rest : List Lexeme // rest.length < lexemes.length }

/-- What is left of some lexemes is left of longer ones. -/
def Lexeme.Rest.mono {lexemes longer : List Lexeme} (rest : Lexeme.Rest lexemes)
    (h : lexemes.length ≤ longer.length) : Lexeme.Rest longer :=
  ⟨rest.1, Nat.lt_of_lt_of_le rest.2 h⟩

namespace SyntaxTree

mutual

/-- Parse an item that stands inside `depth` lists. -/
def parseItem (limit endColumn depth : Nat) (lexemes : List Lexeme) :
    Except SyntaxError (SyntaxTree × Lexeme.Rest lexemes) :=
  match lexemes with
  | ⟨.atom a, _⟩ :: rest => .ok (⟨tagOfAtom a, a.text, []⟩, ⟨rest, Nat.lt_succ_self _⟩)
  | ⟨.leftParen, column⟩ :: rest => do
    let (tree, after) ← parseList limit endColumn (depth + 1) column rest
    return (tree, after.mono (Nat.le_succ _))
  | ⟨.rightParen, column⟩ :: _ => .error ⟨.unexpectedClosing, column⟩
  | [] => .error ⟨.expectedClosing, endColumn⟩
termination_by (lexemes.length, 0)

/-- Parse a list at nesting level `depth` behind its opening parenthesis, which stands at
`column`. -/
def parseList (limit endColumn depth column : Nat) (lexemes : List Lexeme) :
    Except SyntaxError (SyntaxTree × Lexeme.Rest lexemes) :=
  if limit < depth then .error ⟨.nestedTooDeeply limit, column⟩
  else parseChildren limit endColumn depth [paren "("] lexemes
termination_by (lexemes.length, 2)

/-- Parse a list at nesting level `depth` behind some of its children. -/
def parseChildren (limit endColumn depth : Nat) (children : List SyntaxTree)
    (lexemes : List Lexeme) : Except SyntaxError (SyntaxTree × Lexeme.Rest lexemes) :=
  match lexemes with
  | ⟨.rightParen, _⟩ :: rest =>
    .ok (⟨Tag.list, "", children ++ [paren ")"]⟩, ⟨rest, Nat.lt_succ_self _⟩)
  | lexeme :: rest => do
    let (child, between) ← parseItem limit endColumn depth (lexeme :: rest)
    let (tree, after) ← parseChildren limit endColumn depth (children ++ [child]) between.1
    return (tree, after.mono (Nat.le_of_lt between.2))
  | [] => .error ⟨.expectedClosing, endColumn⟩
termination_by (lexemes.length, 1)
decreasing_by
  · exact Prod.Lex.right _ Nat.one_pos
  · exact Prod.Lex.left _ _ between.2

end

/-- Parse a program behind some of its children. -/
def parseTopLevel (limit endColumn : Nat) (children : List SyntaxTree) (lexemes : List Lexeme) :
    Except SyntaxError SyntaxTree :=
  match lexemes with
  | [] => .ok ⟨Tag.root, "", children ++ [boundary]⟩
  | ⟨.rightParen, column⟩ :: _ => .error ⟨.unexpectedClosing, column⟩
  | lexeme :: rest => do
    let (child, after) ← parseItem limit endColumn 0 (lexeme :: rest)
    parseTopLevel limit endColumn (children ++ [child]) after.1
termination_by lexemes.length
decreasing_by exact after.2

/-- Parse a source text by descent. -/
def parseByDescent (limit : Nat) (source : String) : Except SyntaxError SyntaxTree := do
  parseTopLevel limit (endColumn source) [boundary] (← Lexeme.lex source)

/-! ## Descent and open lists -/

variable {limit endColumn depth : Nat} {lexemes : List Lexeme}

/-- An item that is parsed is the next one that is read, in every state of reading with
`depth` open lists: reading goes on behind it with what is left, or ends with the same
error. -/
inductive Follows (limit endColumn depth : Nat)
    (read : List SExpr → List (List SExpr) → Except SyntaxError Program) {lexemes : List Lexeme} :
    Except SyntaxError (SyntaxTree × Lexeme.Rest lexemes) → Prop
  | item {expr : SExpr} {rest : Lexeme.Rest lexemes} :
      (∀ items enclosing, enclosing.length = depth →
        read items enclosing = SExpr.readOnto limit endColumn (expr :: items) enclosing rest.1) →
      Follows limit endColumn depth read (.ok (ofSExpr expr, rest))
  | error {error : SyntaxError} :
      (∀ items enclosing, enclosing.length = depth → read items enclosing = .error error) →
      Follows limit endColumn depth read (.error error)

variable {read read' : List SExpr → List (List SExpr) → Except SyntaxError Program}
  {result : Except SyntaxError (SyntaxTree × Lexeme.Rest lexemes)}

theorem Follows.congr (h : Follows limit endColumn depth read result)
    (hread : ∀ items enclosing, enclosing.length = depth →
      read' items enclosing = read items enclosing) :
    Follows limit endColumn depth read' result := by
  cases h with
  | item hitem =>
      exact .item fun items enclosing hdepth =>
        (hread items enclosing hdepth).trans (hitem items enclosing hdepth)
  | error herror =>
      exact .error fun items enclosing hdepth =>
        (hread items enclosing hdepth).trans (herror items enclosing hdepth)

theorem Follows.mono {longer : List Lexeme} (h : Follows limit endColumn depth read result)
    (hlength : lexemes.length ≤ longer.length) :
    Follows limit endColumn depth read
      (do let (tree, after) ← result; return (tree, after.mono hlength) :
        Except SyntaxError (SyntaxTree × Lexeme.Rest longer)) := by
  cases h with
  | item hitem => exact .item hitem
  | error herror => exact .error herror

/-- An item is parsed as it is read, where one begins. -/
def ItemFollows (limit endColumn depth : Nat) (lexemes : List Lexeme) : Prop :=
  ∀ lexeme rest, lexemes = lexeme :: rest → lexeme.token ≠ .rightParen →
    Follows limit endColumn depth
      (fun items enclosing => SExpr.readOnto limit endColumn items enclosing lexemes)
      (parseItem limit endColumn depth lexemes)

/-- A list is parsed as it is read from its opening parenthesis, with one open list less. -/
def ListFollows (limit endColumn depth column : Nat) (lexemes : List Lexeme) : Prop :=
  ∀ outside, depth = outside + 1 →
    Follows limit endColumn outside
      (fun items enclosing =>
        SExpr.readOnto limit endColumn items enclosing (⟨.leftParen, column⟩ :: lexemes))
      (parseList limit endColumn depth column lexemes)

/-- The rest of a list is parsed as it is read, where the children are the nodes of the items
in the innermost open list. -/
def ChildrenFollow (limit endColumn depth : Nat) (children : List SyntaxTree)
    (lexemes : List Lexeme) : Prop :=
  ∀ outside items, depth = outside + 1 → children = paren "(" :: items.reverse.map ofSExpr →
    Follows limit endColumn outside
      (fun outer enclosing => SExpr.readOnto limit endColumn items (outer :: enclosing) lexemes)
      (parseChildren limit endColumn depth children lexemes)

theorem itemFollows_leftParen {column : Nat} {rest : List Lexeme}
    (h : ListFollows limit endColumn (depth + 1) column rest) :
    ItemFollows limit endColumn depth (⟨.leftParen, column⟩ :: rest) := by
  intro _ _ _ _
  rw [parseItem]
  exact (h depth rfl).mono (Nat.le_succ _)

theorem listFollows_of_lt {column : Nat} (hlimit : limit < depth) :
    ListFollows limit endColumn depth column lexemes := by
  rintro outside rfl
  rw [parseList, if_pos hlimit]
  refine .error fun items enclosing hdepth => ?_
  rw [SExpr.readOnto, if_neg]
  omega

theorem listFollows_of_le {column : Nat} (hlimit : depth ≤ limit)
    (h : ChildrenFollow limit endColumn depth [paren "("] lexemes) :
    ListFollows limit endColumn depth column lexemes := by
  rintro outside rfl
  rw [parseList, if_neg (Nat.not_lt.2 hlimit)]
  refine (h outside [] rfl rfl).congr fun items enclosing hdepth => ?_
  rw [SExpr.readOnto, if_pos]
  omega

theorem childrenFollow_rightParen {children : List SyntaxTree} {column : Nat}
    {rest : List Lexeme} :
    ChildrenFollow limit endColumn depth children (⟨.rightParen, column⟩ :: rest) := by
  rintro outside items rfl rfl
  have htree : (⟨Tag.list, "", (paren "(" :: items.reverse.map ofSExpr) ++ [paren ")"]⟩ :
      SyntaxTree) = ofSExpr (.list items.reverse) := by
    rw [ofSExpr_list, ofSExprs_eq_map, List.cons_append]
  rw [parseChildren, htree]
  refine .item fun outer enclosing _ => ?_
  rw [SExpr.readOnto]

/-- The loop over the children: one item is parsed, and goes to the end of the children and to
the front of the items. -/
theorem childrenFollow_cons {children : List SyntaxTree} {lexeme : Lexeme} {rest : List Lexeme}
    (hlexeme : lexeme.token ≠ .rightParen)
    (hitem : ItemFollows limit endColumn depth (lexeme :: rest))
    (hrest : ∀ (child : SyntaxTree) (between : Lexeme.Rest (lexeme :: rest)),
      ChildrenFollow limit endColumn depth (children ++ [child]) between.1) :
    ChildrenFollow limit endColumn depth children (lexeme :: rest) := by
  rintro outside items rfl rfl
  have hfirst := hitem lexeme rest rfl hlexeme
  rw [parseChildren]
  · generalize parseItem limit endColumn (outside + 1) (lexeme :: rest) = result at hfirst
    cases hfirst with
    | error herror =>
        refine .error fun outer enclosing hdepth => herror items (outer :: enclosing) ?_
        rw [List.length_cons, hdepth]
    | @item expr between hexpr =>
        have hchildren : paren "(" :: items.reverse.map ofSExpr ++ [ofSExpr expr] =
            paren "(" :: (expr :: items).reverse.map ofSExpr := by simp
        have hafter := (hrest (ofSExpr expr) between outside (expr :: items) rfl hchildren).mono
          (Nat.le_of_lt between.2)
        refine hafter.congr fun outer enclosing hdepth => hexpr items (outer :: enclosing) ?_
        rw [List.length_cons, hdepth]
  · rintro column rfl
    exact hlexeme rfl

/-- The functions follow the reader, by induction along their calls. -/
theorem itemFollows (limit endColumn depth : Nat) (lexemes : List Lexeme) :
    ItemFollows limit endColumn depth lexemes := by
  refine (parseItem.mutual_induct limit (ItemFollows limit endColumn)
    (ListFollows limit endColumn) (ChildrenFollow limit endColumn)
    ?_ ?_ ?_ ?_ ?_ ?_ ?_ ?_ ?_).1 depth lexemes
  -- An item: an atom, a list, and the two exits that are not taken where an item begins.
  · rintro depth a column rest _ _ _ _
    rw [parseItem, ← ofSExpr_atom]
    refine .item fun items enclosing _ => ?_
    rw [SExpr.readOnto]
  · exact fun depth column rest h => itemFollows_leftParen h
  · rintro depth column rest _ _ ⟨⟩ hlexeme
    exact absurd rfl hlexeme
  · rintro depth _ _ ⟨⟩
  -- A list, beyond the limit and within it.
  · exact fun depth column lexemes hlimit => listFollows_of_lt hlimit
  · exact fun depth column lexemes hlimit h => listFollows_of_le (Nat.not_lt.1 hlimit) h
  -- The rest of a list: its end, one more child, and the end of the text.
  · exact fun depth children column rest => childrenFollow_rightParen
  · intro depth children lexeme rest hlexeme hitem hrest
    refine childrenFollow_cons (fun htoken => ?_) hitem hrest
    exact hlexeme lexeme.column (by rw [← htoken])
  · rintro depth children outside items rfl rfl
    rw [parseChildren]
    refine .error fun outer enclosing _ => ?_
    rw [SExpr.readOnto]

/-! ## Whole texts -/

/-- A program is parsed as it is read, behind the nodes of the items that have been read. -/
theorem parseTopLevel_eq_readOnto (items : List SExpr) (lexemes : List Lexeme) :
    parseTopLevel limit endColumn (boundary :: items.reverse.map ofSExpr) lexemes =
      (SExpr.readOnto limit endColumn items [] lexemes).map ofProgram := by
  generalize hchildren : boundary :: items.reverse.map ofSExpr = children
  induction children, lexemes using parseTopLevel.induct generalizing items with
  | case1 children =>
      subst hchildren
      rw [parseTopLevel, SExpr.readOnto, Except.map, ofProgram, ofSExprs_eq_map, List.cons_append]
  | case2 children column rest =>
      rw [parseTopLevel, SExpr.readOnto]
      rfl
  | case3 children lexeme rest hlexeme ih =>
      subst hchildren
      have hitem := itemFollows limit endColumn 0 (lexeme :: rest) lexeme rest rfl fun htoken =>
        hlexeme lexeme.column (by rw [← htoken])
      rw [parseTopLevel]
      · generalize parseItem limit endColumn 0 (lexeme :: rest) = result at hitem
        cases hitem with
        | error herror =>
            rw [herror items [] rfl]
            rfl
        | @item expr after hexpr =>
            rw [hexpr items [] rfl]
            exact ih (ofSExpr expr) after (expr :: items) (by simp)
      · exact hlexeme

/-- Parsing by descent comes to the same tree, or to the same error. -/
theorem parseByDescent_eq_parse (limit : Nat) (source : String) :
    parseByDescent limit source = parse limit source := by
  rw [parseByDescent, parse, Program.parse]
  cases Lexeme.lex source with
  | error error => rfl
  | ok lexemes => exact parseTopLevel_eq_readOnto [] lexemes

end SyntaxTree

end PrefixCalc
