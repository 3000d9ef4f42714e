/-
# Values

A value is what the calculator computes on and what it answers with: a number, a
symbol, a failure, or an expression, which is a list of values. Values are trees
of any shape and depth; that an expression should start with an operator is a
matter for reduction, not for the type.

The module fixes the two measures of a value, its number of nodes and its depth of
nesting, and decides equality of values. `Value.recOn_items` is the induction
principle that proofs about values use: to prove a property of an expression, one
may assume it of the items.
-/

import PrefixCalc.Failure

namespace PrefixCalc

/-- A value of the calculator. -/
inductive Value where
  /-- A number stands for itself. -/
  | number (n : Number)
  /-- A symbol is the name of an operator, or of nothing. -/
  | symbol (name : String)
  /-- A failure stands for itself too. -/
  | failure (failure : Failure)
  /-- An expression is a list of values. -/
  | expression (items : List Value)

namespace Value

instance : Inhabited Value := ⟨.expression []⟩

/-- Induction on values. The case of an expression may assume the property of each item. -/
@[induction_eliminator]
theorem recOn_items {motive : Value → Prop}
    (number : ∀ n, motive (.number n))
    (symbol : ∀ name, motive (.symbol name))
    (failure : ∀ f, motive (.failure f))
    (expression : ∀ items, (∀ item ∈ items, motive item) → motive (.expression items)) :
    ∀ value, motive value
  | .number n => number n
  | .symbol name => symbol name
  | .failure f => failure f
  | .expression items =>
    expression items fun item _ => recOn_items number symbol failure expression item

/-! ## Items -/

/-- The items of an expression; a leaf has none. -/
def items : Value → List Value
  | .expression items => items
  | _ => []

@[simp] theorem items_number (n : Number) : (number n).items = [] := rfl
@[simp] theorem items_symbol (name : String) : (symbol name).items = [] := rfl
@[simp] theorem items_failure (f : Failure) : (failure f).items = [] := rfl
@[simp] theorem items_expression (vs : List Value) : (expression vs).items = vs := rfl

/-- The only item of an expression that has exactly one. -/
def soleItem? (value : Value) : Option Value :=
  match value.items with
  | [only] => some only
  | _ => none

theorem soleItem?_eq_some_iff {value only : Value} :
    value.soleItem? = some only ↔ value.items = [only] := by
  unfold soleItem?
  split
  · next item h => simp [h]
  · next h => simpa using h only

/-- An expression with one more item at its end. Nothing can be put into a leaf. -/
def push? : Value → Value → Option Value
  | .expression items, item => some (.expression (items ++ [item]))
  | _, _ => none

/-- The expression that applies a symbol to a single value. -/
def wrap (name : String) (value : Value) : Value := .expression [.symbol name, value]

/-- The number that a value is. -/
def number? : Value → Option Number
  | .number n => some n
  | _ => none

/-- The failure that a value is. -/
def failure? : Value → Option Failure
  | .failure f => some f
  | _ => none

/-! ## Measures -/

mutual

/-- The number of nodes of a value, itself included. -/
def nodeCount : Value → Nat
  | .expression items => 1 + nodeCounts items
  | _ => 1

/-- The number of nodes of a list of values. -/
def nodeCounts : List Value → Nat
  | [] => 0
  | value :: rest => value.nodeCount + nodeCounts rest

end

mutual

/-- How deeply expressions nest in a value: a leaf has depth zero. -/
def depth : Value → Nat
  | .expression items => 1 + depths items
  | _ => 0

/-- The greatest depth in a list of values, zero if there are none. -/
def depths : List Value → Nat
  | [] => 0
  | value :: rest => max value.depth (depths rest)

end

@[simp] theorem nodeCount_number (n : Number) : (number n).nodeCount = 1 := by rw [nodeCount]; nofun
@[simp] theorem nodeCount_symbol (name : String) : (symbol name).nodeCount = 1 := by
  rw [nodeCount]; nofun
@[simp] theorem nodeCount_failure (f : Failure) : (failure f).nodeCount = 1 := by
  rw [nodeCount]; nofun
@[simp] theorem nodeCount_expression (vs : List Value) :
    (expression vs).nodeCount = 1 + nodeCounts vs := by rw [nodeCount]

@[simp] theorem nodeCounts_nil : nodeCounts [] = 0 := by rw [nodeCounts]
@[simp] theorem nodeCounts_cons (v : Value) (vs : List Value) :
    nodeCounts (v :: vs) = v.nodeCount + nodeCounts vs := by rw [nodeCounts]

/-- The nodes of two lists add up. -/
@[simp] theorem nodeCounts_append (front back : List Value) :
    nodeCounts (front ++ back) = nodeCounts front + nodeCounts back := by
  induction front with
  | nil => simp
  | cons v vs ih => simp [ih, Nat.add_assoc]

theorem one_le_nodeCount (value : Value) : 1 ≤ value.nodeCount := by
  cases value <;> simp

@[simp] theorem depth_number (n : Number) : (number n).depth = 0 := by rw [depth]; nofun
@[simp] theorem depth_symbol (name : String) : (symbol name).depth = 0 := by rw [depth]; nofun
@[simp] theorem depth_failure (f : Failure) : (failure f).depth = 0 := by rw [depth]; nofun
@[simp] theorem depth_expression (vs : List Value) : (expression vs).depth = 1 + depths vs := by
  rw [depth]

@[simp] theorem depths_nil : depths [] = 0 := by rw [depths]
@[simp] theorem depths_cons (v : Value) (vs : List Value) :
    depths (v :: vs) = max v.depth (depths vs) := by rw [depths]

/-- A bound on the depths of a list is a bound on each member's depth. -/
theorem depths_le_iff {vs : List Value} {bound : Nat} :
    depths vs ≤ bound ↔ ∀ v ∈ vs, v.depth ≤ bound := by
  induction vs with
  | nil => simp
  | cons v vs ih => rw [depths_cons, Nat.max_le, ih, List.forall_mem_cons]

/-! ## Equality -/

mutual

/-- Whether two values are the same tree. -/
def same : Value → Value → Bool
  | .number m, .number n => m == n
  | .symbol a, .symbol b => a == b
  | .failure f, .failure g => f == g
  | .expression vs, .expression ws => sameAll vs ws
  | _, _ => false

/-- Whether two lists of values are the same, member by member. -/
def sameAll : List Value → List Value → Bool
  | [], [] => true
  | v :: vs, w :: ws => same v w && sameAll vs ws
  | _, _ => false

end

mutual

theorem same_iff_eq (v w : Value) : same v w = true ↔ v = w := by
  cases v with
  | expression vs => cases w <;> simp [same, sameAll_iff_eq vs]
  | _ => cases w <;> simp [same]

theorem sameAll_iff_eq (vs ws : List Value) : sameAll vs ws = true ↔ vs = ws := by
  cases vs with
  | nil => cases ws <;> simp [sameAll]
  | cons v vs => cases ws <;> simp [sameAll, same_iff_eq v, sameAll_iff_eq vs]

end

instance : DecidableEq Value := fun v w => decidable_of_iff (same v w = true) (same_iff_eq v w)

end Value

end PrefixCalc
