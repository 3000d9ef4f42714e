/-
# Addresses

An address is a path of item indices that leads from a value down to one of its nodes.
`nodeAt?` looks up the node at an address, and `replaceAt` puts another value in its
place. Items are counted from zero, so the operands of an expression are the items with
an index of one or more.
-/

import PrefixCalc.Value.Basic

namespace PrefixCalc

namespace Value

/-- The node at an address. An address is a path of item indices down from a value. -/
def nodeAt? (value : Value) : List Nat → Option Value
  | [] => some value
  | index :: rest => value.items[index]?.bind fun item => item.nodeAt? rest

theorem nodeAt?_append (value : Value) (front back : List Nat) :
    value.nodeAt? (front ++ back) = (value.nodeAt? front).bind fun node => node.nodeAt? back := by
  induction front generalizing value with
  | nil => rfl
  | cons index rest ih =>
      rw [List.cons_append, nodeAt?, nodeAt?, Option.bind_assoc]
      simp only [ih]

/-- The first step of an address leads to an item. -/
theorem nodeAt?_cons_eq_some_iff {value node : Value} {index : Nat} {rest : List Nat} :
    value.nodeAt? (index :: rest) = some node ↔
      ∃ items item, value = .expression items ∧ items[index]? = some item ∧
        item.nodeAt? rest = some node := by
  rw [nodeAt?, Option.bind_eq_some_iff]
  refine ⟨fun h => ?_, fun h => ?_⟩
  · obtain ⟨item, hitem, hnode⟩ := h
    cases value with
    | expression items => exact ⟨items, item, rfl, hitem, hnode⟩
    | number n => cases hitem
    | symbol name => cases hitem
    | failure f => cases hitem
  · obtain ⟨items, item, rfl, hitem, hnode⟩ := h
    exact ⟨item, hitem, hnode⟩

/-- Every step of an address leads one level down. -/
theorem length_add_depth_le_of_nodeAt? {value node : Value} {address : List Nat}
    (h : value.nodeAt? address = some node) : address.length + node.depth ≤ value.depth := by
  induction address generalizing value with
  | nil =>
      cases h
      exact Nat.le_of_eq (Nat.zero_add _)
  | cons index rest ih =>
      obtain ⟨items, item, rfl, hitem, hnode⟩ := nodeAt?_cons_eq_some_iff.1 h
      have hbelow := ih hnode
      have hdepth := depths_le_iff.1 (Nat.le_refl (depths items)) item
        (List.mem_of_getElem? hitem)
      rw [List.length_cons, depth_expression]
      omega

/-- The value with another node at an address. An address that leads nowhere changes
nothing. -/
def replaceAt (value : Value) (address : List Nat) (new : Value) : Value :=
  match address, value with
  | [], _ => new
  | index :: rest, .expression items =>
    .expression (items.modify index fun item => item.replaceAt rest new)
  | _ :: _, value => value

@[simp] theorem replaceAt_nil (value new : Value) : value.replaceAt [] new = new := by
  rw [replaceAt]

@[simp] theorem replaceAt_expression_cons (items : List Value) (index : Nat) (rest : List Nat)
    (new : Value) :
    (expression items).replaceAt (index :: rest) new =
      .expression (items.modify index fun item => item.replaceAt rest new) := by
  rw [replaceAt]

end Value

end PrefixCalc
