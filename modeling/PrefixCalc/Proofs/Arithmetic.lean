/-
# Arithmetic over the integers

`Operator.apply` looks at a checked integer, which for the remainder is the
quotient. Seen from the unbounded integers only three things can go wrong: the
divisor is zero, the exact result is no number, or the least number is divided by
minus one for its remainder, which would be zero. `Operator.Permits` lists them
without mentioning what is checked, and `apply_eq_ok_iff_permits` says that
nothing else goes wrong.
-/

import PrefixCalc.Arithmetic

namespace PrefixCalc

/-- The integers in range are the values of the numbers. -/
theorem Number.exists_toInt_eq {n : Int} (h : Number.InRange n) : ∃ m : Number, m.toInt = n :=
  ⟨Int64.ofInt n, Number.toInt_ofInt_of_inRange h⟩

namespace Operator

/-- Whether numbers may carry out an operation on two integers. -/
structure Permits (op : Operator) (left right : Int) : Prop where
  /-- Nothing is divided by zero. -/
  divisor : op.divides → right ≠ 0
  /-- The exact result is a number. -/
  result : Number.InRange (op.exact left right)
  /-- The one remainder that is refused although it would be a number. -/
  remainder : ¬ (op = rem ∧ left = -9223372036854775808 ∧ right = -1)

/-- A quotient of numbers leaves the range only where the least number is divided
by minus one. -/
theorem inRange_tdiv_iff {left right : Int} (hleft : Number.InRange left) (hright : right ≠ 0) :
    Number.InRange (left.tdiv right) ↔ ¬ (left = -9223372036854775808 ∧ right = -1) := by
  refine ⟨fun hrange hexcept => ?_, fun hexcept => ?_⟩
  · obtain ⟨rfl, rfl⟩ := hexcept
    exact absurd hrange (by decide)
  · have hnorm : (left.tdiv right).natAbs = left.natAbs / right.natAbs := Int.natAbs_tdiv left right
    unfold Number.InRange at *
    by_cases hunit : right = 1 ∨ right = -1
    · rcases hunit with rfl | rfl
      · simpa using hleft
      · have hneg : left.tdiv (-1) = -left := by rw [Int.tdiv_neg, Int.tdiv_one]
        omega
    · -- A divisor of at least two halves the quotient, which leaves room at both ends.
      have hhalf : left.natAbs / right.natAbs ≤ left.natAbs / 2 :=
        Nat.div_le_div_left (by omega) (by decide)
      omega

/-- What is checked before an operation on numbers is what the operation permits. -/
theorem permits_iff {op : Operator} {left right : Number} :
    op.Permits left.toInt right.toInt ↔
      ¬ (op.divides ∧ right = 0) ∧ Number.InRange (op.checked left.toInt right.toInt) := by
  have hzero : right = 0 ↔ right.toInt = 0 := by rw [← Int64.toInt_inj]; rfl
  rw [hzero, not_and]
  refine ⟨fun h => ?_, fun h => ?_⟩
  · refine ⟨h.divisor, ?_⟩
    cases op with
    | rem =>
        exact (inRange_tdiv_iff (Number.inRange_toInt left) (h.divisor rfl)).2
          fun hexcept => h.remainder ⟨rfl, hexcept⟩
    | add | sub | mul | div => exact h.result
  · obtain ⟨hdivisor, hchecked⟩ := h
    refine ⟨hdivisor, inRange_exact hchecked, ?_⟩
    intro hrem
    obtain ⟨rfl, hexcept⟩ := hrem
    exact (inRange_tdiv_iff (Number.inRange_toInt left) (hdivisor rfl)).1 hchecked hexcept

/-- An operation on numbers has a result exactly where it is permitted over the
integers, and then the exact one. -/
theorem apply_eq_ok_iff_permits {op : Operator} {left right result : Number} :
    op.apply left right = .ok result ↔
      op.Permits left.toInt right.toInt ∧ result.toInt = op.exact left.toInt right.toInt := by
  rw [apply_eq_ok_iff, permits_iff, and_assoc]

/-- An operation fails for one of two causes. -/
theorem cause_of_apply_eq_error {op : Operator} {left right : Number} {cause : Cause}
    (h : op.apply left right = .error cause) :
    cause = .zeroDivisor ∧ op.divides ∧ right = 0 ∨ cause = .overflow op left right := by
  unfold apply at h
  split at h
  · next hzero =>
      cases h
      exact .inl ⟨rfl, hzero⟩
  · split at h
    · cases h
    · cases h
      exact .inr rfl

/-! ## Folds -/

/-- Whether every step of a left fold is permitted, starting from a total. -/
def PermitsFold (op : Operator) : Int → List Int → Prop
  | _, [] => True
  | total, operand :: rest => op.Permits total operand ∧ op.PermitsFold (op.exact total operand) rest

/-- The last step decides the range of a permitted fold. -/
theorem PermitsFold.inRange {op : Operator} {total : Int} {operands : List Int}
    (h : op.PermitsFold total operands) (htotal : Number.InRange total) :
    Number.InRange (operands.foldl op.exact total) := by
  induction operands generalizing total with
  | nil => exact htotal
  | cons operand rest ih => exact ih h.2 h.1.result

/-- A fold of numbers that comes to a result comes to the exact one, and has divided by no
zero on the way. -/
theorem exact_of_foldlM_apply_eq_ok {op : Operator} {total result : Number}
    {operands : List Number} (h : operands.foldlM op.apply total = .ok result) :
    result.toInt = (operands.map Int64.toInt).foldl op.exact total.toInt ∧
      (op.divides → 0 ∉ operands) := by
  induction operands generalizing total with
  | nil =>
      cases h
      exact ⟨rfl, fun _ => List.not_mem_nil⟩
  | cons operand rest ih =>
      rw [List.foldlM_cons] at h
      cases hnext : op.apply total operand with
      | error cause =>
          rw [hnext] at h
          cases h
      | ok next =>
          rw [hnext] at h
          obtain ⟨hexact, hrest⟩ := ih h
          obtain ⟨hdivisor, -, hvalue⟩ := apply_eq_ok_iff.1 hnext
          rw [List.map_cons, List.foldl_cons, ← hvalue]
          refine ⟨hexact, fun hdivides hmem => ?_⟩
          rcases List.mem_cons.1 hmem with hzero | hmem
          · exact hdivisor ⟨hdivides, hzero.symm⟩
          · exact hrest hdivides hmem

/-- Without a zero among the divisors, all that can go wrong in a fold of numbers is that a
step overflows. -/
theorem overflow_of_foldlM_apply_eq_error {op : Operator} {total : Number}
    {operands : List Number} {cause : Cause} (hdivisors : op.divides → 0 ∉ operands)
    (h : operands.foldlM op.apply total = .error cause) :
    ∃ left right, cause = .overflow op left right := by
  induction operands generalizing total with
  | nil => cases h
  | cons operand rest ih =>
      rw [List.foldlM_cons] at h
      cases hnext : op.apply total operand with
      | error here =>
          rw [hnext] at h
          cases h
          rcases cause_of_apply_eq_error hnext with ⟨-, hdivides, rfl⟩ | hoverflow
          · exact absurd List.mem_cons_self (hdivisors hdivides)
          · exact ⟨total, operand, hoverflow⟩
      | ok next =>
          rw [hnext] at h
          exact ih (fun hdivides hmem => hdivisors hdivides (List.mem_cons_of_mem _ hmem)) h

end Operator

/-- The symbol of an operator applies that operator. -/
theorem applyNamed_symbol (op : Operator) : applyNamed op.symbol = op.apply := by
  funext left right
  rw [applyNamed, Operator.ofSymbol?_symbol]

/-- A symbol is applied by the operator it names, and not applied without one. -/
theorem applyNamed_eq_ok_iff {name : String} {left right result : Number} :
    applyNamed name left right = .ok result ↔
      ∃ op : Operator, name = op.symbol ∧ op.apply left right = .ok result := by
  refine ⟨fun h => ?_, fun h => ?_⟩
  · unfold applyNamed at h
    split at h
    · next op hop => exact ⟨op, Operator.ofSymbol?_eq_some_iff.1 hop, h⟩
    · cases h
  · obtain ⟨op, rfl, happly⟩ := h
    rw [applyNamed_symbol]
    exact happly

end PrefixCalc
