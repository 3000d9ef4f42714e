/-
# The first failure

An expression fails as its first failing operand does. `FailsAt` says what it means
for something to go wrong at an operand, without running a fold: the operand has no
value of its own, or the numbers up to it cannot be folded. The least index at which
that happens decides the outcome, and operands behind it are not even visited.

`Reaches` follows this into the tree: it tells the nodes that are visited from those
that are not. There are exactly as many of them as visits are counted, and a failure
at any one of them is the outcome of every node above it. `Evaluator.first_failure_wins`
says all this of what evaluators answer and of how their counts grow.
-/

import PrefixCalc.Proofs.Evaluator.RunningCount
import PrefixCalc.Proofs.Value.Address
import PrefixCalc.Proofs.Value.Reduce
import Mathlib.Data.Set.Card

namespace PrefixCalc

namespace Value

variable {limit level : Nat} {name : String}

/-! ## Operands side by side -/

/-- What operands reduce to, each by itself. -/
def outcomesAt (limit level : Nat) (operands : List Value) : List (Except Failure Number) :=
  operands.map fun operand => (operand.reduceAt limit level).outcome

@[simp] theorem outcomesAt_cons (operand : Value) (rest : List Value) :
    outcomesAt limit level (operand :: rest) =
      (operand.reduceAt limit level).outcome :: outcomesAt limit level rest := rfl

/-- The visits that are spent on operands, if all of them are reduced. -/
def visitsAt (limit level : Nat) (operands : List Value) : Nat :=
  (operands.map fun operand => (operand.reduceAt limit level).visits).sum

@[simp] theorem visitsAt_nil : visitsAt limit level [] = 0 := rfl

@[simp] theorem visitsAt_cons (operand : Value) (rest : List Value) :
    visitsAt limit level (operand :: rest) =
      (operand.reduceAt limit level).visits + visitsAt limit level rest := rfl

@[simp] theorem visitsAt_append (front back : List Value) :
    visitsAt limit level (front ++ back) =
      visitsAt limit level front + visitsAt limit level back := by
  simp [visitsAt]

/-- Something goes wrong at the operand with an index: the operand reduces to a
failure, or the operands up to it reduce to numbers that the named operator cannot
fold. -/
inductive FailsAt (limit level : Nat) (name : String) (operands : List Value) (index : Nat) :
    Failure → Prop
  | operand {operand : Value} {f : Failure} :
      operands[index]? = some operand → (operand.reduceAt limit level).outcome = .error f →
      FailsAt limit level name operands index f
  | fold {first : Number} {rest : List Number} {cause : Cause} :
      index < operands.length →
      outcomesAt limit level (operands.take (index + 1)) = (first :: rest).map .ok →
      rest.foldlM (applyNamed name) first = .error cause →
      FailsAt limit level name operands index cause.failure

/-- Nothing goes wrong at the operands before an index. -/
def SucceedsBefore (limit level : Nat) (name : String) (operands : List Value) (index : Nat) :
    Prop :=
  ∀ earlier < index, ∀ f, ¬ FailsAt limit level name operands earlier f

/-- The index is the least one at which something goes wrong. -/
def FailsFirstAt (limit level : Nat) (name : String) (operands : List Value) (index : Nat)
    (f : Failure) : Prop :=
  FailsAt limit level name operands index f ∧ SucceedsBefore limit level name operands index

theorem FailsAt.index_lt {operands : List Value} {index : Nat} {f : Failure}
    (h : FailsAt limit level name operands index f) : index < operands.length := by
  cases h with
  | operand hoperand _ => exact (List.getElem?_eq_some_iff.1 hoperand).1
  | fold hindex _ _ => exact hindex

/-! ## Folds of numbers -/

theorem foldOperands_append (total : Number) (front back : List Value) :
    foldOperands limit level name total (front ++ back) =
      foldOperands limit level name total front >>= fun next =>
        foldOperands limit level name next back := by
  induction front generalizing total with
  | nil => rw [foldOperands_nil, pure_bind, List.nil_append]
  | cons operand rest ih =>
      rw [List.cons_append, foldOperands_cons, foldOperands_cons, bind_assoc]
      simp only [bind_assoc, ih]

/-- Where there are operands already, further ones are folded onto what these give. -/
theorem reduceOperands_append {front : List Value} (hfront : front ≠ []) (back : List Value) :
    reduceOperands limit level name (front ++ back) =
      reduceOperands limit level name front >>= fun total =>
        foldOperands limit level name total back := by
  obtain ⟨first, rest, rfl⟩ := List.exists_cons_of_ne_nil hfront
  rw [List.cons_append, reduceOperands, reduceOperands, bind_assoc]
  simp only [foldOperands_append]

/-- Operands that are numbers are folded like the numbers. -/
theorem outcome_foldOperands_of_outcomesAt {operands : List Value} {numbers : List Number}
    (h : outcomesAt limit level operands = numbers.map .ok) (total : Number) :
    (foldOperands limit level name total operands).outcome =
      (numbers.foldlM (applyNamed name) total).mapError Cause.failure := by
  induction operands generalizing total numbers with
  | nil =>
      obtain rfl : numbers = [] := List.map_eq_nil_iff.1 h.symm
      rw [foldOperands_nil]
      rfl
  | cons operand rest ih =>
      cases numbers with
      | nil => cases h
      | cons right more =>
          rw [outcomesAt_cons, List.map_cons, List.cons_eq_cons] at h
          rw [foldOperands_cons, Reduction.outcome_bind, h.1, List.foldlM_cons]
          change (Reduction.ofExcept (applyNamed name total right) >>= _).outcome = _
          rw [Reduction.outcome_bind, Reduction.outcome_ofExcept]
          cases applyNamed name total right with
          | error cause => rfl
          | ok next => exact ih h.2 next

theorem outcome_reduceOperands_of_outcomesAt {operands : List Value} {first : Number}
    {rest : List Number} (h : outcomesAt limit level operands = (first :: rest).map .ok) :
    (reduceOperands limit level name operands).outcome =
      (rest.foldlM (applyNamed name) first).mapError Cause.failure := by
  cases operands with
  | nil => cases h
  | cons operand more =>
      rw [outcomesAt_cons, List.map_cons, List.cons_eq_cons] at h
      rw [reduceOperands, Reduction.outcome_bind, h.1]
      exact outcome_foldOperands_of_outcomesAt h.2 first

theorem outcomesAt_eq_map_ok {operands : List Value} {number : Value → Number}
    (h : ∀ operand ∈ operands, (operand.reduceAt limit level).outcome = .ok (number operand)) :
    outcomesAt limit level operands = (operands.map number).map .ok := by
  rw [outcomesAt, List.map_map]
  exact List.map_congr_left h

/-- Operands that reduce to numbers come to a number exactly if the numbers are folded to
it. -/
theorem outcome_reduceOperands_eq_ok_iff_of_outcomesAt {operands : List Value}
    {first n : Number} {rest : List Number}
    (h : outcomesAt limit level operands = (first :: rest).map .ok) :
    (reduceOperands limit level name operands).outcome = .ok n ↔
      rest.foldlM (applyNamed name) first = .ok n := by
  rw [outcome_reduceOperands_of_outcomesAt h]
  cases rest.foldlM (applyNamed name) first <;> simp [Except.mapError]

/-- A fold that ends in a number has visited all of its operands. -/
theorem visits_foldOperands_of_outcome_eq_ok {operands : List Value} {total n : Number}
    (h : (foldOperands limit level name total operands).outcome = .ok n) :
    (foldOperands limit level name total operands).visits = visitsAt limit level operands := by
  induction operands generalizing total with
  | nil => rw [foldOperands_nil, Reduction.visits_pure, visitsAt_nil]
  | cons operand rest ih =>
      obtain ⟨right, next, hright, hnext, hrest⟩ := outcome_foldOperands_cons_eq_ok_iff.1 h
      rw [foldOperands_cons, Reduction.visits_bind_of_eq_ok hright,
        Reduction.visits_bind_of_eq_ok (Reduction.outcome_ofExcept_eq_ok_iff.2 hnext),
        Reduction.visits_ofExcept, Nat.zero_add, ih hrest, visitsAt_cons]

theorem visits_reduceOperands_of_outcome_eq_ok {operands : List Value} {n : Number}
    (h : (reduceOperands limit level name operands).outcome = .ok n) :
    (reduceOperands limit level name operands).visits = visitsAt limit level operands := by
  cases operands with
  | nil =>
      rw [reduceOperands]
      rfl
  | cons first rest =>
      rw [reduceOperands] at h ⊢
      obtain ⟨total, hfirst, hfold⟩ := Reduction.outcome_bind_eq_ok_iff.1 h
      rw [Reduction.visits_bind_of_eq_ok hfirst, visits_foldOperands_of_outcome_eq_ok hfold,
        visitsAt_cons]

/-! ## The least failing index -/

section Least

variable {operands : List Value} {index : Nat}

theorem take_ne_nil (hpos : 0 < index) (hindex : index ≤ operands.length) :
    operands.take index ≠ [] := by
  apply List.ne_nil_of_length_pos
  rw [List.length_take]
  omega

/-- Operands at which nothing goes wrong reduce to numbers. -/
theorem exists_numbers_of_succeedsBefore (h : SucceedsBefore limit level name operands index) :
    ∃ numbers : List Number, outcomesAt limit level (operands.take index) = numbers.map .ok := by
  have hok : ∀ operand ∈ operands.take index, ∃ n,
      (operand.reduceAt limit level).outcome = .ok n := by
    intro operand hoperand
    obtain ⟨earlier, hearlier, rfl⟩ := List.mem_take_iff_getElem.1 hoperand
    cases houtcome : (operands[earlier].reduceAt limit level).outcome with
    | ok n => exact ⟨n, rfl⟩
    | error f =>
        refine absurd (.operand ?_ houtcome) (h earlier (by omega) f)
        exact List.getElem?_eq_getElem (by omega)
  generalize operands.take index = front at hok
  induction front with
  | nil => exact ⟨[], rfl⟩
  | cons operand rest ih =>
      obtain ⟨hoperand, hrest⟩ := List.forall_mem_cons.1 hok
      obtain ⟨n, hn⟩ := hoperand
      obtain ⟨numbers, hnumbers⟩ := ih hrest
      exact ⟨n :: numbers, by rw [outcomesAt_cons, hn, hnumbers, List.map_cons]⟩

/-- Operands at which nothing goes wrong are folded to a number, and all of them are
visited. -/
theorem exists_reduceOperands_take_eq_ok (h : SucceedsBefore limit level name operands index)
    (hpos : 0 < index) (hindex : index ≤ operands.length) :
    ∃ total, reduceOperands limit level name (operands.take index) =
      ⟨.ok total, visitsAt limit level (operands.take index)⟩ := by
  have hne := take_ne_nil hpos hindex
  obtain ⟨numbers, hnumbers⟩ := exists_numbers_of_succeedsBefore h
  cases numbers with
  | nil => exact absurd (List.map_eq_nil_iff.1 hnumbers) hne
  | cons first rest =>
      have houtcome : (reduceOperands limit level name (operands.take index)).outcome = _ :=
        outcome_reduceOperands_of_outcomesAt hnumbers
      cases hfold : rest.foldlM (applyNamed name) first with
      | ok total =>
          rw [hfold] at houtcome
          exact ⟨total, Reduction.ext houtcome (visits_reduceOperands_of_outcome_eq_ok houtcome)⟩
      | error cause =>
          -- The numbers could not be folded, so the last of them fails.
          have hlast : index - 1 + 1 = index := by omega
          refine absurd (.fold ?_ ?_ hfold) (h (index - 1) (by omega) cause.failure)
          · omega
          · rw [hlast, hnumbers]

theorem foldOperands_singleton (total : Number) (operand : Value) :
    foldOperands limit level name total [operand] =
      ⟨(operand.reduceAt limit level).outcome >>= fun right =>
        (applyNamed name total right).mapError Cause.failure,
        (operand.reduceAt limit level).visits⟩ := by
  simp only [foldOperands_cons, foldOperands_nil, bind_pure]
  ext1
  · simp only [Reduction.outcome_bind, Reduction.outcome_ofExcept]
  · rw [Reduction.visits_bind]
    split <;> simp

/-- Behind operands at which nothing goes wrong, the next one is visited, and a failure
of its own is the outcome. -/
theorem exists_reduceOperands_take_succ (h : SucceedsBefore limit level name operands index)
    (hindex : index < operands.length) :
    ∃ next : Number → Except Failure Number,
      reduceOperands limit level name (operands.take (index + 1)) =
        ⟨(operands[index].reduceAt limit level).outcome >>= next,
          visitsAt limit level (operands.take (index + 1))⟩ := by
  rw [List.take_succ_eq_append_getElem hindex]
  rcases Nat.eq_zero_or_pos index with rfl | hpos
  · refine ⟨pure, ?_⟩
    rw [List.take_zero, List.nil_append, reduceOperands, bind_pure, visitsAt_cons]
    simp only [foldOperands_nil, bind_pure, visitsAt_nil, Nat.add_zero]
  · have hne := take_ne_nil hpos (Nat.le_of_lt hindex)
    obtain ⟨total, htotal⟩ := exists_reduceOperands_take_eq_ok h hpos (Nat.le_of_lt hindex)
    refine ⟨fun right => (applyNamed name total right).mapError Cause.failure, ?_⟩
    rw [reduceOperands_append hne, htotal, visitsAt_append, visitsAt_cons, visitsAt_nil,
      Nat.add_zero]
    change Reduction.andThen _ _ = _
    rw [Reduction.andThen, foldOperands_singleton]

/-- The operands up to the first failure fail in that way, and all of them are
visited. -/
theorem reduceOperands_take_of_failsFirstAt {f : Failure}
    (h : FailsFirstAt limit level name operands index f) :
    reduceOperands limit level name (operands.take (index + 1)) =
      ⟨.error f, visitsAt limit level (operands.take (index + 1))⟩ := by
  obtain ⟨hfails, hbefore⟩ := h
  have hindex := hfails.index_lt
  obtain ⟨next, hreduce⟩ := exists_reduceOperands_take_succ hbefore hindex
  cases hfails with
  | operand hoperand houtcome =>
      obtain ⟨_, rfl⟩ := List.getElem?_eq_some_iff.1 hoperand
      rw [hreduce, houtcome]
      rfl
  | @fold first rest cause _ hnumbers hfold =>
      have houtcome : (reduceOperands limit level name (operands.take (index + 1))).outcome =
          (rest.foldlM (applyNamed name) first).mapError Cause.failure :=
        outcome_reduceOperands_of_outcomesAt hnumbers
      rw [hfold] at houtcome
      exact Reduction.ext houtcome (by rw [hreduce])

/-- Whatever stands behind the first failure, it is neither visited nor does it change
the outcome. -/
theorem reduceOperands_of_failsFirstAt {f : Failure}
    (h : FailsFirstAt limit level name operands index f) (later : List Value) :
    reduceOperands limit level name (operands.take (index + 1) ++ later) =
      ⟨.error f, visitsAt limit level (operands.take (index + 1))⟩ := by
  have hne := take_ne_nil (Nat.succ_pos index) h.1.index_lt
  have htake := reduceOperands_take_of_failsFirstAt h
  rw [reduceOperands_append hne, htake]
  exact Reduction.bind_eq_of_outcome_eq_error rfl

theorem reduceAt_of_failsFirstAt (hlevel : level ≤ limit) {f : Failure}
    (h : FailsFirstAt limit (level + 1) name operands index f) (later : List Value) :
    (expression (symbol name :: (operands.take (index + 1) ++ later))).reduceAt limit level =
      ⟨.error f, 1 + visitsAt limit (level + 1) (operands.take (index + 1))⟩ := by
  rw [reduceAt_expression_of_le _ hlevel, reduceItems, reduceOperands_of_failsFirstAt h later,
    Reduction.visiting, Nat.add_comm 1]

/-- Where something goes wrong, it goes wrong somewhere first. -/
theorem FailsAt.exists_failsFirstAt {f : Failure}
    (h : FailsAt limit level name operands index f) :
    ∃ first g, FailsFirstAt limit level name operands first g := by
  classical
  have hfails : ∃ index f, FailsAt limit level name operands index f := ⟨index, f, h⟩
  obtain ⟨g, hg⟩ := Nat.find_spec hfails
  exact ⟨Nat.find hfails, g, hg,
    fun earlier hearlier f hf => Nat.find_min hfails hearlier ⟨f, hf⟩⟩

/-- Nothing goes wrong at any operand on the way to a number. -/
theorem succeedsBefore_of_outcome_eq_ok {n : Number}
    (h : (reduceOperands limit level name operands).outcome = .ok n) (index : Nat) :
    SucceedsBefore limit level name operands index := by
  intro earlier _ f hfails
  obtain ⟨first, g, hfirst⟩ := hfails.exists_failsFirstAt
  have hreduce := reduceOperands_of_failsFirstAt hfirst (operands.drop (first + 1))
  rw [List.take_append_drop] at hreduce
  rw [hreduce] at h
  cases h

theorem exists_outcome_eq_ok_of_getElem? {operand : Value} {n : Number}
    (h : (reduceOperands limit level name operands).outcome = .ok n)
    (hoperand : operands[index]? = some operand) :
    ∃ m, (operand.reduceAt limit level).outcome = .ok m := by
  cases houtcome : (operand.reduceAt limit level).outcome with
  | ok m => exact ⟨m, rfl⟩
  | error f =>
    exact absurd (.operand hoperand houtcome)
      (succeedsBefore_of_outcome_eq_ok h (index + 1) index (Nat.lt_succ_self index) f)

/-- The operands that are visited are those before a certain index, and these are the
ones up to which nothing goes wrong. -/
theorem exists_count_of_visited (limit level : Nat) (name : String) (operands : List Value) :
    ∃ count, (∀ index, index < count ↔
        index < operands.length ∧ SucceedsBefore limit level name operands index) ∧
      (reduceOperands limit level name operands).visits =
        visitsAt limit level (operands.take count) := by
  by_cases hfails : ∃ index f, FailsAt limit level name operands index f
  · obtain ⟨_, _, h⟩ := hfails
    obtain ⟨first, f, hfirst⟩ := h.exists_failsFirstAt
    refine ⟨first + 1, fun index => ⟨fun hindex => ⟨?_, ?_⟩, fun hindex => ?_⟩, ?_⟩
    · have := hfirst.1.index_lt
      omega
    · exact fun earlier hearlier => hfirst.2 earlier (by omega)
    · by_contra hlater
      exact hindex.2 first (by omega) f hfirst.1
    · have hreduce := reduceOperands_of_failsFirstAt hfirst (operands.drop (first + 1))
      rw [List.take_append_drop] at hreduce
      rw [hreduce]
  · have hsucceeds : ∀ index, SucceedsBefore limit level name operands index :=
      fun index earlier _ f hf => hfails ⟨earlier, f, hf⟩
    refine ⟨operands.length, fun index => ⟨fun hindex => ⟨hindex, hsucceeds index⟩, And.left⟩, ?_⟩
    rw [List.take_length]
    rcases Nat.eq_zero_or_pos operands.length with hempty | hpos
    · obtain rfl := List.length_eq_zero_iff.1 hempty
      rw [reduceOperands]
      rfl
    · obtain ⟨total, htotal⟩ :=
        exists_reduceOperands_take_eq_ok (hsucceeds operands.length) hpos (Nat.le_refl _)
      rw [List.take_length] at htotal
      rw [htotal]

end Least

/-! ## Reached nodes -/

/-- Reducing a value at a level visits the node at an address. The value itself is
visited, and so is an operand of an expression that is entered, as long as nothing goes
wrong before it. The symbol in front is not. -/
inductive Reaches (limit : Nat) : Nat → Value → List Nat → Prop
  | here (level : Nat) (value : Value) : Reaches limit level value []
  | operand {level : Nat} {name : String} {operands : List Value} {index : Nat}
      {operand : Value} {address : List Nat} :
      level ≤ limit → operands[index]? = some operand →
      SucceedsBefore limit (level + 1) name operands index →
      Reaches limit (level + 1) operand address →
      Reaches limit level (.expression (.symbol name :: operands)) ((index + 1) :: address)

/-- Above a visited node there are only visited nodes. -/
theorem Reaches.exists_nodeAt? {value : Value} {front back : List Nat}
    (h : Reaches limit level value (front ++ back)) :
    ∃ node, value.nodeAt? front = some node ∧
      Reaches limit (level + front.length) node back := by
  induction front generalizing level value with
  | nil => exact ⟨value, rfl, h⟩
  | cons index rest ih =>
      cases h with
      | operand hlevel hoperand hbefore hreaches =>
          obtain ⟨node, hnode, hback⟩ := ih hreaches
          refine ⟨node, ?_, ?_⟩
          · rw [nodeAt?, items_expression, List.getElem?_cons_succ, hoperand]
            exact hnode
          · rwa [List.length_cons, Nat.add_comm rest.length, ← Nat.add_assoc]

/-- A failure at a visited node is the outcome of the whole. -/
theorem Reaches.outcome_eq_error {value node : Value} {address : List Nat} {f : Failure}
    (h : Reaches limit level value address) (hnode : value.nodeAt? address = some node)
    (hfails : (node.reduceAt limit (level + address.length)).outcome = .error f) :
    (value.reduceAt limit level).outcome = .error f := by
  induction h with
  | here level value =>
      cases hnode
      exact hfails
  | @operand level name operands index operand address hlevel hoperand hbefore _ ih =>
      rw [nodeAt?, items_expression, List.getElem?_cons_succ, hoperand] at hnode
      rw [List.length_cons, Nat.add_comm address.length, ← Nat.add_assoc] at hfails
      have hfirst : FailsFirstAt limit (level + 1) name operands index f :=
        ⟨.operand hoperand (ih hnode hfails), hbefore⟩
      have hreduce := reduceAt_of_failsFirstAt hlevel hfirst (operands.drop (index + 1))
      rw [List.take_append_drop] at hreduce
      rw [hreduce]

/-- Nothing but the value itself is visited where no operands are looked at. -/
theorem reaches_iff_of_not_entered {value : Value} {address : List Nat}
    (h : ∀ name operands, value = .expression (.symbol name :: operands) → limit < level) :
    Reaches limit level value address ↔ address = [] := by
  refine ⟨fun hreaches => ?_, ?_⟩
  · cases hreaches with
    | here => rfl
    | operand hlevel _ _ _ => exact absurd hlevel (Nat.not_le.2 (h _ _ rfl))
  · rintro rfl
    exact .here level value

theorem visits_reduceAt_of_not_entered {value : Value}
    (h : ∀ name operands, value = .expression (.symbol name :: operands) → limit < level) :
    (value.reduceAt limit level).visits = 1 := by
  cases value with
  | number n => rw [reduceAt_number]; rfl
  | symbol name => rw [reduceAt_symbol]; rfl
  | failure f => rw [reduceAt_failure]; rfl
  | expression items =>
      by_cases hlevel : level ≤ limit
      · rw [reduceAt_expression_of_le items hlevel, Reduction.visits_visiting, Nat.add_eq_right]
        unfold reduceItems
        split
        · rfl
        · exact absurd hlevel (Nat.not_le.2 (h _ _ rfl))
        · rfl
      · rw [reduceAt_expression_of_lt items (Nat.not_le.1 hlevel)]
        rfl

/-- If the nodes visited below each operand are as many as its visits, so are those
below all of them. -/
theorem exists_finset_reached_below {operands : List Value}
    (h : ∀ operand ∈ operands, ∃ nodes : Finset (List Nat),
      (∀ address, address ∈ nodes ↔ Reaches limit level operand address) ∧
        nodes.card = (operand.reduceAt limit level).visits) :
    ∃ nodes : Finset (List Nat),
      (∀ address, address ∈ nodes ↔ ∃ index operand rest, address = (index + 1) :: rest ∧
        operands[index]? = some operand ∧ Reaches limit level operand rest) ∧
      nodes.card = visitsAt limit level operands := by
  induction operands using List.reverseRecOn with
  | nil => exact ⟨∅, by simp, rfl⟩
  | append_singleton front operand ih =>
      obtain ⟨hfront, hoperand⟩ := List.forall_mem_append.1 h
      obtain ⟨before, hbefore, hcardBefore⟩ := ih hfront
      obtain ⟨nodes, hnodes, hcardNodes⟩ := hoperand operand (List.mem_singleton_self operand)
      have hinjective : Function.Injective (List.cons (front.length + 1)) := List.cons_injective
      have hdisjoint : Disjoint before (nodes.map ⟨_, hinjective⟩) := by
        rw [Finset.disjoint_left]
        intro address haddress hmem
        obtain ⟨index, _, rest, rfl, hindex, -⟩ := (hbefore address).1 haddress
        obtain ⟨rest', -, heq⟩ := Finset.mem_map.1 hmem
        obtain ⟨hlength, -⟩ := List.cons_eq_cons.1 heq
        have := (List.getElem?_eq_some_iff.1 hindex).1
        omega
      refine ⟨before.disjUnion (nodes.map ⟨_, hinjective⟩) hdisjoint, fun address => ?_, ?_⟩
      · rw [Finset.mem_disjUnion, hbefore, Finset.mem_map]
        refine ⟨?_, ?_⟩
        · rintro (⟨index, item, rest, rfl, hindex, hreaches⟩ | ⟨rest, hrest, rfl⟩)
          · have hlt := (List.getElem?_eq_some_iff.1 hindex).1
            refine ⟨index, item, rest, rfl, ?_, hreaches⟩
            rw [List.getElem?_append_left hlt, hindex]
          · exact ⟨front.length, operand, rest, rfl, List.getElem?_concat_length,
              (hnodes rest).1 hrest⟩
        · rintro ⟨index, item, rest, rfl, hindex, hreaches⟩
          by_cases hlt : index < front.length
          · rw [List.getElem?_append_left hlt] at hindex
            exact .inl ⟨index, item, rest, rfl, hindex, hreaches⟩
          · have hlast := (List.getElem?_eq_some_iff.1 hindex).1
            rw [List.length_append, List.length_singleton] at hlast
            obtain rfl : index = front.length := by omega
            rw [List.getElem?_concat_length, Option.some_inj] at hindex
            subst hindex
            exact .inr ⟨rest, (hnodes rest).2 hreaches, rfl⟩
      · rw [Finset.card_disjUnion, Finset.card_map, hcardBefore, hcardNodes, visitsAt_append,
          visitsAt_cons, visitsAt_nil, Nat.add_zero]

theorem exists_finset_reached_of_not_entered {value : Value}
    (h : ∀ name operands, value = .expression (.symbol name :: operands) → limit < level) :
    ∃ nodes : Finset (List Nat),
      (∀ address, address ∈ nodes ↔ Reaches limit level value address) ∧
        nodes.card = (value.reduceAt limit level).visits := by
  refine ⟨{[]}, fun address => ?_, ?_⟩
  · rw [Finset.mem_singleton, reaches_iff_of_not_entered h]
  · rw [Finset.card_singleton, visits_reduceAt_of_not_entered h]

/-- The visited nodes are as many as the visits. -/
theorem exists_finset_reached (value : Value) (limit level : Nat) :
    ∃ nodes : Finset (List Nat),
      (∀ address, address ∈ nodes ↔ Reaches limit level value address) ∧
        nodes.card = (value.reduceAt limit level).visits := by
  induction value generalizing level with
  | number n => exact exists_finset_reached_of_not_entered nofun
  | symbol name => exact exists_finset_reached_of_not_entered nofun
  | failure f => exact exists_finset_reached_of_not_entered nofun
  | expression items ih =>
      by_cases hentered : ∃ name operands, items = symbol name :: operands ∧ level ≤ limit
      · obtain ⟨name, operands, rfl, hlevel⟩ := hentered
        obtain ⟨count, hcount, hvisits⟩ := exists_count_of_visited limit (level + 1) name operands
        obtain ⟨below, hbelow, hcard⟩ := exists_finset_reached_below fun operand hoperand =>
          ih operand (List.mem_cons_of_mem _ (List.mem_of_mem_take hoperand)) (level + 1)
        have hroot : [] ∉ below := by
          rw [hbelow]
          rintro ⟨index, operand, rest, hnil, -⟩
          cases hnil
        refine ⟨insert [] below, fun address => ?_, ?_⟩
        · rw [Finset.mem_insert, hbelow]
          refine ⟨?_, fun hreaches => ?_⟩
          · rintro (rfl | ⟨index, operand, rest, rfl, hoperand, hreaches⟩)
            · exact .here level _
            · have hindex : index < count :=
                Nat.lt_of_lt_of_le (List.getElem?_eq_some_iff.1 hoperand).1
                  (List.length_take_le count operands)
              rw [List.getElem?_take_of_lt hindex] at hoperand
              exact .operand hlevel hoperand ((hcount index).1 hindex).2 hreaches
          · cases hreaches with
            | here => exact .inl rfl
            | @operand _ _ _ index operand rest _ hoperand hbefore hreaches =>
                have hindex := (List.getElem?_eq_some_iff.1 hoperand).1
                refine .inr ⟨index, operand, rest, rfl, ?_, hreaches⟩
                rwa [List.getElem?_take_of_lt ((hcount index).2 ⟨hindex, hbefore⟩)]
        · rw [Finset.card_insert_of_notMem hroot, hcard, reduceAt_expression_of_le _ hlevel,
            Reduction.visits_visiting, reduceItems, hvisits]
      · apply exists_finset_reached_of_not_entered
        intro name operands hitems
        cases hitems
        by_contra hlevel
        exact hentered ⟨name, operands, rfl, Nat.not_lt.1 hlevel⟩

theorem ncard_reached (value : Value) (limit level : Nat) :
    {address | Reaches limit level value address}.ncard = (value.reduceAt limit level).visits := by
  obtain ⟨nodes, hnodes, hcard⟩ := exists_finset_reached value limit level
  have hset : {address | Reaches limit level value address} = ↑nodes :=
    Set.ext fun address => (hnodes address).symm
  rw [hset, Set.ncard_coe_finset, hcard]

/-- A failure at a visited node is the outcome of every node above it. -/
theorem Reaches.exists_ancestor {value node : Value} {address above : List Nat} {f : Failure}
    (h : Reaches limit level value address) (hnode : value.nodeAt? address = some node)
    (hfails : (node.reduceAt limit (level + address.length)).outcome = .error f)
    (habove : above <+: address) :
    ∃ ancestor, value.nodeAt? above = some ancestor ∧
      (ancestor.reduceAt limit (level + above.length)).outcome = .error f := by
  obtain ⟨back, rfl⟩ := habove
  obtain ⟨ancestor, hancestor, hback⟩ := h.exists_nodeAt?
  refine ⟨ancestor, hancestor, ?_⟩
  rw [nodeAt?_append, hancestor] at hnode
  rw [List.length_append, ← Nat.add_assoc] at hfails
  exact hback.outcome_eq_error hnode hfails

/-- Nothing goes wrong at a first operand that reduces to a number: there is nothing to
apply the operator to. -/
theorem succeedsBefore_one {first : Value} {n : Number}
    (h : (first.reduceAt limit level).outcome = .ok n) (rest : List Value) :
    SucceedsBefore limit level name (first :: rest) 1 := by
  intro earlier hearlier f hfails
  obtain rfl := Nat.lt_one_iff.1 hearlier
  cases hfails with
  | operand hoperand houtcome =>
      cases hoperand
      rw [h] at houtcome
      cases houtcome
  | @fold _ more _ _ hnumbers hfold =>
      have hlength := congrArg List.length hnumbers
      obtain rfl : more = [] := by simpa [outcomesAt] using hlength
      cases hfold

end Value

/-- The first failure wins. An expression is answered with the failure at the least index at
which something goes wrong, unchanged, and the count grows by one for the expression itself
and by the visits for the operands up to there; other operands behind it would make no
difference. In a whole value as many nodes are visited as the count grows by, and what fails
at one of them is the answer to every node above it, up to the value itself. Values are
evaluated at level one, and a program is evaluated as its only item or, at level zero, as its
root. -/
theorem Evaluator.first_failure_wins (evaluator : Evaluator) :
    (∀ level name operands index f, level ≤ evaluator.limit →
      Value.FailsFirstAt evaluator.limit (level + 1) name operands index f →
      evaluator.evalAt level (.expression (.symbol name :: operands)) =
        (.failure f, ⟨evaluator.limit, evaluator.visited +
          (1 + Value.visitsAt evaluator.limit (level + 1) (operands.take (index + 1)))⟩) ∧
      ∀ later, evaluator.evalAt level
          (.expression (.symbol name :: (operands.take (index + 1) ++ later))) =
        evaluator.evalAt level (.expression (.symbol name :: operands))) ∧
    (∀ level value,
      (evaluator.evalAt level value).2.visited = evaluator.visited +
        {address | Value.Reaches evaluator.limit level value address}.ncard ∧
      ∀ address node f, Value.Reaches evaluator.limit level value address →
        value.nodeAt? address = some node →
        (evaluator.evalAt (level + address.length) node).1 = .failure f →
        ∀ above, above <+: address → ∃ ancestor, value.nodeAt? above = some ancestor ∧
          (evaluator.evalAt (level + above.length) ancestor).1 = .failure f) ∧
    (∀ value, evaluator.eval value = evaluator.evalAt 1 value) ∧
    ∀ root, evaluator.evalProgram root =
      match root.soleItem? with
      | some only => evaluator.evalAt 1 only
      | none => evaluator.evalAt 0 root := by
  refine ⟨fun level name operands index f hlevel hfirst => ?_, fun level value => ⟨?_, ?_⟩,
    evaluator.eval_eq_evalAt, evaluator.evalProgram_eq_evalAt⟩
  · have hlater := Value.reduceAt_of_failsFirstAt hlevel hfirst
    have hwhole := hlater (operands.drop (index + 1))
    rw [List.take_append_drop] at hwhole
    refine ⟨?_, fun later => ?_⟩
    · rw [evalAt_eq_record, hwhole]
      rfl
    · rw [evalAt_eq_record, evalAt_eq_record, hlater later, hwhole]
  · rw [Value.ncard_reached, evalAt_eq_record]
    rfl
  · intro address node f hreaches hnode hfails above habove
    rw [evalAt_eq_record] at hfails
    obtain ⟨ancestor, hancestor, houtcome⟩ :=
      hreaches.exists_ancestor hnode (Value.ofOutcome_eq_failure_iff.1 hfails) habove
    refine ⟨ancestor, hancestor, ?_⟩
    rw [evalAt_eq_record]
    exact Value.ofOutcome_eq_failure_iff.2 houtcome

theorem Evaluator.first_failure_wins_in_quotient :
    let evaluator : Evaluator := ⟨3, 10⟩
    let operands : List Value := [.number 8, .expression [.symbol "+", .number 2, .number (-2)],
      .failure ⟨.badNumber, none⟩]
    let quotient : Value := .expression (.symbol "/" :: operands)
    let value : Value := .expression [.symbol "*", .number 3, quotient, .symbol "x"]
    let zeroDivisor : Failure := ⟨.zeroDivisor, none⟩
    Value.FailsFirstAt 3 3 "/" operands 1 zeroDivisor ∧
      evaluator.evalAt 2 quotient = (.failure zeroDivisor, ⟨3, 15⟩) ∧
      (∀ later, evaluator.evalAt 2 (.expression (.symbol "/" :: (operands.take 2 ++ later))) =
        evaluator.evalAt 2 quotient) ∧
      Value.Reaches 3 1 value [2] ∧ value.nodeAt? [2] = some quotient ∧
      (evaluator.eval value).1 = .failure zeroDivisor ∧
      evaluator.evalProgram (.expression [value]) = evaluator.eval value := by
  intro evaluator operands quotient value zeroDivisor
  obtain ⟨hfold, hnodes, heval, hprogram⟩ := first_failure_wins evaluator
  have hfirst : Value.FailsFirstAt 3 3 "/" operands 1 zeroDivisor := by
    have height : ((Value.number 8).reduceAt 3 3).outcome = .ok 8 := by rfl
    refine ⟨?_, Value.succeedsBefore_one height _⟩
    have hnumbers : Value.outcomesAt 3 3 (operands.take 2) = ([8, 0] : List Number).map .ok := by
      rfl
    have hdivision : [0].foldlM (applyNamed "/") 8 = .error .zeroDivisor := by rfl
    exact .fold (by decide) hnumbers hdivision
  obtain ⟨hquotient, hlater⟩ := hfold 2 "/" operands 1 zeroDivisor (by decide) hfirst
  have hthree : ((Value.number 3).reduceAt 3 2).outcome = .ok 3 := by rfl
  have hreaches : Value.Reaches 3 1 value [2] :=
    .operand (by decide) rfl (Value.succeedsBefore_one hthree _) (.here 2 quotient)
  obtain ⟨ancestor, hancestor, hanswer⟩ := (hnodes 1 value).2 [2] quotient zeroDivisor hreaches
    rfl (congrArg Prod.fst hquotient) [] List.nil_prefix
  cases hancestor
  have hwhole : (evaluator.eval value).1 = .failure zeroDivisor := by
    rw [heval]
    exact hanswer
  exact ⟨hfirst, hquotient, hlater, hreaches, rfl, hwhole,
    (hprogram (.expression [value])).trans (heval value).symm⟩

end PrefixCalc
