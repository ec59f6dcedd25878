import FluentQuery.Proofs.Bulk.Where

/-! The truth of conditions. Under an assignment of truth values to the atomic conditions,
a condition has the value that its connectives make of theirs, and one without a text says
nothing. Joining conditions makes their conjunction. -/

namespace FluentQuery.Sql

/-- The truth values of SQL. -/
inductive Truth where
  | false | unknown | true
  deriving DecidableEq, Repr

namespace Truth

def not : Truth → Truth
  | false => true
  | unknown => unknown
  | true => false

def and : Truth → Truth → Truth
  | true, t => t
  | false, _ | unknown, false => false
  | unknown, _ => unknown

def or : Truth → Truth → Truth
  | false, t => t
  | true, _ | unknown, true => true
  | unknown, _ => unknown

end Truth

/-- Values that conditions can have, with the laws that joining and writing conditions rely on.
Conjunction need neither be idempotent nor commute: under an assignment of such values a condition
that is lost, doubled or moved makes a difference. -/
class Logic (α : Type) where
  constant : Constant → α
  not : α → α
  and : α → α → α
  or : α → α → α
  not_not : ∀ a, not (not a) = a
  and_assoc : ∀ a b c, and (and a b) c = and a (and b c)
  true_and : ∀ a, and (constant .true) a = a
  and_true : ∀ a, and a (constant .true) = a
  false_and : ∀ a, and (constant .false) a = constant .false
  and_false : ∀ a, and a (constant .false) = constant .false
  or_assoc : ∀ a b c, or (or a b) c = or a (or b c)
  false_or : ∀ a, or (constant .false) a = a

instance : Logic Truth where
  constant
    | .null => .unknown
    | .true => .true
    | .false => .false
  not := Truth.not
  and := Truth.and
  or := Truth.or
  not_not a := by cases a <;> rfl
  and_assoc a b c := by cases a <;> cases b <;> cases c <;> rfl
  true_and _ := rfl
  and_true a := by cases a <;> rfl
  false_and _ := rfl
  and_false a := by cases a <;> rfl
  or_assoc a b c := by cases a <;> cases b <;> cases c <;> rfl
  false_or _ := rfl

attribute [simp] Logic.not_not Logic.true_and Logic.and_true Logic.false_and Logic.and_false
  Logic.false_or

variable {α : Type} [Logic α] (a : Term → α)

def Connective.meaning : Connective → α → α → α
  | .and => Logic.and
  | .or => Logic.or

mutual

/-- What a condition says under an assignment to the atomic conditions; an empty group says
nothing. -/
def Term.value? : Term → Option α
  | .constant c => some (Logic.constant c)
  | .group op ts => Term.joint? op ts
  | .condition negated _ t => (Term.value? t).map (if negated then Logic.not else id)
  | .negation _ t => (Term.value? t).map Logic.not
  | t => some (a t)

/-- What the operands of a connective say together. -/
def Term.joint? (op : Connective) : List Term → Option α
  | [] => none
  | t :: ts => Option.merge op.meaning (Term.value? t) (Term.joint? op ts)

end

/-- The truth of a condition; one that says nothing is no constraint. -/
def Term.truth (t : Term) : α := (t.value? a).getD (Logic.constant .true)

/-- The truth of conditions that are all to hold. -/
def Term.conjunction (ts : List Term) : α := (Term.joint? a .and ts).getD (Logic.constant .true)

variable {a}

@[simp] theorem Term.truth_constant (c : Constant) :
    (Term.constant c).truth a = Logic.constant c := by
  simp [truth, value?]

theorem Term.conjunction_nil : Term.conjunction a [] = Logic.constant .true := by
  simp [conjunction, joint?]

theorem Term.conjunction_cons (t : Term) (ts : List Term) :
    Term.conjunction a (t :: ts) = Logic.and (t.truth a) (Term.conjunction a ts) := by
  unfold conjunction truth
  rw [joint?]
  cases t.value? a <;> cases joint? a .and ts <;> simp [Connective.meaning, Option.merge]

@[simp] theorem Term.conjunction_singleton (t : Term) : Term.conjunction a [t] = t.truth a := by
  rw [conjunction_cons, conjunction_nil, Logic.and_true]

theorem Term.conjunction_append (ts us : List Term) :
    Term.conjunction a (ts ++ us) =
      Logic.and (Term.conjunction a ts) (Term.conjunction a us) := by
  induction ts with
  | nil => rw [conjunction_nil, Logic.true_and, List.nil_append]
  | cons t ts ih => rw [List.cons_append, conjunction_cons, conjunction_cons, ih, Logic.and_assoc]

@[simp] theorem Term.truth_and (ts : List Term) :
    (Term.group .and ts).truth a = Term.conjunction a ts := by
  simp [truth, value?, conjunction]

/-! ### Joining -/

@[simp] theorem Term.truth_asCondition (key : ItemKey) (t : Term) :
    (t.asCondition key).truth a = t.truth a := by
  unfold asCondition
  split
  case h_6 => rfl
  all_goals
    split <;> simp [truth, value?]

namespace Connective

theorem conjunction_operands (x : Operand) :
    Term.conjunction a (operands .and x) = x.term.truth a := by
  unfold operands
  split
  · rename_i op ts same
    rw [same]
    cases op <;> simp
  · simp [Operand.asCondition]

theorem conjunction_flatMap (xs : List Operand) :
    Term.conjunction a (xs.flatMap (operands .and)) =
      Term.conjunction a (xs.map (·.term)) := by
  induction xs with
  | nil => rfl
  | cons x xs ih =>
    rw [List.flatMap_cons, Term.conjunction_append, conjunction_operands, ih, List.map_cons,
      Term.conjunction_cons]

/-- Conditions that are true can be left out of a conjunction. -/
theorem conjunction_filter (ts : List Term) :
    Term.conjunction a (ts.filter fun t => !isConstant .true t) = Term.conjunction a ts := by
  induction ts with
  | nil => rfl
  | cons t ts ih =>
    rw [Term.conjunction_cons, List.filter_cons]
    split
    · rw [Term.conjunction_cons, ih]
    · rename_i dropped
      obtain rfl : t = .constant .true := isConstant_iff.mp (by simpa using dropped)
      rw [ih, Term.truth_constant, Logic.true_and]

/-- A condition that is false decides a conjunction. -/
theorem conjunction_of_false {ts : List Term} (h : .constant .false ∈ ts) :
    Term.conjunction a ts = Logic.constant .false := by
  obtain ⟨before, behind, rfl⟩ := List.append_of_mem h
  simp [Term.conjunction_append, Term.conjunction_cons]

/-- Joining conditions makes their conjunction. -/
theorem truth_join (xs : List Operand) :
    (join .and xs).truth a = Term.conjunction a (xs.map (·.term)) := by
  unfold join
  split
  · rename_i none
    rw [List.isEmpty_iff.mp none]
    simp
  split
  · rename_i decided
    obtain ⟨x, mem, isFalse⟩ := List.any_eq_true.mp decided
    rw [conjunction_of_false (isConstant_iff.mp isFalse ▸ List.mem_map_of_mem mem)]
    simp [Operand.asCondition, Operand.constant, absorbing]
  rw [← conjunction_filter, List.filter_map]
  change _ = Term.conjunction a ((xs.filter fun x => !isConstant (neutral .and) x.term).map _)
  split
  · rename_i none
    rw [none]
    simp [Operand.asCondition, Operand.constant, neutral, Term.conjunction_nil]
  · rename_i x only
    rw [only]
    simp [Operand.asCondition]
  · simp [conjunction_flatMap]

end Connective

/-! ### Complete conditions -/

mutual

/-- Whether no group in a condition is empty, so that each of its parts has a text. -/
def Term.isComplete : Term → Bool
  | .group _ ts => !ts.isEmpty && Term.allComplete ts
  | .condition _ _ t | .negation _ t => t.isComplete
  | t => !t.isBlank

def Term.allComplete : List Term → Bool
  | [] => true
  | t :: ts => t.isComplete && Term.allComplete ts

end

theorem Term.allComplete_eq_true {ts : List Term} :
    Term.allComplete ts = true ↔ ∀ t ∈ ts, t.isComplete = true := by
  induction ts with
  | nil => simp [allComplete]
  | cons t ts ih => simp [allComplete, ih]

theorem Term.isComplete_group {op : Connective} {ts : List Term} :
    (Term.group op ts).isComplete = true ↔ ts ≠ [] ∧ ∀ t ∈ ts, t.isComplete = true := by
  rw [isComplete, Bool.and_eq_true, allComplete_eq_true]
  simp

mutual

theorem Term.isBlank_of_isComplete {t : Term} (h : t.isComplete = true) : t.isBlank = false := by
  cases t with
  | group op ts =>
    obtain ⟨nonempty, all⟩ := isComplete_group.mp h
    rw [isBlank]
    exact Term.allBlank_of_isComplete nonempty all
  | condition negated key t =>
    cases negated with
    | true => rfl
    | false => simp [isBlank, Term.isBlank_of_isComplete (t := t) h]
  | negation type t => rfl
  | _ => simpa [isComplete] using h

theorem Term.allBlank_of_isComplete {outer : Operator} {ts : List Term} (nonempty : ts ≠ [])
    (h : ∀ t ∈ ts, t.isComplete = true) : Term.allBlank outer ts = false := by
  cases ts with
  | nil => exact absurd rfl nonempty
  | cons t ts =>
    simp [allBlank, Term.isBlank_of_isComplete (h t List.mem_cons_self)]

end

mutual

/-- A complete condition says something. -/
theorem Term.value?_of_isComplete {t : Term} (h : t.isComplete = true) :
    t.value? a = some (t.truth a) := by
  have said : (t.value? a).isSome = true := by
    cases t with
    | group op ts =>
      obtain ⟨nonempty, all⟩ := isComplete_group.mp h
      rw [value?]
      exact Term.joint?_of_isComplete op nonempty all
    | condition negated key t =>
      simp [value?, Term.value?_of_isComplete (t := t) h]
    | negation type t => simp [value?, Term.value?_of_isComplete (t := t) h]
    | _ => simp [value?]
  obtain ⟨x, hx⟩ := Option.isSome_iff_exists.mp said
  simp [truth, hx]

theorem Term.joint?_of_isComplete (op : Connective) {ts : List Term} (nonempty : ts ≠ [])
    (h : ∀ t ∈ ts, t.isComplete = true) : (Term.joint? a op ts).isSome = true := by
  cases ts with
  | nil => exact absurd rfl nonempty
  | cons t ts =>
    rw [joint?, Term.value?_of_isComplete (h t List.mem_cons_self)]
    cases Term.joint? a op ts <;> rfl

end

theorem Term.truth_negation {t : Term} (h : t.isComplete = true) (type : SqlType) :
    (Term.negation type t).truth a = Logic.not (t.truth a) := by
  rw [truth, value?, value?_of_isComplete h]
  rfl

theorem Term.truth_condition {t : Term} (h : t.isComplete = true) (negated : Bool)
    (key : ItemKey) : (Term.condition negated key t).truth a =
      if negated then Logic.not (t.truth a) else t.truth a := by
  rw [truth, value?, value?_of_isComplete h]
  cases negated <;> rfl

theorem Term.isComplete_asCondition {key : ItemKey} {t : Term} (h : t.isComplete = true) :
    (t.asCondition key).isComplete = true := by
  unfold asCondition
  split
  case h_6 => exact h
  all_goals split <;> exact h

/-- Joined conditions are complete if each of them is. -/
theorem Connective.isComplete_join {op : Connective} {xs : List Operand} (nonempty : xs ≠ [])
    (h : ∀ x ∈ xs, x.term.isComplete = true) : (join op xs).isComplete = true := by
  unfold join
  rw [if_neg (by simpa using nonempty)]
  split
  · exact Term.isComplete_asCondition (by cases op <;> rfl)
  split
  · exact Term.isComplete_asCondition (by cases op <;> rfl)
  · rename_i x only
    exact Term.isComplete_asCondition (h x (List.mem_filter.mp (only ▸ List.mem_singleton_self x)).1)
  · rename_i someKept notSingle
    obtain ⟨x, mem⟩ := List.exists_mem_of_ne_nil _ someKept
    have operands (x : Operand) (hx : x.term.isComplete = true) :
        op.operands x ≠ [] ∧ ∀ t ∈ op.operands x, t.isComplete = true := by
      unfold Connective.operands
      split
      · rename_i op' ts same
        rw [same] at hx
        split
        · exact Term.isComplete_group.mp hx
        · simpa using hx
      · simpa [Operand.asCondition] using Term.isComplete_asCondition hx
    refine Term.isComplete_group.mpr ⟨?_, fun t ht => ?_⟩
    · have := (operands x (h x (List.mem_filter.mp mem).1)).1
      simp only [ne_eq, List.flatMap_eq_nil_iff, not_forall]
      exact ⟨x, mem, this⟩
    · obtain ⟨y, hy, hty⟩ := List.mem_flatMap.mp ht
      exact (operands y (h y (List.mem_filter.mp hy).1)).2 t hty

end FluentQuery.Sql
