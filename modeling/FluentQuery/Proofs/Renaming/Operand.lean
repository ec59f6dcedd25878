import FluentQuery.Proofs.Renaming.Condition
import FluentQuery.Proofs.Renaming.Text
import FluentQuery.Proofs.Renaming.Value

/-! What is read off a renamed value is what is read off the value, renamed: whether it is null or
counts as the same object as another, the data it is, and the part of a statement it stands for. -/

namespace FluentQuery

open Sql

variable {ρ : Renaming}

namespace RefId

@[simp] theorem rename_inj {a b : RefId} : a.rename ρ = b.rename ρ ↔ a = b := by
  cases a
  cases b
  simp [rename]

end RefId

namespace ContextId

@[simp] theorem rename_inj {a b : ContextId} : a.rename ρ = b.rename ρ ↔ a = b := by
  cases a
  cases b
  simp [rename]

end ContextId

namespace QueryId

@[simp] theorem rename_inj {a b : QueryId} : a.rename ρ = b.rename ρ ↔ a = b := by
  cases a
  cases b
  simp [rename]

end QueryId

namespace MappingId

@[simp] theorem rename_inj {a b : MappingId} : a.rename ρ = b.rename ρ ↔ a = b := by
  cases a
  cases b
  simp [rename]

end MappingId

@[simp] theorem Mapped.name_rename (m : Mapped) : (m.rename ρ).name = m.name := by
  obtain ⟨entity, _ | n⟩ := m <;> rfl

@[simp] theorem Mapped.attribute?_rename (m : Mapped) (key : String) :
    (m.rename ρ).attribute? key = (m.attribute? key).map (Attribute.rename ρ) := by
  unfold attribute?
  rw [rename_entity, Option.map_map]
  rfl

@[simp] theorem Sql.Statement.className_rename (s : Statement) :
    (s.rename ρ).className = s.className := by
  cases s <;> rfl

@[simp] theorem Sql.Term.className_rename (t : Term) : (t.rename ρ).className = t.className := by
  cases t with
  | constant c => cases c <;> rfl
  | arithmetic op type ts => rcases ts with _ | ⟨_, _ | ⟨_, _ | ⟨_, _⟩⟩⟩ <;> rfl
  | whole s => exact s.className_rename
  | _ => rfl

/-- Numbers are compared as before. -/
theorem Renaming.number_beq (m n : Nat) : (ρ.number m == ρ.number n) = (m == n) :=
  beq_of_injective ρ.number_injective m n

/-! ### Objects -/

namespace Value

@[simp] theorem isNull_rename (v : Value) : (v.rename ρ).isNull = v.isNull := by
  cases v <;> rfl

/-- Values of different kinds are never one object; of one kind, the numbers or addresses decide. -/
theorem same_rename (v w : Value) : (v.rename ρ).same (w.rename ρ) = v.same w := by
  have number := ρ.number_beq
  cases v with
  | null | bool | int | float | text | list | tuple | row | statement | queryBuilder
  | criteriaBuilder => cases w <;> simp [same, number]
  | mapped | member | ref | context | query | mapping =>
    refine Bool.eq_iff_iff.mpr ?_
    cases w <;> simp [same]
  | closure a | configurer a | stream a | queryType a | session a | frame a =>
    cases a
    cases w <;> first
      | rfl
      | (rename_i b; cases b; exact number _ _)
  | term i t =>
    cases w with
    | term j u =>
      cases t with
      | constant => cases u <;> simp [same, number]
      | column =>
        refine Bool.eq_iff_iff.mpr ?_
        cases u <;> simp [same]
      | _ => exact number _ _
    | _ => cases t <;> rfl

@[simp] theorem isCallable_rename (v : Value) : (v.rename ρ).isCallable = v.isCallable := by
  cases v with
  | mapped m => exact m.rename_isNone
  | _ => rfl

@[simp] theorem datum?_rename (v : Value) : (v.rename ρ).datum? = v.datum? := by
  cases v <;> rfl

theorem identity?_rename (v : Value) :
    (v.rename ρ).identity? = v.identity?.map (Identity.rename ρ) := by
  cases v with
  | tuple id items => cases items <;> rfl
  | term id t => cases t <;> rfl
  | closure c | configurer c | stream c | queryType c | frame c => cases c; rfl
  | _ => rfl

@[simp] theorem carried_rename (v : Value) : (v.rename ρ).carried = v.carried.rename ρ := by
  simp only [carried, identity?_rename, datum?_rename]
  cases v.identity? <;> rfl

@[simp] theorem bound?_rename (v : Value) : (v.rename ρ).bound? = v.bound? := by
  cases v <;> rfl

/-! ### Operands -/

@[simp] theorem subject?_rename (v : Value) :
    (v.rename ρ).subject? = v.subject?.map (Term.rename ρ) := by
  cases v with
  | member a =>
    obtain ⟨owner, _ | r⟩ := a
    · simp [subject?, Attribute.rename, ColumnRef.rename]
    · exact congrArg some (Attribute.condition_rename ⟨owner, .relationship r⟩ r)
  | _ => rfl

@[simp] theorem expression?_rename (v : Value) :
    (v.rename ρ).expression? = v.expression?.map (Term.rename ρ) := by
  cases v with
  | statement id s => cases s <;> rfl
  | member a => exact subject?_rename (.member a)
  | _ => rfl

@[simp] theorem isExpression_rename (v : Value) : (v.rename ρ).isExpression = v.isExpression := by
  simp [isExpression]

@[simp] theorem isRelationship_rename (v : Value) :
    (v.rename ρ).isRelationship = v.isRelationship := by
  cases v with
  | member a => obtain ⟨owner, _ | r⟩ := a <;> rfl
  | _ => rfl

@[simp] theorem constant?_rename (v : Value) : (v.rename ρ).constant? = v.constant? := by
  cases v with
  | term id t => cases t <;> rfl
  | _ => rfl

@[simp] theorem key_rename (v : Value) : (v.rename ρ).key = v.key.rename ρ := by
  cases v with
  | member a =>
    obtain ⟨owner, _ | r⟩ := a
    · simp [key, Attribute.rename, ItemKey.rename, ColumnRef.rename]
    · rfl
  | term id t => cases t <;> rfl
  | _ => rfl

theorem key_beq_rename (v w : Value) :
    ((v.rename ρ).key == (w.rename ρ).key) = (v.key == w.key) := by
  rw [key_rename, key_rename]
  exact beq_of_injective (fun _ _ => ItemKey.rename_inj.mp) v.key w.key

@[simp] theorem isCarried_rename (v : Value) : (v.rename ρ).isCarried = v.isCarried := by
  cases v <;> rfl

@[simp] theorem typedBeside_rename (other t : Term) :
    typedBeside (other.rename ρ) (t.rename ρ) = (typedBeside other t).rename ρ := by
  cases t with
  | parameter name type => cases type <;> simp [typedBeside]
  | literal p =>
    simp only [Term.rename, typedBeside, Placeholder.rename, Term.rename_type]
    split <;> rfl
  | _ => rfl

@[simp] theorem condition_rename (v : Value) :
    (v.rename ρ).condition = v.condition.map (Operand.rename ρ) := by
  cases v with
  | member a =>
    obtain ⟨⟨entity, _ | n⟩, c | r⟩ := a
    · rfl
    · cases r <;> rfl
    · rfl
    · cases r <;> rfl
  | term id t =>
    cases t with
    | cast type => cases type <;> rfl
    | _ => rfl
  | statement id s => cases s <;> rfl
  | _ => rfl

@[simp] theorem sortKey_rename (v : Value) :
    (v.rename ρ).sortKey = v.sortKey.map (Term.rename ρ) := by
  cases v with
  | member a =>
    obtain ⟨owner, _ | r⟩ := a
    · simp [sortKey, expression?, subject?, Attribute.rename, ColumnRef.rename, Except.map]
    · rfl
  | statement id s => cases s <;> rfl
  | _ => rfl

/-! ### Statements -/

@[simp] theorem selectItem_rename (v : Value) :
    (v.rename ρ).selectItem = v.selectItem.map (SelectItem.rename ρ) := by
  cases v with
  | text id s =>
    by_cases star : s = "*"
    · subst star
      rfl
    · simp [selectItem, star, constant?, subject?, Except.map]
  | member a =>
    obtain ⟨⟨entity, _ | n⟩, c | r⟩ := a
    · rfl
    · cases r <;> rfl
    · rfl
    · cases r <;> rfl
  | term id t => cases t <;> rfl
  | _ => rfl

@[simp] theorem source?_rename (v : Value) : (v.rename ρ).source? = v.source?.map (Mapped.rename ρ) := by
  cases v <;> rfl

@[simp] theorem mappedOrExternal_rename (v : Value) :
    (v.rename ρ).mappedOrExternal = v.mappedOrExternal.map (Mapped.rename ρ) := by
  rw [mappedOrExternal, source?_rename, mappedOrExternal]
  cases v.source? <;> rfl

@[simp] theorem isAssignable_rename (v : Value) : (v.rename ρ).isAssignable = v.isAssignable := by
  cases v with
  | statement id s => cases s <;> rfl
  | _ => simp [isAssignable]

@[simp] theorem assignment_rename (c : Column) (v : Value) :
    (v.rename ρ).assignment c = (v.assignment c).rename ρ := by
  simp only [assignment, expression?_rename, carried_rename]
  cases v.expression? <;> rfl

@[simp] theorem attributeKey?_rename (v : Value) : (v.rename ρ).attributeKey? = v.attributeKey? := by
  cases v with
  | term id t => cases t <;> rfl
  | _ => rfl

@[simp] theorem name?_rename (v : Value) : (v.rename ρ).name? = v.name? := by
  cases v with
  | mapped m => exact congrArg some m.name_rename
  | configurer c => cases c; simp [name?]
  | _ => rfl

end Value

@[simp] theorem Bound.toValue_rename (b : Bound) : b.toValue.rename ρ = b.toValue := by
  cases b <;> simp [toValue, ρ.number_zero]

end FluentQuery
