import FluentQuery.Proofs.Renaming.From

/-! Building an expression from renamed operands gives the renamed expression. -/

namespace FluentQuery

variable {ρ : Renaming}

namespace Sql

/-! ### Operands -/

def Operand.rename (ρ : Renaming) (x : Operand) : Operand := ⟨x.key.rename ρ, x.term.rename ρ⟩

@[simp] theorem Operand.rename_constant (c : Constant) :
    (Operand.constant c).rename ρ = Operand.constant c := rfl

namespace Term

@[simp] theorem rename_parameterBase (t : Term) : (t.rename ρ).parameterBase = t.parameterBase := by
  cases t <;> rfl

@[simp] theorem rename_isOperand (t : Term) : (t.rename ρ).isOperand = t.isOperand := by
  cases t with
  | cast type key t => cases type <;> rfl
  | _ => rfl

@[simp] theorem rename_isUnchanged (t : Term) : (t.rename ρ).isUnchanged = t.isUnchanged := by
  cases t <;> rfl

@[simp] theorem rename_isConstant (c : Constant) (t : Term) :
    Connective.isConstant c (t.rename ρ) = Connective.isConstant c t := by
  cases t <;> rfl

theorem rename_summands (op : Arithmetic) (type : SqlType) (t : Term) :
    (t.rename ρ).summands op type = (t.summands op type).map (rename ρ) := by
  cases t with
  | arithmetic op' type' operands =>
    simp only [rename, renameAll_eq, summands]
    split <;> simp
  | _ => rfl

@[simp] theorem rename_calculate (op : Arithmetic) (left right : Term) :
    (left.rename ρ).calculate op (right.rename ρ) = (left.calculate op right).rename ρ := by
  simp [calculate, rename_summands]

@[simp] theorem rename_asCondition (key : ItemKey) (t : Term) :
    (t.rename ρ).asCondition (key.rename ρ) = (t.asCondition key).rename ρ := by
  cases t with
  | column | function | literal | parameter =>
    simp only [rename, asCondition, apply_ite (rename ρ)]
    rfl
  | constant c => cases c <;> rfl
  | _ => rfl

theorem rename_negate (fresh : Nat) (key : ItemKey) (t : Term) :
    (t.rename ρ).negate (ρ.number fresh) (key.rename ρ) = (t.negate fresh key).rename ρ := by
  have typed := t.rename_type (ρ := ρ)
  cases t with
  | compare op reflexive left right => simp [negate]
  | constant c => cases c <;> rfl
  | condition negated inner t => cases t <;> rfl
  | arithmetic op type ts =>
    match ts with
    | [] | [_] | _ :: _ :: _ :: _ => rfl
    | [a, b] =>
      simp [negate, apply_ite (rename ρ)]
  | negation type t => cases type <;> rfl
  | column | function | literal | parameter | extract | cast | star | distinct | scalar | whole
  | sorted | label =>
    simp only [rename] at typed
    simp only [rename, negate, typed, apply_ite (rename ρ)]
  | _ => rfl

@[simp] theorem rename_isSpecializedBy (a b : Term) :
    (a.rename ρ).isSpecializedBy (b.rename ρ) = a.isSpecializedBy b := by
  cases a with
  | arithmetic op type ts => rcases ts with _ | ⟨_, _ | ⟨_, _ | ⟨_, _⟩⟩⟩ <;> cases b <;> rfl
  | _ => cases b <;> rfl

end Term

namespace Connective

theorem operands_rename (op : Connective) (x : Operand) :
    op.operands (x.rename ρ) = (op.operands x).map (Term.rename ρ) := by
  obtain ⟨key, t⟩ := x
  have own := Term.rename_asCondition (ρ := ρ) key t
  cases t with
  | group op' ts =>
    simp only [Operand.rename, Term.rename, Term.renameAll_eq, operands]
    split <;> simp
  | _ => exact congrArg ([·]) own

theorem join_rename (op : Connective) (xs : List Operand) :
    op.join (xs.map (Operand.rename ρ)) = (op.join xs).rename ρ := by
  have plain (c : Constant) :
      (Operand.constant c).asCondition = ((Operand.constant c).asCondition).rename ρ := by
    cases c <;> rfl
  have kept : (xs.map (Operand.rename ρ)).filter (fun x => !isConstant op.neutral x.term) =
      (xs.filter fun x => !isConstant op.neutral x.term).map (Operand.rename ρ) := by
    rw [List.filter_map]
    simp [Function.comp_def, Operand.rename]
  unfold join
  rw [List.isEmpty_map, kept, List.any_map]
  simp only [Function.comp_def, Operand.rename, Term.rename_isConstant]
  split
  · rfl
  split
  · exact plain _
  generalize xs.filter (fun x => !isConstant op.neutral x.term) = kept
  match kept with
  | [] => exact plain _
  | [x] => exact Term.rename_asCondition x.key x.term
  | x :: y :: rest => simp [operands_rename, List.map_flatMap, List.flatMap_map]

end Connective

@[simp] theorem Comparison.withConstant?_rename (op : Comparison) (reflexive : Bool) (t : Term)
    (c : Constant) :
    op.withConstant? reflexive (t.rename ρ) c = (op.withConstant? reflexive t c).map (Term.rename ρ) := by
  cases op <;> cases c <;> rfl

namespace Placeholder

theorem beside_rename (id : Nat) (other : Term) (v : Literal) :
    beside (ρ.number id) (other.rename ρ) (v.rename ρ) = (beside id other v).rename ρ := by
  simp [beside, rename]

theorem argument_rename (id : Nat) (function : String) (v : Literal) :
    argument (ρ.number id) function (v.rename ρ) = (argument id function v).rename ρ := by
  simp [argument, rename]

end Placeholder

theorem Function.type_rename (name : String) (args : List Term) :
    Function.type name (args.map (Term.rename ρ)) = Function.type name args := by
  simp [Function.type, Function.comp_def]

end Sql

open Sql

/-! ### Relationships -/

theorem Relationship.condition_rename (r : Relationship) (owner target pair : Source) :
    r.condition (owner.rename ρ) (target.rename ρ) (pair.rename ρ) =
      (r.condition owner target pair).rename ρ := by
  cases r <;> rfl

namespace Attribute

theorem condition_rename (a : Attribute) (r : Relationship) :
    (a.rename ρ).condition r = (a.condition r).rename ρ := by
  have pair : (⟨r.pairing?.getD r.target.table, some (.paired (a.rename ρ).owner.alias?)⟩ : Source) =
      (⟨r.pairing?.getD r.target.table, some (.paired a.owner.alias?)⟩ : Source).rename ρ := rfl
  unfold condition
  dsimp only
  rw [pair, ← Relationship.condition_rename]
  simp [Attribute.rename]

theorem existence_rename (a : Attribute) (r : Relationship) (fresh : Nat) :
    (a.rename ρ).existence r (ρ.number fresh) = (a.existence r fresh).rename ρ := by
  obtain ⟨⟨entity, alias?⟩, member⟩ := a
  cases entity <;> cases r <;> cases alias? <;> rfl

end Attribute

end FluentQuery
