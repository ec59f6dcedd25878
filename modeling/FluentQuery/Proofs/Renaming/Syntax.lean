import FluentQuery.Proofs.Bulk
import FluentQuery.Proofs.Counting
import FluentQuery.Proofs.CurrentFrame
import FluentQuery.Proofs.Isolation
import FluentQuery.Proofs.Meaning
import Mathlib.Logic.Function.Basic

/-! Renamings of the numbers and addresses that a program's objects carry, and what they do to
SQL. Two runs of one program that start from different numbers make the same statements up to a
renaming. -/

namespace FluentQuery

open Sql

/-- Other numbers for numbered objects, aliases and parameters, and other addresses for what changes
over time. Different ones stay different, and data from outside keeps its number. -/
structure Renaming where
  number : Nat → Nat
  address : Space → Nat → Nat
  number_injective : Function.Injective number
  address_injective : ∀ space, Function.Injective (address space)
  number_zero : number 0 = 0

variable {ρ : Renaming}

@[simp] theorem Renaming.number_inj {m n : Nat} : ρ.number m = ρ.number n ↔ m = n :=
  ρ.number_injective.eq_iff

@[simp] theorem Renaming.address_inj {space : Space} {m n : Nat} :
    ρ.address space m = ρ.address space n ↔ m = n :=
  (ρ.address_injective space).eq_iff

/-! ### Sources and columns -/

def Alias.rename (ρ : Renaming) : Alias → Alias
  | .numbered n => .numbered (ρ.number n)
  | .paired owner => .paired (owner.map ρ.number)
  | .joined n => .joined n

def Mapped.rename (ρ : Renaming) (m : Mapped) : Mapped := ⟨m.entity, m.alias?.map ρ.number⟩

def Source.rename (ρ : Renaming) (s : Source) : Source := ⟨s.table, s.alias?.map (Alias.rename ρ)⟩

def Attribute.rename (ρ : Renaming) (a : Attribute) : Attribute := ⟨a.owner.rename ρ, a.member⟩

namespace Sql

def ColumnRef.rename (ρ : Renaming) (c : ColumnRef) : ColumnRef := ⟨c.source.rename ρ, c.column⟩

def ItemKey.rename (ρ : Renaming) : ItemKey → ItemKey
  | column c => column (c.rename ρ)
  | constant c => constant c
  | relationship a => relationship (a.rename ρ)
  | expression id => expression (ρ.number id)

def Identity.rename (ρ : Renaming) : Identity → Identity
  | mapped m => mapped (m.rename ρ)
  | member a => member (a.rename ρ)
  | expression key => expression (key.rename ρ)
  | emptyTuple => emptyTuple
  | numbered kind id => numbered kind (ρ.number id)
  | address space index => address space (ρ.address space index)

/-- Data stay as they are. -/
def Literal.rename (ρ : Renaming) : Literal → Literal
  | plain d => plain d
  | object identity => object (identity.rename ρ)

def Placeholder.rename (ρ : Renaming) (p : Placeholder) : Placeholder :=
  ⟨ρ.number p.id, p.base, p.value.rename ρ, p.type⟩

def Join.rename (ρ : Renaming) (j : Join) : Join :=
  ⟨j.owner.rename ρ, j.relationship, j.target.rename ρ, j.outer⟩

def RowBound.rename (ρ : Renaming) (b : RowBound) : RowBound := ⟨ρ.number b.id, b.value⟩

def Correlation.rename (ρ : Renaming) : Correlation → Correlation
  | automatic => automatic
  | only roots => only (roots.map (Source.rename ρ))
  | allBut own => allBut (own.map (Source.rename ρ))

end Sql

namespace Alias

@[simp] theorem rename_inj {a b : Alias} : a.rename ρ = b.rename ρ ↔ a = b := by
  cases a <;> cases b <;> simp [rename, (Option.map_injective ρ.number_injective).eq_iff]

theorem rename_injective (ρ : Renaming) : Function.Injective (rename ρ) := fun _ _ => rename_inj.mp

end Alias

namespace Mapped

@[simp] theorem rename_inj {a b : Mapped} : a.rename ρ = b.rename ρ ↔ a = b := by
  cases a
  cases b
  simp [rename, (Option.map_injective ρ.number_injective).eq_iff]

@[simp] theorem rename_entity (m : Mapped) : (m.rename ρ).entity = m.entity := rfl

@[simp] theorem rename_isNone (m : Mapped) : (m.rename ρ).alias?.isNone = m.alias?.isNone := by
  simp [rename]

@[simp] theorem rename_source (m : Mapped) : (m.rename ρ).source = m.source.rename ρ := by
  obtain ⟨entity, _ | n⟩ := m <;> rfl

end Mapped

namespace Source

@[simp] theorem rename_inj {a b : Source} : a.rename ρ = b.rename ρ ↔ a = b := by
  cases a
  cases b
  simp [rename, (Option.map_injective (Alias.rename_injective ρ)).eq_iff]

theorem rename_injective (ρ : Renaming) : Function.Injective (rename ρ) := fun _ _ => rename_inj.mp

@[simp] theorem rename_table (s : Source) : (s.rename ρ).table = s.table := rfl

@[simp] theorem rename_isNone (s : Source) : (s.rename ρ).alias?.isNone = s.alias?.isNone := by
  simp [rename]

end Source

@[simp] theorem Table.source_rename (t : Table) : t.source.rename ρ = t.source := rfl

namespace Attribute

@[simp] theorem rename_inj {a b : Attribute} : a.rename ρ = b.rename ρ ↔ a = b := by
  cases a
  cases b
  simp [rename]

@[simp] theorem rename_key (a : Attribute) : (a.rename ρ).key = a.key := rfl

end Attribute

namespace Sql

namespace ColumnRef

@[simp] theorem rename_inj {a b : ColumnRef} : a.rename ρ = b.rename ρ ↔ a = b := by
  cases a
  cases b
  simp [rename]

theorem rename_injective (ρ : Renaming) : Function.Injective (rename ρ) := fun _ _ => rename_inj.mp

@[simp] theorem rename_column (c : ColumnRef) : (c.rename ρ).column = c.column := rfl

@[simp] theorem rename_source (c : ColumnRef) : (c.rename ρ).source = c.source.rename ρ := rfl

end ColumnRef

@[simp] theorem ItemKey.rename_inj {a b : ItemKey} : a.rename ρ = b.rename ρ ↔ a = b := by
  cases a <;> cases b <;> simp [rename]

namespace Literal

@[simp] theorem rename_plain (d : Datum) : (plain d).rename ρ = plain d := rfl

@[simp] theorem rename_type (l : Literal) : (l.rename ρ).type = l.type := by
  cases l <;> rfl

@[simp] theorem rename_typeBeside (l : Literal) (t : SqlType) :
    (l.rename ρ).typeBeside t = l.typeBeside t := by
  simp [typeBeside]

end Literal

/-! ### Expressions and statements -/

mutual

def Term.rename (ρ : Renaming) : Term → Term
  | .column c => .column (c.rename ρ)
  | .constant c => .constant c
  | .literal p => .literal (p.rename ρ)
  | .parameter name type => .parameter name type
  | .arithmetic op type ts => .arithmetic op type (Term.renameAll ρ ts)
  | .compare op reflexive left right => .compare op reflexive (left.rename ρ) (right.rename ρ)
  | .group op ts => .group op (Term.renameAll ρ ts)
  | .condition negated key t => .condition negated (key.rename ρ) (t.rename ρ)
  | .negation type t => .negation type (t.rename ρ)
  | .function name type ts => .function name type (Term.renameAll ρ ts)
  | .extract field t => .extract field (t.rename ρ)
  | .cast type key t => .cast type (key.rename ρ) (t.rename ρ)
  | .star => .star
  | .distinct t => .distinct (t.rename ρ)
  | .among negated t values => .among negated (t.rename ρ) (values.rename ρ)
  | .nonempty s => .nonempty (s.rename ρ)
  | .scalar s => .scalar (s.rename ρ)
  | .whole s => .whole (s.rename ρ)
  | .sorted d t => .sorted d (t.rename ρ)
  | .label name => .label name

def Term.renameAll (ρ : Renaming) : List Term → List Term
  | [] => []
  | t :: ts => t.rename ρ :: Term.renameAll ρ ts

def SelectItem.rename (ρ : Renaming) : SelectItem → SelectItem
  | .mapped m => .mapped (m.rename ρ)
  | .expression key t => .expression (key.rename ρ) (t.rename ρ)
  | .verbatim text => .verbatim text

def SelectItem.renameAll (ρ : Renaming) : List SelectItem → List SelectItem
  | [] => []
  | item :: items => item.rename ρ :: SelectItem.renameAll ρ items

def Select.rename (ρ : Renaming) : Select → Select
  | .mk items distinct roots joins conditions groupBy having orderBy correlation limit offset
      supplied =>
    ⟨SelectItem.renameAll ρ items, distinct, roots.map (Source.rename ρ),
      joins.map (Join.rename ρ), Term.renameAll ρ conditions, Term.renameAll ρ groupBy,
      Term.renameAll ρ having, Term.renameAll ρ orderBy, correlation.rename ρ,
      limit.map (RowBound.rename ρ), offset.map (RowBound.rename ρ),
      supplied.map fun x => (x.1, x.2.rename ρ)⟩

def Assignment.rename (ρ : Renaming) : Assignment → Assignment
  | .plain column value => .plain column (value.rename ρ)
  | .computed column t => .computed column (t.rename ρ)

def Assignment.renameAll (ρ : Renaming) : List Assignment → List Assignment
  | [] => []
  | a :: as => a.rename ρ :: Assignment.renameAll ρ as

def Statement.rename (ρ : Renaming) : Statement → Statement
  | .select s => .select (s.rename ρ)
  | .delete target conditions => .delete (target.rename ρ) (Term.renameAll ρ conditions)
  | .update target assignments conditions =>
    .update (target.rename ρ) (Assignment.renameAll ρ assignments) (Term.renameAll ρ conditions)

end

attribute [simp] Term.rename SelectItem.rename Select.rename Assignment.rename Statement.rename

@[simp] theorem Term.renameAll_eq (ts : List Term) :
    Term.renameAll ρ ts = ts.map (Term.rename ρ) := by
  induction ts with
  | nil => rfl
  | cons t ts ih => rw [Term.renameAll, ih, List.map_cons]

@[simp] theorem SelectItem.renameAll_eq (items : List SelectItem) :
    SelectItem.renameAll ρ items = items.map (SelectItem.rename ρ) := by
  induction items with
  | nil => rfl
  | cons item items ih => rw [SelectItem.renameAll, ih, List.map_cons]

@[simp] theorem Assignment.renameAll_eq (as : List Assignment) :
    Assignment.renameAll ρ as = as.map (Assignment.rename ρ) := by
  induction as with
  | nil => rfl
  | cons a as ih => rw [Assignment.renameAll, ih, List.map_cons]

@[simp] theorem Assignment.rename_column (a : Assignment) : (a.rename ρ).column = a.column := by
  cases a <;> rfl

mutual

theorem Term.rename_type (t : Term) : (t.rename ρ).type = t.type := by
  cases t with
  | constant c => rfl
  | distinct t => simpa [Term.type] using t.rename_type
  | scalar s => simpa [Term.type] using s.rename_type
  | _ => rfl

theorem Select.rename_type (s : Select) : (s.rename ρ).type = s.type := by
  obtain ⟨items⟩ := s
  cases items with
  | nil => rfl
  | cons item items => simpa [Select.type, SelectItem.firstType] using item.rename_type

theorem SelectItem.rename_type (item : SelectItem) : (item.rename ρ).type = item.type := by
  cases item with
  | expression key t => simpa [SelectItem.type] using t.rename_type
  | _ => rfl

end

attribute [simp] Term.rename_type Select.rename_type

end Sql

end FluentQuery
