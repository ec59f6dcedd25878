import FluentQuery.Proofs.Renaming.Machine

/-! Renamings compose: whatever is renamed by one and then by another is renamed by both at once. -/

namespace FluentQuery

open Sql

namespace Renaming

/-- First `ρ`, then `σ`. -/
def comp (σ ρ : Renaming) : Renaming where
  number n := σ.number (ρ.number n)
  address space i := σ.address space (ρ.address space i)
  number_injective := σ.number_injective.comp ρ.number_injective
  address_injective space := (σ.address_injective space).comp (ρ.address_injective space)
  number_zero := by rw [ρ.number_zero, σ.number_zero]

@[simp] theorem number_comp (σ ρ : Renaming) : (σ.comp ρ).number = σ.number ∘ ρ.number := rfl

@[simp] theorem address_comp (σ ρ : Renaming) (space : Space) :
    (σ.comp ρ).address space = σ.address space ∘ ρ.address space := rfl

end Renaming

variable {σ ρ : Renaming}

/-! ### SQL -/

@[simp] theorem Alias.rename_comp (a : Alias) : a.rename (σ.comp ρ) = (a.rename ρ).rename σ := by
  cases a <;> simp [Alias.rename]

@[simp] theorem Mapped.rename_comp (m : Mapped) :
    m.rename (σ.comp ρ) = (m.rename ρ).rename σ := by
  simp [Mapped.rename]

@[simp] theorem Source.rename_comp (s : Source) : s.rename (σ.comp ρ) = (s.rename ρ).rename σ := by
  obtain ⟨table, _ | a⟩ := s
  · rfl
  · exact congrArg (Source.mk table ∘ some) (a.rename_comp)

@[simp] theorem Attribute.rename_comp (a : Attribute) :
    a.rename (σ.comp ρ) = (a.rename ρ).rename σ :=
  congrArg (Attribute.mk · a.member) a.owner.rename_comp

namespace Sql

@[simp] theorem ColumnRef.rename_comp (c : ColumnRef) :
    c.rename (σ.comp ρ) = (c.rename ρ).rename σ :=
  congrArg (ColumnRef.mk · c.column) c.source.rename_comp

@[simp] theorem ItemKey.rename_comp (k : ItemKey) :
    k.rename (σ.comp ρ) = (k.rename ρ).rename σ := by
  cases k with
  | column c => exact congrArg ItemKey.column c.rename_comp
  | relationship a => exact congrArg ItemKey.relationship a.rename_comp
  | _ => rfl

@[simp] theorem Identity.rename_comp (i : Identity) :
    i.rename (σ.comp ρ) = (i.rename ρ).rename σ := by
  cases i with
  | mapped m => exact congrArg Identity.mapped m.rename_comp
  | member a => exact congrArg Identity.member a.rename_comp
  | expression k => exact congrArg Identity.expression k.rename_comp
  | _ => rfl

@[simp] theorem Literal.rename_comp (l : Literal) :
    l.rename (σ.comp ρ) = (l.rename ρ).rename σ := by
  cases l with
  | plain d => rfl
  | object i => exact congrArg Literal.object i.rename_comp

@[simp] theorem Placeholder.rename_comp (p : Placeholder) :
    p.rename (σ.comp ρ) = (p.rename ρ).rename σ :=
  congrArg (Placeholder.mk _ p.base · p.type) p.value.rename_comp

@[simp] theorem Join.rename_comp (j : Join) : j.rename (σ.comp ρ) = (j.rename ρ).rename σ := by
  simp [Join.rename]

@[simp] theorem Correlation.rename_comp (c : Correlation) :
    c.rename (σ.comp ρ) = (c.rename ρ).rename σ := by
  cases c <;> simp [Correlation.rename]

mutual

theorem Term.rename_comp : ∀ t : Term, t.rename (σ.comp ρ) = (t.rename ρ).rename σ
  | .column _ | .constant _ | .literal _ | .parameter .. | .star | .label _ => by simp
  | .arithmetic _ _ ts | .group _ ts | .function _ _ ts => by
    simp only [Term.rename, Term.renameAll_comp ts]
  | .compare _ _ left right => by
    simp only [Term.rename, Term.rename_comp left, Term.rename_comp right]
  | .condition _ _ t | .negation _ t | .extract _ t | .cast _ _ t | .distinct t | .among _ t _
  | .sorted _ t => by simp only [Term.rename, Term.rename_comp t, ItemKey.rename_comp,
    Placeholder.rename_comp]
  | .nonempty s | .scalar s => by simp only [Term.rename, Select.rename_comp s]
  | .whole s => by simp only [Term.rename, Statement.rename_comp s]

theorem Term.renameAll_comp :
    ∀ ts : List Term, Term.renameAll (σ.comp ρ) ts = Term.renameAll σ (Term.renameAll ρ ts)
  | [] => rfl
  | t :: ts => congrArg₂ List.cons (Term.rename_comp t) (Term.renameAll_comp ts)

theorem SelectItem.rename_comp : ∀ item : SelectItem,
    item.rename (σ.comp ρ) = (item.rename ρ).rename σ
  | .mapped m => congrArg SelectItem.mapped m.rename_comp
  | .expression key t => congrArg₂ SelectItem.expression key.rename_comp (Term.rename_comp t)
  | .verbatim _ => rfl

theorem SelectItem.renameAll_comp : ∀ items : List SelectItem,
    SelectItem.renameAll (σ.comp ρ) items = SelectItem.renameAll σ (SelectItem.renameAll ρ items)
  | [] => rfl
  | item :: items =>
    congrArg₂ List.cons (SelectItem.rename_comp item) (SelectItem.renameAll_comp items)

theorem Select.rename_comp : ∀ s : Select, s.rename (σ.comp ρ) = (s.rename ρ).rename σ
  | .mk items _ _ _ conditions groupBy having orderBy .. => by
    simp only [Select.rename, SelectItem.renameAll_comp items, Term.renameAll_comp conditions,
      Term.renameAll_comp groupBy, Term.renameAll_comp having, Term.renameAll_comp orderBy,
      Correlation.rename_comp, List.map_map, Option.map_map]
    simp only [Select.mk.injEq, List.map_inj_left, Function.comp_apply, Source.rename_comp,
      Join.rename_comp, Literal.rename_comp, implies_true, true_and, and_true]
    exact ⟨rfl, rfl⟩

theorem Assignment.rename_comp : ∀ a : Assignment, a.rename (σ.comp ρ) = (a.rename ρ).rename σ
  | .plain column value => congrArg (Assignment.plain column) value.rename_comp
  | .computed column t => congrArg (Assignment.computed column) (Term.rename_comp t)

theorem Assignment.renameAll_comp : ∀ as : List Assignment,
    Assignment.renameAll (σ.comp ρ) as = Assignment.renameAll σ (Assignment.renameAll ρ as)
  | [] => rfl
  | a :: as => congrArg₂ List.cons (Assignment.rename_comp a) (Assignment.renameAll_comp as)

theorem Statement.rename_comp : ∀ s : Statement, s.rename (σ.comp ρ) = (s.rename ρ).rename σ
  | .select s => congrArg Statement.select (Select.rename_comp s)
  | .delete target conditions =>
    congrArg₂ Statement.delete target.rename_comp (Term.renameAll_comp conditions)
  | .update target assignments conditions => by
    simp only [Statement.rename, Mapped.rename_comp, Assignment.renameAll_comp assignments,
      Term.renameAll_comp conditions]

end

end Sql

/-! ### Values -/

mutual

theorem Value.rename_comp : ∀ v : Value, v.rename (σ.comp ρ) = (v.rename ρ).rename σ
  | .null | .bool _ | .int .. | .float .. | .text .. | .criteriaBuilder _ | .session _ | .ref _
  | .context _ | .query _ | .mapping _ => rfl
  | .list _ items | .tuple _ items | .row _ items =>
    by simp only [Value.rename, Value.renameAll_comp items, Renaming.number_comp, Function.comp]
  | .mapped m => congrArg Value.mapped m.rename_comp
  | .member a => congrArg Value.member a.rename_comp
  | .term _ t => congrArg (Value.term _) t.rename_comp
  | .statement _ s => congrArg (Value.statement _) s.rename_comp
  | .closure c => congrArg Value.closure (Closure.rename_comp c)
  | .configurer c => congrArg Value.configurer (Configurer.rename_comp c)
  | .stream s => congrArg Value.stream (Stream.rename_comp s)
  | .queryType t => congrArg Value.queryType (QueryType.rename_comp t)
  | .queryBuilder _ session => congrArg (Value.queryBuilder _) (Value.rename_comp session)
  | .frame f => congrArg Value.frame (Frame.rename_comp f)

theorem Value.renameAll_comp : ∀ vs : List Value,
    Value.renameAll (σ.comp ρ) vs = Value.renameAll σ (Value.renameAll ρ vs)
  | [] => rfl
  | v :: vs => congrArg₂ List.cons (Value.rename_comp v) (Value.renameAll_comp vs)

theorem Value.renameFields_comp : ∀ fields : List (String × Value),
    Value.renameFields (σ.comp ρ) fields = Value.renameFields σ (Value.renameFields ρ fields)
  | [] => rfl
  | (_, v) :: fields =>
    congrArg₂ (fun w ws => (_, w) :: ws) (Value.rename_comp v) (Value.renameFields_comp fields)

theorem Closure.rename_comp : ∀ c : Closure, c.rename (σ.comp ρ) = (c.rename ρ).rename σ
  | .mk _ params body scope =>
    congrArg (Closure.mk _ params body) (Value.renameFields_comp scope)

theorem QueryType.rename_comp : ∀ t : QueryType, t.rename (σ.comp ρ) = (t.rename ρ).rename σ
  | .mk _ purpose entity => congrArg (QueryType.mk _ purpose) (Value.rename_comp entity)

theorem Frame.rename_comp : ∀ f : Frame, f.rename (σ.comp ρ) = (f.rename ρ).rename σ
  | .mk _ builder query =>
    congrArg₂ (Frame.mk _) (Value.rename_comp builder) (Value.rename_comp query)

theorem Projection.rename_comp : ∀ p : Projection, p.rename (σ.comp ρ) = (p.rename ρ).rename σ
  | .whole | .held _ => rfl
  | .named key => congrArg Projection.named (Value.rename_comp key)
  | .function f => congrArg Projection.function (Value.rename_comp f)

theorem Projection.renameKeys_comp : ∀ keys : List (Projection × Value),
    Projection.renameKeys (σ.comp ρ) keys =
      Projection.renameKeys σ (Projection.renameKeys ρ keys)
  | [] => rfl
  | (p, v) :: keys => by
    simp only [Projection.renameKeys, Projection.rename_comp p, Value.rename_comp v,
      Projection.renameKeys_comp keys]

theorem Ordering.rename_comp : ∀ o : Ordering, o.rename (σ.comp ρ) = (o.rename ρ).rename σ
  | .keys keys => congrArg Ordering.keys (Projection.renameKeys_comp keys)
  | .listed f => congrArg Ordering.listed (Value.rename_comp f)

theorem Grouping.rename_comp : ∀ g : Grouping, g.rename (σ.comp ρ) = (g.rename ρ).rename σ
  | .key p => congrArg Grouping.key (Projection.rename_comp p)
  | .listed f => congrArg Grouping.listed (Value.rename_comp f)

theorem Step.rename_comp : ∀ step : Step, step.rename (σ.comp ρ) = (step.rename ρ).rename σ
  | .distinct | .count | .bounded _ => rfl
  | .filter t p => congrArg₂ Step.filter (Value.rename_comp t) (Projection.rename_comp p)
  | .peek f => congrArg Step.peek (Value.rename_comp f)
  | .modify f => congrArg Step.modify (Value.rename_comp f)
  | .transform f => congrArg Step.transform (Value.rename_comp f)
  | .bind _ p => congrArg (Step.bind _) (Projection.rename_comp p)
  | .sort o => congrArg Step.sort (Ordering.rename_comp o)
  | .group g => congrArg Step.group (Grouping.rename_comp g)
  | .having p => congrArg Step.having (Projection.rename_comp p)
  | .map p => congrArg Step.map (Projection.rename_comp p)
  | .addRoot _ entity => congrArg (Step.addRoot _) (Value.rename_comp entity)
  | .join key outer => congrArg₂ Step.join (Value.rename_comp key) (Value.rename_comp outer)
  | .assign key v => congrArg₂ Step.assign (Value.rename_comp key) (Value.rename_comp v)

theorem Step.renameAll_comp : ∀ steps : List Step,
    Step.renameAll (σ.comp ρ) steps = Step.renameAll σ (Step.renameAll ρ steps)
  | [] => rfl
  | step :: steps => congrArg₂ List.cons (Step.rename_comp step) (Step.renameAll_comp steps)

theorem Origin.rename_comp : ∀ o : Origin, o.rename (σ.comp ρ) = (o.rename ρ).rename σ
  | .root v => congrArg Origin.root (Value.rename_comp v)
  | .correlated v => congrArg Origin.correlated (Value.rename_comp v)
  | .function v => congrArg Origin.function (Value.rename_comp v)

theorem Configurer.rename_comp : ∀ c : Configurer, c.rename (σ.comp ρ) = (c.rename ρ).rename σ
  | .mk _ origin steps =>
    congrArg₂ (Configurer.mk _) (Origin.rename_comp origin) (Step.renameAll_comp steps)

theorem Stream.rename_comp : ∀ s : Stream, s.rename (σ.comp ρ) = (s.rename ρ).rename σ
  | .mk _ _ session queryType configurer _ _ params options => by
    simp only [Stream.rename, Value.rename_comp session, Value.rename_comp queryType,
      Value.rename_comp configurer, Value.renameFields_comp params,
      Value.renameFields_comp options, Renaming.number_comp, Function.comp]

end

/-! ### Stores -/

/-- Data that a composition of renamings acts on as one renaming after the other. -/
class Composable (α : Type) [Renamable α] : Prop where
  rename_comp : ∀ (σ ρ : Renaming) (a : α), rename (σ.comp ρ) a = rename σ (rename ρ a)

instance : Composable Value := ⟨fun _ _ v => v.rename_comp⟩

instance : Composable Executable where
  rename_comp _ _ q := by simp [rename, Executable.rename, Value.rename_comp, MappingId.rename]

instance : Composable String := ⟨fun _ _ _ => rfl⟩

instance {α : Type} [Renamable α] [Composable α] : Composable (Option α) where
  rename_comp σ ρ x := by
    cases x with
    | none => rfl
    | some a => exact congrArg some (Composable.rename_comp σ ρ a)

instance {α : Type} [Renamable α] [Composable α] : Composable (List α) where
  rename_comp σ ρ xs := by
    induction xs with
    | nil => rfl
    | cons x xs ih => exact congrArg₂ List.cons (Composable.rename_comp σ ρ x) ih

instance {α β : Type} [Renamable α] [Renamable β] [Composable α] [Composable β] :
    Composable (α × β) where
  rename_comp σ ρ x :=
    congrArg₂ Prod.mk (Composable.rename_comp σ ρ x.1) (Composable.rename_comp σ ρ x.2)

variable {F : Footprint}

/-- What a second renaming leaves alone is a counterpart up to both. -/
theorem Counterpart.comp_of_fixed {α : Type} [Renamable α] [Composable α] {a b : α}
    (h : Counterpart ρ F a b) (fixed : rename σ b = b) : Counterpart (σ.comp ρ) F a b :=
  ⟨by rw [Composable.rename_comp, ← h.eq, fixed], h.within⟩

end FluentQuery
