import FluentQuery.Proofs.Renaming.From
import FluentQuery.Sql.Render

/-! A renamed statement has the same text, and the same parameters up to the renaming: the names
that a text generates depend on the order in which they are asked for, not on any number. -/

namespace FluentQuery.Sql

variable {ρ : Renaming}

/-! ### Generated names -/

def NameKey.rename (ρ : Renaming) : NameKey → NameKey
  | source s => source (s.rename ρ)
  | placeholder id => placeholder (ρ.number id)
  | label item => label (item.rename ρ)
  | repeatLabel item count => repeatLabel (item.rename ρ) count

theorem NameKey.rename_injective (ρ : Renaming) : Function.Injective (rename ρ) := by
  intro a b h
  cases a <;> cases b <;> simp_all [rename]

def ParameterOrigin.rename (ρ : Renaming) : ParameterOrigin → ParameterOrigin
  | generated id => generated (ρ.number id)
  | assigned => assigned
  | named => named

def Parameter.rename (ρ : Renaming) (p : Parameter) : Parameter :=
  ⟨p.name, p.origin.rename ρ, p.written, p.value.rename ρ⟩

/-- Values by name, renamed. -/
def renameValues (ρ : Renaming) (values : List (String × Literal)) : List (String × Literal) :=
  values.map fun x => (x.1, x.2.rename ρ)

namespace Naming

def rename (ρ : Renaming) (n : Naming) : Naming :=
  ⟨n.counters, n.names.map fun x => (x.1.rename ρ, x.2), n.parameters.map (Parameter.rename ρ),
    renameValues ρ n.supplied, n.pairings⟩

@[simp] theorem rename_empty : empty.rename ρ = empty := rfl

theorem generate_rename (n : Naming) (key : NameKey) (base : String) :
    (n.rename ρ).generate (key.rename ρ) base =
      ((n.generate key base).1, (n.generate key base).2.rename ρ) := by
  have known : (n.rename ρ).names.lookup (key.rename ρ) = n.names.lookup key := by
    have := lookup_map (NameKey.rename_injective ρ) id n.names key
    simpa [rename] using this
  have counted : (n.rename ρ).count base = n.count base := rfl
  unfold generate
  rw [known, counted]
  cases n.names.lookup key <;> rfl

@[simp] theorem clash_rename (a b : ParameterOrigin) :
    clash (a.rename ρ) (b.rename ρ) = clash a b := by
  cases a <;> cases b <;> simp [clash, ParameterOrigin.rename, bne, beq_of_injective ρ.number_injective]

@[simp] theorem writtenName_rename (n : Naming) (name : String) :
    (n.rename ρ).writtenName name = n.writtenName name := by
  simp [writtenName, rename, Parameter.rename, Function.comp_def]

theorem addParameter_rename (n : Naming) (name : String) (origin : ParameterOrigin) (v : Literal) :
    (n.rename ρ).addParameter name (origin.rename ρ) (v.rename ρ) =
      (n.addParameter name origin v).map fun x => (x.1, x.2.rename ρ) := by
  have found : (n.rename ρ).parameters.find? (·.name == name) =
      (n.parameters.find? (·.name == name)).map (Parameter.rename ρ) := by
    rw [rename, List.find?_map]
    rfl
  unfold addParameter
  rw [found, writtenName_rename]
  cases n.parameters.find? (·.name == name) with
  | none => simp [rename, Parameter.rename, Except.map]
  | some p =>
    simp only [Option.map_some, Parameter.rename, clash_rename]
    split <;> rfl

@[simp] theorem values_rename (n : Naming) : (n.rename ρ).values = renameValues ρ n.values := by
  have supplied (name : String) :
      (renameValues ρ n.supplied).lookup name = (n.supplied.lookup name).map (Literal.rename ρ) :=
    lookup_map_values _ _ _
  simp only [values, rename, renameValues, List.map_map]
  refine List.map_congr_left fun p _ => ?_
  have own := supplied p.name
  simp only [renameValues] at own
  simp only [Function.comp_apply, Parameter.rename, own]
  cases n.supplied.lookup p.name <;> rfl

end Naming

/-! ### Renderings in step -/

/-- `y`, on renamed names, gives what `x` gives, changed by `f`, and leaves the renamed names. -/
def InStep (ρ : Renaming) {α β : Type} (f : α → β) (x : Render α) (y : Render β) : Prop :=
  ∀ n, y.run (n.rename ρ) = (x.run n).map fun p => (f p.1, p.2.rename ρ)

/-- `y`, on renamed names, gives the very text, or whatever else has no numbers, that `x` gives. -/
abbrev SameText (ρ : Renaming) {α : Type} (x y : Render α) : Prop := InStep ρ id x y

namespace InStep

variable {α β γ δ : Type} {f : α → β} {g : γ → δ}

theorem pure (a : α) : InStep ρ f (pure a) (pure (f a)) := fun _ => rfl

/-- What a text is made of keeps the text. -/
theorem pure_id (a : α) : SameText ρ (Pure.pure a) (Pure.pure a) := fun _ => rfl

theorem throw (e : RenderError) : InStep ρ f (throw e) (throw e) := fun _ => rfl

theorem bind {x : Render α} {y : Render β} {k : α → Render γ} {l : β → Render δ}
    (h : InStep ρ f x y) (hk : ∀ a, InStep ρ g (k a) (l (f a))) :
    InStep ρ g (x >>= k) (y >>= l) := by
  intro n
  rw [StateT.run_bind, StateT.run_bind, h n]
  cases x.run n with
  | error e => rfl
  | ok p => exact hk p.1 p.2

/-- What comes after a text, or after anything else that has no numbers. -/
theorem andThen {x y : Render α} {k : α → Render γ} {l : α → Render δ} (h : SameText ρ x y)
    (hk : ∀ a, InStep ρ g (k a) (l a)) : InStep ρ g (x >>= k) (y >>= l) :=
  h.bind hk

theorem ite {c d : Prop} [Decidable c] [Decidable d] {x x' : Render α} {y y' : Render β}
    (hc : c ↔ d) (h : InStep ρ f x y) (h' : InStep ρ f x' y') :
    InStep ρ f (if c then x else x') (if d then y else y') := by
  by_cases hd : d
  · rwa [if_pos hd, if_pos (hc.mpr hd)]
  · rwa [if_neg hd, if_neg (mt hc.mp hd)]

/-- A check that may refuse, before the rest. -/
theorem guarded {c d : Prop} [Decidable c] [Decidable d] {e : RenderError}
    {k : PUnit → Render α} {l : PUnit → Render β} {x : Render α} {y : Render β} (hc : c ↔ d)
    (h : InStep ρ f x y) :
    InStep ρ f (if c then MonadExcept.throw e >>= k else x)
      (if d then MonadExcept.throw e >>= l else y) :=
  .ite hc (fun _ => rfl) h

/-- The names are read. -/
theorem get {k : Naming → Render γ} {l : Naming → Render δ}
    (h : ∀ n, InStep ρ g (k n) (l (n.rename ρ))) : InStep ρ g (get >>= k) (get >>= l) :=
  fun n => h n n

theorem modify {s t : Naming → Naming} (h : ∀ n, t (n.rename ρ) = (s n).rename ρ) :
    SameText ρ (modify s) (modify t) :=
  fun n => congrArg (fun n => Except.ok ((), n)) (h n)

theorem nameOf (key : NameKey) (base : String) :
    SameText ρ (nameOf key base) (nameOf (key.rename ρ) base) :=
  fun n => congrArg Except.ok (n.generate_rename key base)

theorem parameterText (name : String) (origin : ParameterOrigin) (v : Literal) :
    SameText ρ (parameterText name origin v) (parameterText name (origin.rename ρ) (v.rename ρ)) := by
  intro n
  have added := n.addParameter_rename (ρ := ρ) name origin v
  unfold Sql.parameterText
  simp only [StateT.run_bind, StateT.run_get, pure_bind, added]
  cases n.addParameter name origin v <;> rfl

theorem mapM {xs : List α} {k l : α → Render γ} (h : ∀ a, SameText ρ (k a) (l a)) :
    SameText ρ (xs.mapM k) (xs.mapM l) := by
  induction xs with
  | nil => exact pure_id _
  | cons x xs ih =>
    rw [List.mapM_cons, List.mapM_cons]
    exact (h x).andThen fun _ => ih.andThen fun _ => pure_id _

theorem orFail (e : RenderError) (f : α → β) (x : Option α) :
    InStep ρ f (orFail e x) (Sql.orFail e (x.map f)) := by
  cases x <;> exact fun _ => rfl

theorem orFail_same (e : RenderError) (x : Option α) :
    SameText ρ (Sql.orFail e x) (Sql.orFail e x) := by
  cases x <;> exact fun _ => rfl

end InStep

/-! ### Labels -/

def EntryName.rename (ρ : Renaming) : EntryName → EntryName
  | plain name => plain name
  | label key => label (key.rename ρ)

theorem EntryName.rename_injective (ρ : Renaming) : Function.Injective (rename ρ) := by
  intro a b h
  cases a <;> cases b <;> simp_all [rename]

def Label.rename (ρ : Renaming) : Label → Label
  | given name => given name
  | generated key base => generated (key.rename ρ) base

namespace Term

@[simp] theorem keepsName_rename (t : Term) : (t.rename ρ).keepsName = t.keepsName := by
  cases t with
  | condition _ _ u | negation _ u | sorted _ u => cases u <;> rfl
  | _ => rfl

end Term

namespace Shown

def rename (ρ : Renaming) (s : Shown) : Shown :=
  ⟨s.columns.map (ColumnRef.rename ρ),
    s.names.map fun x => (x.1.rename ρ, x.2.map (ColumnRef.rename ρ)), s.repeats⟩

@[simp] theorem start_rename : start.rename ρ = start := rfl

theorem lookup_rename (s : Shown) (name : EntryName) :
    (s.rename ρ).names.lookup (name.rename ρ) =
      (s.names.lookup name).map (Option.map (ColumnRef.rename ρ)) :=
  lookup_map (EntryName.rename_injective ρ) _ _ _

theorem contains_rename (s : Shown) (c : ColumnRef) :
    (s.rename ρ).columns.contains (c.rename ρ) = s.columns.contains c :=
  contains_map (ColumnRef.rename_injective ρ) _ _

/-- A label and what has been shown with it, renamed. -/
def renameLabelled (ρ : Renaming) (x : Option Label × Shown) : Option Label × Shown :=
  (x.1.map (Label.rename ρ), x.2.rename ρ)

theorem isSome_lookup_rename (s : Shown) (name : EntryName) :
    ((s.rename ρ).names.lookup (name.rename ρ)).isSome = (s.names.lookup name).isSome := by
  rw [lookup_rename, Option.isSome_map]

theorem column_rename (s : Shown) (c : ColumnRef) :
    (s.rename ρ).column (c.rename ρ) = renameLabelled ρ (s.column c) := by
  have plain : (s.rename ρ).names.lookup (.plain c.column.key) = _ :=
    s.lookup_rename (.plain c.column.key)
  have labelled : ((s.rename ρ).names.lookup (.label (.column (c.rename ρ)))).isSome = _ :=
    s.isSome_lookup_rename (.label (.column c))
  have holder (d : Option ColumnRef) :
      (d.map (ColumnRef.rename ρ) == some (c.rename ρ)) = (d == some c) :=
    beq_of_injective (Option.map_injective (ColumnRef.rename_injective ρ)) d (some c)
  simp only [column, ColumnRef.rename_column, plain, labelled]
  cases s.names.lookup (.plain c.column.key) with
  | none => rfl
  | some d =>
    simp only [Option.map_some, holder]
    split <;> rfl

/-- The name of an expression's entry, its label, and what the label of a repeated entry starts
from. -/
def entry (key : ItemKey) : Term → EntryName × Label × String
  | t@(.condition _ inner (.column c)) =>
    (.plain c.column.key, .generated (.label inner) t.labelBase, "anon")
  | .cast _ _ (.column c) => (.plain c.column.key, .given c.column.key, c.column.key)
  | .condition _ inner u | .cast _ inner u =>
    (.label inner, .generated (.label inner) u.labelBase, "anon")
  | t => (.label key, .generated (.label key) t.labelBase, t.labelBase)

theorem entry_rename (key : ItemKey) (t : Term) :
    entry (key.rename ρ) (t.rename ρ) =
      ((entry key t).1.rename ρ, (entry key t).2.1.rename ρ, (entry key t).2.2) := by
  cases t with
  | condition _ _ u | cast _ _ u => cases u <;> rfl
  | negation _ u | sorted _ u => cases u <;> rfl
  | _ => rfl

theorem expression_eq (s : Shown) (key : ItemKey) (t : Term) :
    s.expression key t =
      let (name, first, base) := entry key t
      let (l, s) := if (s.names.lookup name).isSome then (s.enter name none).repeated key base
        else (first, s.enter name none)
      (if t.keepsName then none else some l, s) := by
  cases t with
  | condition _ _ u | cast _ _ u => cases u <;> rfl
  | _ => rfl

theorem expression_rename (s : Shown) (key : ItemKey) (t : Term) :
    (s.rename ρ).expression (key.rename ρ) (t.rename ρ) = renameLabelled ρ (s.expression key t) := by
  rw [expression_eq, expression_eq, entry_rename]
  simp only [isSome_lookup_rename, Term.keepsName_rename]
  cases (s.names.lookup (entry key t).1).isSome <;> cases t.keepsName <;> rfl

end Shown

theorem plainLabel_rename (key : ItemKey) (t : Term) :
    plainLabel (key.rename ρ) (t.rename ρ) = (plainLabel key t).map (Label.rename ρ) := by
  cases t with
  | condition _ _ u | cast _ _ u => cases u <;> rfl
  | negation _ u | sorted _ u => cases u <;> rfl
  | _ => rfl

theorem labelSuffix_inStep (l : Option Label) :
    SameText ρ (labelSuffix l) (labelSuffix (l.map (Label.rename ρ))) := by
  rcases l with _ | name | ⟨key, base⟩
  · exact .pure_id _
  · exact .pure_id _
  · exact (InStep.nameOf key base).andThen fun _ => .pure_id _

/-! ### Texts without nested expressions -/

end FluentQuery.Sql

namespace FluentQuery.Source

open Sql

variable {ρ : Renaming}

theorem reference_inStep (s : Source) : SameText ρ s.reference (s.rename ρ).reference := by
  obtain ⟨table, _ | a⟩ := s
  · exact .pure_id _
  · exact .nameOf (.source ⟨table, some a⟩) _

theorem declaration_inStep (s : Source) : SameText ρ s.declaration (s.rename ρ).declaration := by
  have reference := s.reference_inStep (ρ := ρ)
  obtain ⟨table, _ | a⟩ := s
  · exact .pure_id _
  · exact reference.andThen fun _ => .pure_id _

end FluentQuery.Source

namespace FluentQuery.Sql

variable {ρ : Renaming}

theorem ColumnRef.text_inStep (c : ColumnRef) : SameText ρ c.text (c.rename ρ).text :=
  c.source.reference_inStep.andThen fun _ => .pure_id _

theorem Placeholder.text_inStep (p : Placeholder) : SameText ρ p.text (p.rename ρ).text :=
  (InStep.nameOf (.placeholder p.id) _).andThen fun _ => .parameterText _ _ _

theorem RowBound.text_inStep (b : RowBound) : SameText ρ b.text (b.rename ρ).text :=
  (InStep.nameOf (.placeholder b.id) _).andThen fun _ =>
    (InStep.parameterText _ _ _).andThen fun _ => .pure_id _

theorem Equality.text_inStep (e : Equality) : SameText ρ e.text (e.rename ρ).text :=
  e.left.text_inStep.andThen fun _ => e.right.text_inStep.andThen fun _ => .pure_id _

namespace FromItem

theorem text_inStep (item : FromItem) : SameText ρ item.text (item.rename ρ).text := by
  induction item with
  | source s => exact s.declaration_inStep
  | join left right on outer ihl ihr =>
    refine ihl.andThen fun l => ihr.andThen fun r => on.text_inStep.andThen fun t => ?_
    cases right <;> exact .pure_id _

theorem textOfAll_inStep (items : List FromItem) :
    SameText ρ (textOfAll items) (textOfAll (items.map (FromItem.rename ρ))) := by
  induction items with
  | nil => exact .pure_id _
  | cons item items ih => exact item.text_inStep.andThen fun _ => ih.andThen fun _ => .pure_id _

end FromItem

theorem boundsText_inStep (limit offset : Option RowBound) :
    SameText ρ (boundsText limit offset)
      (boundsText (limit.map (RowBound.rename ρ)) (offset.map (RowBound.rename ρ))) := by
  cases limit with
  | none =>
    cases offset with
    | none => exact .pure_id _
    | some o => exact o.text_inStep.andThen fun _ => .pure_id _
  | some l =>
    cases offset with
    | none => exact l.text_inStep.andThen fun _ => .pure_id _
    | some o => exact l.text_inStep.andThen fun _ => o.text_inStep.andThen fun _ => .pure_id _

/-- The texts of columns with what has been shown. -/
def renameShown (ρ : Renaming) (x : List String × Shown) : List String × Shown :=
  (x.1, x.2.rename ρ)

theorem entityColumns_inStep (tellApart : Bool) (m : Mapped) (shown : Shown) (cs : List Column) :
    InStep ρ (renameShown ρ) (entityColumns tellApart m shown cs)
      (entityColumns tellApart (m.rename ρ) (shown.rename ρ) cs) := by
  induction cs generalizing shown with
  | nil => exact .pure _
  | cons c cs ih =>
    have ref : (⟨(m.rename ρ).source, c⟩ : ColumnRef) = (⟨m.source, c⟩ : ColumnRef).rename ρ := by
      rw [Mapped.rename_source]
      rfl
    unfold entityColumns
    simp only [ref, Shown.contains_rename, Shown.column_rename]
    refine .ite Iff.rfl (ih shown) ?_
    have label : (if tellApart then
        (Shown.renameLabelled ρ (shown.column ⟨m.source, c⟩)).1 else none) =
        (if tellApart then (shown.column ⟨m.source, c⟩).1 else none).map (Label.rename ρ) := by
      cases tellApart <;> rfl
    rw [label]
    refine (labelSuffix_inStep _).andThen fun suffix => ?_
    refine (ColumnRef.text_inStep _).andThen fun text => ?_
    exact (ih _).bind fun rest => .pure _

/-! ### Conditions of a clause -/

@[simp] theorem isConstant_rename (c : Constant) (t : Term) :
    Connective.isConstant c (t.rename ρ) = Connective.isConstant c t := by
  cases t <;> rfl

@[simp] theorem enclose_rename (outer : Operator) (t : Term) (text : String) :
    enclose outer (t.rename ρ) text = enclose outer t text := by
  simp [enclose]

theorem shownConditions_rename (ts : List Term) (t : Term) :
    shownConditions (ts.map (Term.rename ρ)) (t.rename ρ) = shownConditions ts t := by
  have every : (ts.map (Term.rename ρ)).all (Connective.isConstant .true) =
      ts.all (Connective.isConstant .true) := by simp [Function.comp_def]
  unfold shownConditions
  rw [every]
  split
  · rfl
  · exact congrArg (!·) (isConstant_rename _ _)

@[simp] theorem conditionOperator_rename (ts : List Term) :
    conditionOperator (ts.map (Term.rename ρ)) = conditionOperator ts := by
  unfold conditionOperator
  rw [List.filter_map, List.length_map]
  simp only [Function.comp_def, shownConditions_rename]

@[simp] theorem conjunctionText_rename (keyword : String) (ts : List Term) (shown : List String) :
    conjunctionText keyword (ts.map (Term.rename ρ)) shown = conjunctionText keyword ts shown := by
  simp [conjunctionText, Function.comp_def]

/-! ### Bare names -/

/-- What names mean, renamed. -/
def renameNames (ρ : Renaming) (names : List (String × Term)) : List (String × Term) :=
  names.map fun x => (x.1, x.2.rename ρ)

@[simp] theorem SelectItem.sortName?_rename (item : SelectItem) :
    (item.rename ρ).sortName? = item.sortName? := by
  cases item with
  | expression key t =>
    cases t with
    | condition _ _ u => cases u <;> simp [sortName?]
    | _ => simp [sortName?]
  | _ => rfl

@[simp] theorem SelectItem.entries_rename (item : SelectItem) :
    (item.rename ρ).entries = item.entries.map (SelectItem.rename ρ) := by
  cases item with
  | mapped m =>
    simp [entries, ItemKey.rename, ColumnRef.rename, Function.comp_def]
  | _ => rfl

@[simp] theorem providedNames_rename (items : List FromItem) :
    providedNames (items.map (FromItem.rename ρ)) = renameNames ρ (providedNames items) := by
  simp [providedNames, renameNames, Function.comp_def]

@[simp] theorem listedNames_rename (items : List SelectItem) :
    listedNames (items.map (SelectItem.rename ρ)) = renameNames ρ (listedNames items) := by
  simp only [listedNames, renameNames, List.flatMap_map, SelectItem.entries_rename,
    ← List.map_flatMap, List.filterMap_map, List.map_reverse, List.map_filterMap]
  refine congrArg _ (List.filterMap_congr fun item _ => ?_)
  cases item with
  | expression key t =>
    have name := SelectItem.sortName?_rename (ρ := ρ) (.expression key t)
    simp only [SelectItem.rename] at name
    simp [name, Function.comp_def]
  | _ => rfl

theorem namedText_inStep (t : Term) : SameText ρ (namedText t) (namedText (t.rename ρ)) := by
  cases t with
  | column c => exact c.text_inStep
  | condition negated key u =>
    cases u with
    | column c => exact c.text_inStep.andThen fun _ => .pure_id _
    | _ => exact .pure_id _
  | parameter name type =>
    exact (InStep.parameterText name .named .null).andThen fun _ => .pure_id _
  | _ => exact .pure_id _

theorem bareText_inStep (scope : Scope) (name : String) :
    SameText ρ (bareText scope name) (bareText (scope.rename ρ) name) := by
  obtain ⟨nearest, every, names⟩ := scope
  cases names with
  | none => exact .pure_id _
  | some names =>
    have found : (names.map fun x => (x.1, x.2.rename ρ)).lookup name =
        (names.lookup name).map (Term.rename ρ) := lookup_map_values _ _ _
    simp only [bareText, Scope.rename, Option.map_some, found]
    exact (InStep.orFail _ _ _).bind namedText_inStep

/-! ### Statements -/

theorem extraSources_rename (target : Source) (read : List Source) :
    extraSources (target.rename ρ) (read.map (Source.rename ρ)) =
      (extraSources target read).map (Source.rename ρ) := by
  have other (s : Source) : (s.rename ρ != target.rename ρ) = (s != target) :=
    congrArg (!·) (beq_of_injective (Source.rename_injective ρ) s target)
  simp only [extraSources, List.filter_map, Function.comp_def, other]
  exact eraseDups_map (Source.rename_injective ρ) _

mutual

theorem Term.text_inStep (scope : Scope) (t : Term) :
    SameText ρ (t.text scope) ((t.rename ρ).text (scope.rename ρ)) := by
  cases t with
  | column c => exact c.text_inStep
  | constant c => exact .pure_id _
  | literal p => exact p.text_inStep.andThen fun _ => .pure_id _
  | parameter name type =>
    exact (InStep.parameterText name .named .null).andThen fun _ => .pure_id _
  | arithmetic op type ts =>
    simp only [Term.rename, Term.renameAll_eq, Term.text]
    exact (Term.operandTexts_inStep scope _ (fun _ => rfl) ts).andThen fun _ => .pure_id _
  | compare op reflexive left right =>
    refine (left.text_inStep scope).andThen fun l => (right.text_inStep scope).andThen fun r => ?_
    simp only [enclose_rename]
    exact .pure_id _
  | group op ts =>
    simp only [Term.rename, Term.renameAll_eq, Term.text]
    exact (Term.operandTexts_inStep scope _ (fun _ => rfl) ts).andThen fun _ => .pure_id _
  | condition negated key t =>
    refine (t.text_inStep scope).andThen fun s => ?_
    simp only [enclose_rename]
    exact .pure_id _
  | negation type t =>
    refine (t.text_inStep scope).andThen fun s => ?_
    simp only [enclose_rename]
    exact .pure_id _
  | function name type ts =>
    simp only [Term.rename, Term.renameAll_eq, Term.text, List.isEmpty_map]
    refine (Term.operandTexts_inStep scope _ (fun _ => rfl) ts).andThen fun args => ?_
    cases callText name ts.isEmpty (written args) with
    | ok text => exact .pure_id _
    | error e => exact .throw _
  | extract field t =>
    exact (InStep.orFail_same _ field).andThen fun f =>
      (t.text_inStep scope).andThen fun _ => .pure_id _
  | cast type key t => exact (t.text_inStep scope).andThen fun _ => .pure_id _
  | star => exact .pure_id _
  | distinct t =>
    refine (t.text_inStep scope).andThen fun s => ?_
    simp only [enclose_rename]
    exact .pure_id _
  | among negated t values =>
    refine (t.text_inStep scope).andThen fun s => values.text_inStep.andThen fun name => ?_
    simp only [enclose_rename]
    exact .pure_id _
  | nonempty s => exact (s.text_inStep false scope).andThen fun _ => .pure_id _
  | scalar s => exact (s.text_inStep false scope).andThen fun _ => .pure_id _
  | whole s => exact s.text_inStep scope
  | sorted d t =>
    refine (t.text_inStep scope).andThen fun s => ?_
    simp only [enclose_rename]
    exact .pure_id _
  | label name => exact bareText_inStep scope name

theorem Term.operandTexts_inStep (scope : Scope) (outer : Operator) {keep keep' : Term → Bool}
    (same : ∀ t, keep' (t.rename ρ) = keep t) (ts : List Term) :
    SameText ρ (Term.operandTexts scope outer keep ts)
      (Term.operandTexts (scope.rename ρ) outer keep' (ts.map (Term.rename ρ))) := by
  cases ts with
  | nil => exact .pure_id _
  | cons t ts =>
    have rest := Term.operandTexts_inStep scope outer same ts
    simp only [List.map_cons, Term.operandTexts, same, enclose_rename]
    refine .ite Iff.rfl ?_ rest
    exact (t.text_inStep scope).andThen fun _ => rest.andThen fun _ => .pure_id _

theorem SelectItem.texts_inStep (scope : Scope) (tellApart : Bool) (shown : Shown)
    (items : List SelectItem) :
    SameText ρ (SelectItem.texts scope tellApart shown items)
      (SelectItem.texts (scope.rename ρ) tellApart (shown.rename ρ)
        (items.map (SelectItem.rename ρ))) := by
  cases items with
  | nil => exact .pure_id _
  | cons item items =>
    cases item with
    | mapped m =>
      refine (entityColumns_inStep tellApart m shown _).bind fun x => ?_
      exact (SelectItem.texts_inStep scope tellApart x.2 items).andThen fun _ => .pure_id _
    | verbatim text =>
      exact (SelectItem.texts_inStep scope tellApart shown items).andThen fun _ => .pure_id _
    | expression key t =>
      have rest (shown : Shown) := SelectItem.texts_inStep scope tellApart shown items
      have text := t.text_inStep scope
      have shownAs {labelled labelled' : Option Label × Shown}
          (same : labelled' = Shown.renameLabelled ρ labelled) :
          SameText ρ (do
            let suffix ← labelSuffix (if tellApart then labelled.1 else plainLabel key t)
            let text ← t.text scope
            return (text ++ suffix) :: (← SelectItem.texts scope tellApart labelled.2 items)) (do
            let suffix ← labelSuffix (if tellApart then labelled'.1
              else plainLabel (key.rename ρ) (t.rename ρ))
            let text ← (t.rename ρ).text (scope.rename ρ)
            return (text ++ suffix) :: (← SelectItem.texts (scope.rename ρ) tellApart labelled'.2
              (items.map (SelectItem.rename ρ)))) := by
        have label : (if tellApart then labelled'.1 else plainLabel (key.rename ρ) (t.rename ρ)) =
            (if tellApart then labelled.1 else plainLabel key t).map (Label.rename ρ) := by
          rw [same, plainLabel_rename]
          cases tellApart <;> rfl
        rw [label, same]
        refine (labelSuffix_inStep _).andThen fun _ => text.andThen fun _ => ?_
        exact (rest _).andThen fun _ => .pure_id _
      simp only [List.map_cons, SelectItem.rename, SelectItem.texts]
      cases t with
      | column c => exact .guarded Iff.rfl (shownAs (shown.column_rename c))
      | cast type inner u =>
        cases type <;> exact .guarded Iff.rfl (shownAs (shown.expression_rename key _))
      | _ => exact .guarded Iff.rfl (shownAs (shown.expression_rename key _))

theorem Select.text_inStep (tellApart : Bool) (scope : Scope) (s : Select) :
    SameText ρ (s.text tellApart scope) ((s.rename ρ).text tellApart (scope.rename ρ)) := by
  have elements (pairing : Nat) := s.fromItems_rename (ρ := ρ) pairing
  obtain ⟨items, distinct, roots, joins, conditions, groupBy, having, orderBy, correlation, limit,
    offset, supplied⟩ := s
  simp only [Select.rename, SelectItem.renameAll_eq, Term.renameAll_eq] at elements
  simp only [Select.rename, SelectItem.renameAll_eq, Term.renameAll_eq, Select.text]
  refine .guarded (by simp) (.guarded (by simp [Join.rename, Function.comp_def]) ?_)
  refine (InStep.modify fun n => by simp [Naming.supply, Naming.rename, renameValues]).andThen
    fun _ => .get fun n => ?_
  refine InStep.bind (f := fun x => (x.1.map (FromItem.rename ρ), x.2)) ?_ fun x => ?_
  · rw [elements]
    exact .orFail _ _ _
  refine InStep.andThen (.modify fun n => by rfl) fun _ => ?_
  refine InStep.bind (f := List.map (FromItem.rename ρ)) ?_ fun kept => ?_
  · rw [Scope.keep?_rename]
    exact .orFail _ _ _
  have read : (kept.map (FromItem.rename ρ)).flatMap FromItem.sources =
      (kept.flatMap FromItem.sources).map (Source.rename ρ) := by
    simp [List.flatMap_map, List.map_flatMap]
  have nested (names : List (String × Term)) :
      (scope.rename ρ).nest ((kept.flatMap FromItem.sources).map (Source.rename ρ))
        (renameNames ρ names) = (scope.nest (kept.flatMap FromItem.sources) names).rename ρ :=
    scope.nest_rename _ _
  have names : renameNames ρ (listedNames items) ++ renameNames ρ (providedNames x.1) =
      renameNames ρ (listedNames items ++ providedNames x.1) := (List.map_append ..).symm
  simp only [read, providedNames_rename, listedNames_rename, names, nested,
    conditionOperator_rename, conjunctionText_rename]
  refine (SelectItem.texts_inStep _ tellApart .start items).andThen fun columns => ?_
  refine (FromItem.textOfAll_inStep kept).andThen fun froms => ?_
  refine (Term.operandTexts_inStep _ _ (shownConditions_rename _) conditions).andThen fun wheres => ?_
  refine (Term.operandTexts_inStep _ _ (fun _ => rfl) groupBy).andThen fun groups => ?_
  refine (Term.operandTexts_inStep _ _ (shownConditions_rename _) having).andThen fun havings => ?_
  refine (Term.operandTexts_inStep _ _ (fun _ => rfl) orderBy).andThen fun orders => ?_
  exact (boundsText_inStep limit offset).andThen fun bounds => .pure_id _

theorem Assignment.text?_inStep (scope : Scope) (column : Column) (as : List Assignment) :
    SameText ρ (Assignment.text? scope column as)
      (Assignment.text? (scope.rename ρ) column (as.map (Assignment.rename ρ))) := by
  cases as with
  | nil => exact .pure_id _
  | cons a as =>
    have rest := Assignment.text?_inStep scope column as
    cases a with
    | plain c l =>
      simp only [List.map_cons, Assignment.rename, Assignment.text?]
      refine .ite Iff.rfl rest ?_
      exact (InStep.parameterText c.key .assigned l).andThen fun _ => .pure_id _
    | computed c t =>
      simp only [List.map_cons, Assignment.rename, Assignment.text?, enclose_rename]
      exact .ite Iff.rfl rest ((t.text_inStep scope).andThen fun _ => .pure_id _)

theorem Statement.text_inStep (scope : Scope) (s : Statement) :
    SameText ρ (s.text scope) ((s.rename ρ).text (scope.rename ρ)) := by
  cases s with
  | select s => exact s.text_inStep true scope
  | delete target conditions =>
    simp only [Statement.rename, Term.renameAll_eq, Statement.text, Term.sourcesOfAll_rename,
      extraSources_rename, map_source_rename, conditionOperator_rename, conjunctionText_rename]
    refine target.declaration_inStep.andThen fun table => ?_
    refine (FromItem.textOfAll_inStep _).andThen fun others => ?_
    have inner := scope.nest_rename (ρ := ρ)
      (target :: extraSources target (Term.sourcesOfAll conditions)) []
    simp only [List.map_cons, List.map_nil] at inner
    rw [inner]
    exact (Term.operandTexts_inStep _ _ (shownConditions_rename _) conditions).andThen
      fun _ => .pure_id _
  | update target assignments conditions =>
    have assigned : (assignments.map (Assignment.rename ρ)).flatMap Assignment.sources =
        (assignments.flatMap Assignment.sources).map (Source.rename ρ) := by
      simp [List.flatMap_map, List.map_flatMap]
    simp only [Statement.rename, Term.renameAll_eq, Assignment.renameAll_eq, Statement.text,
      Term.sourcesOfAll_rename, assigned, ← List.map_append, Mapped.rename_source,
      Mapped.rename_entity, extraSources_rename, map_source_rename, conditionOperator_rename,
      conjunctionText_rename]
    refine target.source.declaration_inStep.andThen fun table => ?_
    have inner := scope.nest_rename (ρ := ρ) (target.source :: extraSources target.source
      (Term.sourcesOfAll conditions ++ assignments.flatMap Assignment.sources)) []
    simp only [List.map_cons, List.map_nil] at inner
    rw [inner]
    refine (InStep.mapM fun c => Assignment.text?_inStep _ c assignments).andThen fun sets => ?_
    refine (FromItem.textOfAll_inStep _).andThen fun others => ?_
    exact (Term.operandTexts_inStep _ _ (shownConditions_rename _) conditions).andThen
      fun _ => .pure_id _

end

/-- What was rendered, its parameters renamed. -/
def Rendered.rename (ρ : Renaming) (r : Rendered) : Rendered :=
  ⟨r.text, renameValues ρ r.parameters⟩

theorem run_inStep {x y : Render String} (h : SameText ρ x y) :
    run y = (run x).map (Rendered.rename ρ) := by
  have start := h .empty
  rw [Naming.rename_empty] at start
  unfold run
  rw [start]
  cases x.run Naming.empty with
  | error e => rfl
  | ok p =>
    have values := p.2.values_rename (ρ := ρ)
    exact congrArg (fun values => Except.ok (Rendered.mk p.1 values)) values

/-- A renamed statement has the same text and the same parameters, up to the renaming. -/
theorem Statement.render_rename (s : Statement) :
    (s.rename ρ).render = s.render.map (Rendered.rename ρ) :=
  run_inStep (s.text_inStep .top)

theorem Term.render_rename (t : Term) :
    (t.rename ρ).render = t.render.map (Rendered.rename ρ) :=
  run_inStep (t.text_inStep .top)

end FluentQuery.Sql
