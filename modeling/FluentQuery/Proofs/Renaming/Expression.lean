import FluentQuery.Proofs.Renaming.Library

/-! Building expressions from values mirrors itself. -/

namespace FluentQuery

open Sql

variable {ρ : Renaming} {F : Footprint}

/-! ### Operands -/

namespace Value

theorem literal_mirror (v : Value) : Mirror ρ F v.literal (v.rename ρ).literal := by
  unfold literal
  refine .guarded (by rw [isCarried_rename]) ?_
  rw [identity?_rename]
  cases v.identity? with
  | none => exact .pure_of trivial v.carried_rename
  | some i => exact handle_mirror v

theorem operandBeside_mirror (other : Term) (v : Value) :
    Mirror ρ F (v.operandBeside other) ((v.rename ρ).operandBeside (other.rename ρ)) := by
  unfold operandBeside
  rw [expression?_rename]
  cases v.expression? with
  | none =>
    refine (literal_mirror v).bind fun l _ => .fresh fun id => .pure_of trivial ?_
    exact congrArg Term.literal (Placeholder.beside_rename id other l)
  | some t =>
    refine .guarded (by rw [Term.rename_isOperand]) (.pure_of trivial ?_)
    exact typedBeside_rename other t

theorem operandNamed_eq (base : String) (v : Value) :
    v.operandNamed base =
      if v.isNull then return .constant .null
      else match v.expression? with
        | some t => return ⟨v.key, t⟩
        | none => do
          let l ← v.literal
          let id ← fresh
          return ⟨.expression id, .literal (.argument id base l)⟩ := by
  cases v with
  | statement id s => cases s <;> rfl
  | member a => obtain ⟨owner, c | r⟩ := a <;> rfl
  | _ => rfl

theorem operandNamed_mirror (base : String) (v : Value) :
    Mirror ρ F (v.operandNamed base) ((v.rename ρ).operandNamed base) := by
  rw [operandNamed_eq, operandNamed_eq]
  refine .ite (by rw [isNull_rename]) (.pure_of trivial rfl) ?_
  rw [expression?_rename, key_rename]
  cases v.expression? with
  | some t => exact .pure_of trivial rfl
  | none =>
    refine (literal_mirror v).bind fun l _ => .fresh fun id => .pure_of trivial ?_
    exact congrArg (Operand.mk _) (congrArg Term.literal (Placeholder.argument_rename id base l))

end Value

namespace Expression

/-! ### Arithmetic and comparisons -/

theorem arithmetic?_mirror (op : Arithmetic) (a b : Value) :
    Option.Rel (Mirror ρ F) (arithmetic? op a b) (arithmetic? op (a.rename ρ) (b.rename ρ)) := by
  unfold arithmetic?
  rw [a.subject?_rename, b.subject?_rename]
  cases a.subject? with
  | some l =>
    refine .some (.guarded ?_ ((b.operandBeside_mirror l).bind fun r _ => ?_))
    · rw [a.isRelationship_rename, Term.rename_isOperand]
    · exact newTerm_mirror_of (l.rename_calculate op r)
  | none =>
    cases b.subject? with
    | none => exact .none
    | some r =>
      refine .some (.guarded ?_ ((a.operandBeside_mirror r).bind fun l _ => ?_))
      · rw [b.isRelationship_rename, Term.rename_isOperand]
      · exact newTerm_mirror_of (l.rename_calculate op r)

theorem compareRelationship_mirror (op : Comparison) (owner : Mapped) (r : Relationship)
    (b : Value) :
    Mirror ρ F (compareRelationship op owner r b)
      (compareRelationship op (owner.rename ρ) r (b.rename ρ)) := by
  have existence (id : Nat) := Attribute.existence_rename (ρ := ρ) ⟨owner, .relationship r⟩ r id
  unfold compareRelationship
  refine .guarded (by rw [Value.constant?_rename]) ?_
  rw [owner.rename_source]
  split
  · exact newTerm_mirror_of rfl
  · exact newTerm_mirror_of rfl
  · exact .fresh fun id => newTerm_mirror_of (congrArg (Term.negation .boolean) (existence id))
  · exact .fresh fun id => newTerm_mirror_of (existence id)
  · exact .fail _

theorem compareWith_eq (op : Comparison) {a : Value} (ha : a.isRelationship = false) (l : Term)
    (b : Value) :
    compareWith op a l b = (do
      if !l.isOperand then fail .external
      match b.constant? with
      | some c => newTerm (← orExternal (op.withConstant? (a.key == .constant c) l c))
      | none =>
        let r ← b.operandBeside l
        newTerm (.compare op (b.isExpression && a.key == b.key) l r)) := by
  cases a with
  | member a =>
    obtain ⟨owner, c | r⟩ := a
    · rfl
    · cases ha
  | _ => rfl

theorem compareWith_mirror (op : Comparison) (a : Value) (l : Term) (b : Value) :
    Mirror ρ F (compareWith op a l b) (compareWith op (a.rename ρ) (l.rename ρ) (b.rename ρ)) := by
  cases ha : a.isRelationship with
  | false =>
    rw [compareWith_eq op ha, compareWith_eq op (a.isRelationship_rename.trans ha)]
    refine .guarded (by rw [l.rename_isOperand]) ?_
    rw [b.constant?_rename, a.key_beq_rename, b.isExpression_rename]
    cases b.constant? with
    | some c =>
      have key : ((a.rename ρ).key == .constant c) = (a.key == .constant c) := by
        rw [a.key_rename]
        exact beq_of_injective (fun _ _ => ItemKey.rename_inj.mp) a.key (.constant c)
      have term : Counterpart ρ F (op.withConstant? (a.key == .constant c) l c)
          (op.withConstant? ((a.rename ρ).key == .constant c) (l.rename ρ) c) :=
        ⟨by rw [key]; exact Comparison.withConstant?_rename op _ l c, fun _ _ => trivial⟩
      exact (orExternal_mirror term).bind fun t _ => newTerm_mirror t
    | none => exact (b.operandBeside_mirror l).bind fun r _ => newTerm_mirror_of rfl
  | true =>
    cases a with
    | member a =>
      obtain ⟨owner, c | r⟩ := a
      · cases ha
      · exact compareRelationship_mirror op owner r b
    | _ => cases ha

theorem asCompared_mirror {v : Value} (hv : v.Within F) :
    Mirror ρ F (asCompared v) (asCompared (v.rename ρ)) := by
  cases v with
  | row id items =>
    rw [Value.rename, Value.renameAll_eq]
    exact newTuple_mirror (Value.allWithin_iff.mp hv)
  | _ => exact .pure hv

/-- A plain value on the left changes sides. -/
theorem compare?_of_plain (op : Comparison) {a : Value} (ha : a.subject? = none) (b : Value) :
    compare? op a b = b.subject?.map fun r => (do compareWith op.flip b r (← asCompared a)) := by
  unfold compare?
  rw [ha]
  cases b.subject? <;> cases a <;> rfl

theorem compare?_of_member (op : Comparison) {a : Attribute} {l : Term}
    (ha : (Value.member a).subject? = some l) (b : Value) :
    compare? op (.member a) b = some (compareWith op (.member a) l b) := by
  unfold compare?
  rw [ha]

theorem compare?_mirror (op : Comparison) {a : Value} (ha : a.Within F) (b : Value) :
    Option.Rel (Mirror ρ F) (compare? op a b) (compare? op (a.rename ρ) (b.rename ρ)) := by
  have renamed := a.subject?_rename (ρ := ρ)
  cases subject : a.subject? with
  | none =>
    rw [subject] at renamed
    rw [compare?_of_plain op subject, compare?_of_plain op renamed, b.subject?_rename]
    cases b.subject? with
    | none => exact .none
    | some r => exact .some ((asCompared_mirror ha).bind fun v _ => compareWith_mirror _ b r v)
  | some l =>
    rw [subject] at renamed
    have straight := Option.Rel.some (compareWith_mirror (ρ := ρ) (F := F) op a l b)
    cases a with
    | member a =>
      rw [compare?_of_member op subject, Value.rename, compare?_of_member op renamed]
      exact straight
    | term id t =>
      cases subject
      cases b with
      | term id' u =>
        refine .some (.ite ?_ ?_ ?_)
        · rw [l.rename_isSpecializedBy u]
        · exact compareWith_mirror op.flip (.term id' u) u (.term id l)
        · exact compareWith_mirror op (.term id l) l (.term id' u)
      | _ => exact straight
    | _ => cases subject

/-! ### Connectives and tests -/

theorem connect_mirror (op : Connective) (vs : List Value) :
    Mirror ρ F (connect op vs) (connect op (vs.map (Value.rename ρ))) := by
  refine (liftExcept_mirror
    ⟨Except.mapM_map_congr Value.condition_rename vs, fun _ _ _ _ => trivial⟩).bind fun xs _ => ?_
  have joined : Mirror ρ F (newTerm (op.join xs)) (newTerm (op.join (xs.map (Operand.rename ρ)))) :=
    newTerm_mirror_of (op.join_rename xs)
  have kept : ((vs.map (Value.rename ρ)).zip (xs.map (Operand.rename ρ))).filter
        (fun x => !Connective.isConstant op.neutral x.2.term) =
      ((vs.zip xs).filter fun x => !Connective.isConstant op.neutral x.2.term).map
        (Prod.map (Value.rename ρ) (Operand.rename ρ)) := by
    rw [List.zip_map, List.filter_map]
    simp [Function.comp_def, Operand.rename]
  simp only [rename] at kept ⊢
  rw [kept]
  generalize (vs.zip xs).filter (fun x => !Connective.isConstant op.neutral x.2.term) = kept
  rcases kept with _ | ⟨⟨v, x⟩, _ | ⟨y, rest⟩⟩
  · exact joined
  · cases v with
    | term id u =>
      refine .ite ?_ (.pure (a := Value.term id u) trivial) joined
      rw [u.rename_isUnchanged]
    | _ => exact joined
  · cases v <;> exact joined

theorem not_mirror (v : Value) : Mirror ρ F (Expression.not v) (Expression.not (v.rename ρ)) := by
  refine (v.operandNamed_mirror "param").bind fun x _ => .guarded ?_ (.fresh fun id => ?_)
  · rw [← x.term.rename_isOperand (ρ := ρ)]
    rfl
  · exact newTerm_mirror_of (x.term.rename_negate id x.key)

theorem sorted_mirror (d : Direction) (v : Value) :
    Mirror ρ F (sorted d v) (sorted d (v.rename ρ)) := by
  refine (liftExcept_mirror ⟨v.sortKey_rename, fun _ _ => trivial⟩).bind fun t _ => ?_
  exact newTerm_mirror_of rfl

theorem subject_mirror (v : Value) : Mirror ρ F (subject v) (subject (v.rename ρ)) := by
  refine .guarded (by rw [v.isRelationship_rename]) ?_
  refine (orExternal_mirror ⟨v.subject?_rename, fun _ _ => trivial⟩).bind fun t _ => ?_
  refine .guarded ?_ (.pure trivial)
  rw [← t.rename_isOperand (ρ := ρ)]
  rfl

theorem among_mirror (v : Value) (values : List Datum) :
    Mirror ρ F (among v values) (among (v.rename ρ) values) := by
  refine (subject_mirror v).bind fun t _ => .fresh fun id => newTerm_mirror_of ?_
  simp only [rename, t.rename_parameterBase, t.rename_type]
  rfl

theorem like_mirror (v pattern : Value) :
    Mirror ρ F (like v pattern) (like (v.rename ρ) (pattern.rename ρ)) :=
  (subject_mirror v).bind fun t _ => compareWith_mirror .like v t pattern

/-! ### Functions and parameters -/

theorem operands_mirror (base : String) (vs : List Value) :
    Mirror ρ F (operands base vs) (operands base (vs.map (Value.rename ρ))) := by
  induction vs with
  | nil => exact .pure_of (fun _ h => by cases h) rfl
  | cons v vs ih =>
    refine (v.operandNamed_mirror base).bind fun x _ => ih.bind fun ts _ => ?_
    exact .pure_of (fun _ _ => trivial) rfl

theorem castType_mirror {v : Value} (hv : v.Within F) :
    Mirror ρ F (castType v) (castType (v.rename ρ)) := by
  have shown : Mirror (α := Option String) ρ F (do return some (← shownNow v))
      (do return some (← shownNow (v.rename ρ))) :=
    (shownNow_mirror hv).bind fun s _ => .pure_of (a := some s) (fun _ _ => trivial) rfl
  cases v with
  | null => exact .pure_of (a := none) (fun _ _ => trivial) rfl
  | _ => exact .ite Iff.rfl shown (.fail _)

theorem cast_mirror {v type : Value} (ht : type.Within F) :
    Mirror ρ F (cast v type) (cast (v.rename ρ) (type.rename ρ)) := by
  refine (castType_mirror ht).bind fun text _ => .guarded ?_ ?_
  · rw [v.expression?_rename, Option.isNone_map]
    cases text <;> rfl
  · refine (v.operandNamed_mirror "param").bind fun x _ => newTerm_mirror_of ?_
    cases text <;> rfl

theorem extract_mirror {field : Value} (hf : field.Within F) (v : Value) :
    Mirror ρ F (extract field v) (extract (field.rename ρ) (v.rename ρ)) := by
  refine (v.operandNamed_mirror "param").bind fun x _ => ?_
  have named : Mirror (α := Option String) ρ F _ _ := plainNow_mirror hf
  have done (name : Option String) :
      Mirror ρ F (newTerm (.extract name x.term)) (newTerm (.extract name (x.rename ρ).term)) :=
    newTerm_mirror_of rfl
  cases field with
  | list | mapping => exact done none
  | _ => exact named.bind fun name _ => by cases name <;> exact done _

/-- A call of a function by the rules for most functions. -/
def callPlain (name : String) (args : List Value) : Run Value := do
  if Function.special.contains name || !Function.accepts name args.length then fail .external
  let ts ← operands (Function.argumentBase name) args
  newTerm (.function name (Function.type name ts) ts)

theorem callPlain_mirror (name : String) (args : List Value) :
    Mirror ρ F (callPlain name args) (callPlain name (args.map (Value.rename ρ))) := by
  refine .guarded (by rw [List.length_map]) ?_
  refine (operands_mirror _ args).bind fun ts _ => newTerm_mirror_of ?_
  simp only [rename, Function.type_rename, Term.rename, Term.renameAll_eq]

/-- A call of a function by conditions that do not depend on the numbers in its arguments. -/
theorem call_eq (asked : String) (args : List Value) :
    call asked args = (do
      let name ← orExternal (Function.resolve? asked)
      if name = "cast" ∧ args.length = 2 then cast (args.headD .null) (args.getLastD .null)
      else if name = "extract" ∧ args.length = 2 then
        extract (args.headD .null) (args.getLastD .null)
      else if name = "count" ∧ args.length ≤ 1 ∧ args.all Value.isNull then
        newTerm (.function "count" .integer [.star])
      else callPlain name args) := by
  unfold call
  refine bind_congr fun name => ?_
  split
  · simp
  · simp
  · simp
  · simp [Value.isNull]
  · rename_i notCast notExtract notRows notNull
    have isCast : ¬(name = "cast" ∧ args.length = 2) := by
      rintro ⟨named, two⟩
      obtain ⟨v, w, rfl⟩ := List.length_eq_two.mp two
      exact notCast v w named rfl
    have isExtract : ¬(name = "extract" ∧ args.length = 2) := by
      rintro ⟨named, two⟩
      obtain ⟨v, w, rfl⟩ := List.length_eq_two.mp two
      exact notExtract v w named rfl
    have isRows : ¬(name = "count" ∧ args.length ≤ 1 ∧ args.all Value.isNull) := by
      rintro ⟨named, short, null⟩
      rcases args with _ | ⟨v, _ | ⟨w, vs⟩⟩
      · exact notRows named rfl
      · cases v <;> simp [Value.isNull] at null
        exact notNull named rfl
      · simp at short
    rw [if_neg isCast, if_neg isExtract, if_neg isRows]
    rfl

theorem call_mirror (asked : String) (args : List Value) (ha : ∀ v ∈ args, v.Within F) :
    Mirror ρ F (call asked args) (call asked (args.map (Value.rename ρ))) := by
  rw [call_eq, call_eq]
  refine (orExternal_mirror (counterpart_text rfl)).bind fun name _ => ?_
  simp only [rename, List.length_map]
  by_cases isCast : name = "cast" ∧ args.length = 2
  · obtain ⟨v, w, rfl⟩ := List.length_eq_two.mp isCast.2
    rw [if_pos isCast, if_pos isCast]
    exact cast_mirror (ha w (by simp))
  by_cases isExtract : name = "extract" ∧ args.length = 2
  · obtain ⟨v, w, rfl⟩ := List.length_eq_two.mp isExtract.2
    rw [if_neg isCast, if_pos isExtract, if_neg isCast, if_pos isExtract]
    exact extract_mirror (ha v (by simp)) w
  rw [if_neg isCast, if_neg isExtract, if_neg isCast, if_neg isExtract]
  refine .ite ?_ (newTerm_mirror_of rfl) (callPlain_mirror name args)
  have null (v : Value) : (v.rename ρ).isNull = v.isNull := v.isNull_rename
  simp [List.all_map, Function.comp_def, null]

theorem countDistinct_mirror (v : Value) :
    Mirror ρ F (countDistinct v) (countDistinct (v.rename ρ)) := by
  refine .guarded (by rw [v.isRelationship_rename]) ?_
  exact (v.operandNamed_mirror "param").bind fun x _ => newTerm_mirror_of rfl

theorem parameter_mirror (name : String) : Mirror ρ F (parameter name) (parameter name) := by
  refine .ite Iff.rfl (.fresh fun id => ?_) (newTerm_mirror_of rfl)
  exact newTerm_mirror_of rfl

end Expression

end FluentQuery
