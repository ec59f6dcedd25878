import FluentQuery.Proofs.Provenance.Steps
import FluentQuery.Proofs.Renaming.Operation

/-! Expressions and plain results that are computed from known values are known. -/

namespace FluentQuery

open Sql

variable {w w' : Moment}

/-! ### What is read off values -/

section Lists

variable {α : Type} {xs : List α}

theorem map_fixed {f : α → α} (h : ∀ x ∈ xs, f x = x) : xs.map f = xs :=
  (List.map_congr_left h).trans (List.map_id' xs)

theorem fixed_of_map_fixed {f : α → α} (h : xs.map f = xs) {x : α} (hx : x ∈ xs) : f x = x := by
  obtain ⟨i, hi⟩ := List.mem_iff_getElem?.mp hx
  have mapped : (xs.map f)[i]? = xs[i]? := congrArg (·[i]?) h
  rw [List.getElem?_map, hi] at mapped
  exact Option.some.inj mapped

variable [Renamable α]

theorem Made.of_mem (h : Made w.extent xs) {x : α} (hx : x ∈ xs) : Made w.extent x :=
  fun ρ hρ => fixed_of_map_fixed (h ρ hρ) hx

theorem Made.list (h : ∀ x ∈ xs, Made w.extent x) : Made w.extent xs :=
  fun ρ hρ => map_fixed fun x hx => h x hx ρ hρ

end Lists

theorem Attribute.owner_made {a : Attribute} (h : Made w.extent a) : Made w.extent a.owner :=
  fun ρ hρ => congrArg Attribute.owner (h ρ hρ)

section Reading

variable {v : Value} {β : Type} [Renamable β]

/-- What is read off a known value in a way that does not depend on its numbers is known. -/
theorem made_of_some {f : Value → Option β} (hv : v.Known w)
    (hf : ∀ ρ, f (v.rename ρ) = (f v).map (rename ρ)) {b : β} (h : f v = some b) :
    Made w.extent b := by
  intro ρ hρ
  have same := hf ρ
  rw [hv.fixed hρ, h] at same
  exact (Option.some.inj same).symm

theorem made_of_ok {f : Value → Except Error β} (hv : v.Known w)
    (hf : ∀ ρ, f (v.rename ρ) = (f v).map (rename ρ)) {b : β} (h : f v = .ok b) :
    Made w.extent b := by
  intro ρ hρ
  have same := hf ρ
  rw [hv.fixed hρ, h] at same
  exact (Except.ok.inj same).symm

theorem Value.Known.subject? (hv : v.Known w) {t : Term} (h : v.subject? = some t) :
    Made w.extent t :=
  made_of_some hv (fun _ => v.subject?_rename) h

theorem Value.Known.expression? (hv : v.Known w) {t : Term} (h : v.expression? = some t) :
    Made w.extent t :=
  made_of_some hv (fun _ => v.expression?_rename) h

theorem Value.Known.key (hv : v.Known w) {ρ : Renaming} (hρ : ρ.Fixes w.extent) :
    v.key.rename ρ = v.key := by
  rw [← v.key_rename, hv.fixed hρ]

end Reading

theorem known_of_lookup {fields : List (String × Value)} (h : ∀ x ∈ fields, x.2.Known w)
    {name : String} {v : Value} (hv : fields.lookup name = some v) : v.Known w := by
  obtain ⟨before, rest, rfl, _⟩ := List.lookup_eq_some_iff.mp hv
  exact h (name, v) (by simp)

/-! ### Texts and truths -/

theorem shownNow_sound (v : Value) : Sound w (shownNow v) :=
  .get fun _ _ => orExternal_sound fun _ _ => trivial

theorem plainNow_sound (v : Value) : Sound w v.plainNow := .get fun _ _ => .pure fun _ _ => trivial

theorem classNow_sound (v : Value) : Sound w (classNow v) := .get fun _ _ => .pure trivial

theorem truth_sound (v : Value) : Sound w v.truth :=
  .get fun _ _ => orExternal_sound fun _ _ => trivial

/-! ### Operands -/

namespace Value

theorem literal_sound {v : Value} (hv : v.Known w) : Sound w v.literal := by
  unfold literal
  refine .guarded ?_
  cases v.identity? with
  | none => exact .pure (carried_made hv)
  | some i => exact handle_sound hv

theorem operandBeside_sound {other : Term} (ho : Made w.extent other) {v : Value} (hv : v.Known w) :
    Sound w (v.operandBeside other) := by
  unfold operandBeside
  cases h : v.expression? with
  | none =>
    refine (literal_sound hv).bind fun w₁ le₁ l hl => fresh_sound.bind fun w₂ le₂ id hid => .pure ?_
    intro ρ hρ
    have number := hρ.number id hid
    have other_eq : other.rename ρ = other := ho.mono (le₁.trans le₂).extent ρ hρ
    have carried : l.rename ρ = l := hl.mono le₂.extent ρ hρ
    have beside := Placeholder.beside_rename (ρ := ρ) id other l
    rw [number, other_eq, carried] at beside
    exact congrArg Term.literal beside.symm
  | some t =>
    exact .guarded (.pure (.map₂ (fun ρ a b => typedBeside_rename a b) ho (hv.expression? h)))

theorem operandNamed_sound (base : String) {v : Value} (hv : v.Known w) :
    Sound w (v.operandNamed base) := by
  rw [operandNamed_eq]
  refine .ite (.pure fun _ _ => rfl) ?_
  cases h : v.expression? with
  | some t =>
    refine .pure fun ρ hρ => ?_
    exact congrArg₂ Operand.mk (hv.key hρ) (hv.expression? h ρ hρ)
  | none =>
    refine (literal_sound hv).bind fun w₁ le₁ l hl => fresh_sound.bind fun w₂ le₂ id hid => .pure ?_
    intro ρ hρ
    have number := hρ.number id hid
    have carried : l.rename ρ = l := hl.mono le₂.extent ρ hρ
    have argument := Placeholder.argument_rename (ρ := ρ) id base l
    rw [number, carried] at argument
    exact congrArg₂ Operand.mk (congrArg ItemKey.expression number)
      (congrArg Term.literal argument.symm)

end Value

/-! ### Expressions -/

theorem Operand.term_made {x : Operand} (h : Made w.extent x) : Made w.extent x.term :=
  fun ρ hρ => congrArg Operand.term (h ρ hρ)

theorem Operand.key_fixed {x : Operand} (h : Made w.extent x) {ρ : Renaming}
    (hρ : ρ.Fixes w.extent) : x.key.rename ρ = x.key := congrArg Operand.key (h ρ hρ)

namespace Expression

theorem arithmetic?_sound (op : Arithmetic) {a b : Value} (ha : a.Known w) (hb : b.Known w) :
    ∀ x, arithmetic? op a b = some x → Sound w x := by
  have calculated {w : Moment} {l r : Term} (hl : Made w.extent l) (hr : Made w.extent r) :
      Sound w (newTerm (l.calculate op r)) :=
    newTerm_sound (.map₂ (fun _ _ _ => Term.rename_calculate ..) hl hr)
  intro x hx
  unfold arithmetic? at hx
  split at hx
  · rename_i l hl
    obtain rfl := Option.some.inj hx
    have made := ha.subject? hl
    exact .guarded ((Value.operandBeside_sound made hb).bind fun w₁ le r hr =>
      calculated (made.mono le.extent) hr)
  · rename_i r _ hr
    obtain rfl := Option.some.inj hx
    have made := hb.subject? hr
    exact .guarded ((Value.operandBeside_sound made ha).bind fun w₁ le l hl =>
      calculated hl (made.mono le.extent))
  · cases hx

theorem compareRelationship_sound (op : Comparison) {owner : Mapped} (ho : Made w.extent owner)
    (r : Relationship) (b : Value) : Sound w (compareRelationship op owner r b) := by
  have column (c : Column) {ρ : Renaming} (hρ : ρ.Fixes w.extent) :
      (Term.column ⟨owner.source, c⟩).rename ρ = .column ⟨owner.source, c⟩ := by
    have source := owner.rename_source (ρ := ρ)
    rw [show owner.rename ρ = owner from ho ρ hρ] at source
    exact congrArg (fun s => Term.column ⟨s, c⟩) source.symm
  have existence {w' : Moment} (le : w.Le w') {id : Nat} (hid : w'.Given id) :
      Made w'.extent (Attribute.existence ⟨owner, .relationship r⟩ r id) := by
    intro ρ hρ
    have renamed := Attribute.existence_rename (ρ := ρ) ⟨owner, .relationship r⟩ r id
    rw [hρ.number id hid, Attribute.rename, show owner.rename ρ = owner from
      ho.mono le.extent ρ hρ] at renamed
    exact renamed.symm
  unfold compareRelationship
  refine .guarded ?_
  split
  · exact newTerm_sound fun ρ hρ => congrArg (Term.compare .is false · (.constant .null)) (column _ hρ)
  · exact newTerm_sound fun ρ hρ =>
      congrArg (Term.compare .isNot false · (.constant .null)) (column _ hρ)
  · exact fresh_sound.bind fun _ le _ hid => newTerm_sound fun ρ hρ =>
      congrArg (Term.negation .boolean) (existence le hid ρ hρ)
  · exact fresh_sound.bind fun _ le _ hid => newTerm_sound (existence le hid)
  · exact .fail _

theorem compareWith_sound (op : Comparison) {a : Value} (ha : a.Known w) {l : Term}
    (hl : Made w.extent l) {b : Value} (hb : b.Known w) : Sound w (compareWith op a l b) := by
  cases h : a.isRelationship with
  | false =>
    rw [compareWith_eq op h]
    refine .guarded ?_
    cases b.constant? with
    | some c =>
      refine (orExternal_sound fun t ht => ?_).bind fun w₁ le t ht => newTerm_sound ht
      intro ρ hρ
      have renamed := Comparison.withConstant?_rename (ρ := ρ) op (a.key == .constant c) l c
      rw [show l.rename ρ = l from hl ρ hρ, ht] at renamed
      exact (Option.some.inj renamed).symm
    | none =>
      refine (Value.operandBeside_sound hl hb).bind fun w₁ le r hr => newTerm_sound fun ρ hρ => ?_
      exact congrArg₂ (Term.compare op _) (hl.mono le.extent ρ hρ) (hr ρ hρ)
  | true =>
    cases a with
    | member a =>
      obtain ⟨owner, c | r⟩ := a
      · cases h
      · exact compareRelationship_sound op (Attribute.owner_made ha) r b
    | _ => cases h

theorem asCompared_sound {v : Value} (hv : v.Known w) : Sound w (asCompared v) := by
  cases v with
  | row id items => exact newTuple_sound (Value.allKnown_iff.mp hv.2)
  | _ => exact .pure hv

theorem compare?_sound (op : Comparison) {a b : Value} (ha : a.Known w) (hb : b.Known w) :
    ∀ x, compare? op a b = some x → Sound w x := by
  intro x hx
  cases subject : a.subject? with
  | none =>
    rw [compare?_of_plain op subject] at hx
    obtain ⟨r, hr, rfl⟩ := Option.map_eq_some_iff.mp hx
    refine (asCompared_sound ha).bind fun w₁ le v hv => ?_
    exact compareWith_sound _ (hb.mono le) ((hb.subject? hr).mono le.extent) hv
  | some l =>
    have straight : Sound w (compareWith op a l b) :=
      compareWith_sound op ha (ha.subject? subject) hb
    cases a with
    | term id t =>
      cases subject
      cases b with
      | term id' u =>
        obtain rfl := Option.some.inj hx
        exact .ite (compareWith_sound _ hb hb.2 ha) straight
      | _ =>
        obtain rfl := Option.some.inj hx
        exact straight
    | member a =>
      rw [compare?_of_member op subject] at hx
      obtain rfl := Option.some.inj hx
      exact straight
    | _ => cases subject

theorem connect_sound (op : Connective) {vs : List Value} (hv : ∀ v ∈ vs, v.Known w) :
    Sound w (connect op vs) := by
  refine (liftExcept_sound (α := List Operand) fun xs hx x mem => ?_).bind fun w₁ le xs hx => ?_
  · refine Made.of_mem (fun ρ hρ => ?_) mem
    have fixed : vs.map (Value.rename ρ) = vs := Made.list (fun v h => (hv v h).made) ρ hρ
    have renamed := Except.mapM_map_congr (fun v => v.condition_rename (ρ := ρ)) vs
    rw [fixed, hx] at renamed
    exact (Except.ok.inj renamed).symm
  have joined : Sound w₁ (newTerm (op.join xs)) :=
    newTerm_sound (.map (f := op.join) (fun ρ xs => op.join_rename xs) (.list hx))
  generalize hk : (vs.zip xs).filter (fun x => !Connective.isConstant op.neutral x.2.term) = kept
  rcases kept with _ | ⟨⟨v, x⟩, _ | ⟨y, rest⟩⟩
  · exact joined
  · cases v with
    | term id u =>
      have mem : (Value.term id u, x) ∈ vs.zip xs := List.mem_of_mem_filter (hk ▸ List.mem_cons_self)
      exact .ite (.pure (Knowable.mono le (hv _ (List.of_mem_zip mem).1))) joined
    | _ => exact joined
  · cases v <;> exact joined

theorem not_sound {v : Value} (hv : v.Known w) : Sound w (Expression.not v) := by
  refine (v.operandNamed_sound "param" hv).bind fun w₁ le x hx => .guarded ?_
  refine fresh_sound.bind fun w₂ le₂ id hid => newTerm_sound fun ρ hρ => ?_
  have number := hρ.number id hid
  have term : x.term.rename ρ = x.term := Operand.term_made (hx.mono le₂.extent) ρ hρ
  have negated := x.term.rename_negate (ρ := ρ) id x.key
  rw [number, term, Operand.key_fixed (hx.mono le₂.extent) hρ] at negated
  exact negated.symm

theorem sorted_sound (d : Direction) {v : Value} (hv : v.Known w) : Sound w (sorted d v) :=
  (liftExcept_sound fun _ ht => made_of_ok hv (fun _ => v.sortKey_rename) ht).bind
    fun _ _ _ ht => newTerm_sound fun ρ hρ => congrArg (Term.sorted d) (ht ρ hρ)

theorem subject_sound {v : Value} (hv : v.Known w) : Sound w (subject v) := by
  refine .guarded ((orExternal_sound fun t ht => hv.subject? ht).bind fun w₁ le t ht => ?_)
  exact .guarded (.pure ht)

theorem among_sound {v : Value} (hv : v.Known w) (values : List Datum) :
    Sound w (among v values) := by
  refine (subject_sound hv).bind fun w₁ le t ht => fresh_sound.bind fun w₂ le₂ id hid => ?_
  refine newTerm_sound fun ρ hρ => ?_
  exact congrArg₂ (fun t n => Term.among false t ⟨n, _, _, _⟩) (ht.mono le₂.extent ρ hρ)
    (hρ.number id hid)

theorem like_sound {v pattern : Value} (hv : v.Known w) (hp : pattern.Known w) :
    Sound w (like v pattern) :=
  (subject_sound hv).bind fun _ le _ ht => compareWith_sound .like (hv.mono le) ht (hp.mono le)

theorem operands_sound (base : String) {vs : List Value} (hv : ∀ v ∈ vs, v.Known w) :
    Sound w (operands base vs) := by
  induction vs generalizing w with
  | nil => exact .pure fun _ h => by cases h
  | cons v vs ih =>
    refine (v.operandNamed_sound base (hv v List.mem_cons_self)).bind fun w₁ le x hx => ?_
    refine (ih fun u hu => (hv u (List.mem_cons_of_mem _ hu)).mono le).bind fun w₂ le₂ ts ht => ?_
    exact .pure (List.forall_mem_cons.mpr ⟨Operand.term_made (hx.mono le₂.extent), ht⟩)

theorem castType_sound (v : Value) : Sound w (castType v) := by
  have shown : Sound (α := Option String) w (do return some (← shownNow v)) :=
    (shownNow_sound v).bind fun _ _ _ _ => .pure fun _ _ => trivial
  cases v with
  | null => exact .pure fun _ h => by cases h
  | _ => exact .ite shown (.fail _)

theorem cast_sound {v : Value} (hv : v.Known w) (type : Value) : Sound w (cast v type) := by
  refine (castType_sound type).bind fun w₁ le text _ => .guarded ?_
  refine (v.operandNamed_sound "param" (hv.mono le)).bind fun w₂ le₂ x hx => newTerm_sound ?_
  exact fun ρ hρ => congrArg₂ (Term.cast text) (Operand.key_fixed hx hρ) (Operand.term_made hx ρ hρ)

theorem extract_sound (field : Value) {v : Value} (hv : v.Known w) : Sound w (extract field v) := by
  refine (v.operandNamed_sound "param" hv).bind fun w₁ le x hx => ?_
  have done {w' : Moment} (le : w₁.Le w') (name : Option String) :
      Sound w' (newTerm (.extract name x.term)) :=
    newTerm_sound fun ρ hρ =>
      congrArg (Term.extract name) ((Operand.term_made hx).mono le.extent ρ hρ)
  cases field with
  | list | mapping => exact done (.refl _) none
  | _ => exact (plainNow_sound _).bind fun _ le name _ => done le name

theorem callPlain_sound (name : String) {args : List Value} (ha : ∀ v ∈ args, v.Known w) :
    Sound w (callPlain name args) := by
  refine .guarded ((operands_sound _ ha).bind fun w₁ le ts ht => newTerm_sound fun ρ hρ => ?_)
  have fixed : ts.map (Term.rename ρ) = ts := Made.list ht ρ hρ
  change Term.rename ρ (.function name _ ts) = .function name _ ts
  rw [Term.rename, Term.renameAll_eq, fixed]

theorem call_sound (asked : String) {args : List Value} (ha : ∀ v ∈ args, v.Known w) :
    Sound w (call asked args) := by
  rw [call_eq]
  refine (orExternal_sound fun _ _ => trivial).bind fun w₁ le name _ => ?_
  have later : ∀ v ∈ args, v.Known w₁ := fun v h => (ha v h).mono le
  have first : (args.headD .null).Known w₁ := by
    cases args with
    | nil => trivial
    | cons v _ => exact later v List.mem_cons_self
  have last : (args.getLastD .null).Known w₁ := by
    rw [List.getLastD_eq_getLast?]
    cases h : args.getLast? with
    | none => trivial
    | some v => exact later v (List.mem_of_getLast? h)
  refine .ite (cast_sound first _) (.ite (extract_sound _ last) (.ite ?_ (callPlain_sound name later)))
  exact newTerm_sound fun _ _ => rfl

theorem countDistinct_sound {v : Value} (hv : v.Known w) : Sound w (countDistinct v) := by
  refine .guarded ((v.operandNamed_sound "param" hv).bind fun w₁ le x hx => newTerm_sound ?_)
  exact fun ρ hρ => congrArg (fun t => Term.function "count" .integer [.distinct t])
    (Operand.term_made hx ρ hρ)

theorem parameter_sound (name : String) : Sound w (parameter name) := by
  refine .ite (fresh_sound.bind fun w₁ le id hid => ?_) (newTerm_sound fun _ _ => rfl)
  exact newTerm_sound fun ρ hρ => congrArg (fun n => Term.literal ⟨n, "param", .null, .unknown⟩)
    (hρ.number id hid)

end Expression

/-! ### Operations on plain values -/

namespace Operation

theorem times?_known {n : Int} {xs ys : List Value} (hx : ∀ v ∈ xs, v.Known w)
    (h : times? n xs = some ys) : ∀ v ∈ ys, v.Known w :=
  fun v hv => hx v (mem_of_times? h hv)

theorem repeatPlain_sound (n : Int) {v : Value} (hv : v.Known w) : Sound w (repeatPlain n v) := by
  cases v with
  | text id s =>
    refine .ite (.pure hv) ?_
    exact (orExternal_sound fun _ _ _ _ => trivial).bind fun _ _ _ _ => newText_sound _
  | list id xs =>
    refine (orExternal_sound fun ys h => times?_known (Value.allKnown_iff.mp hv.2) h).bind ?_
    exact fun w₁ le ys hys => newList_sound hys
  | tuple id xs =>
    refine .ite (.pure hv) ?_
    refine (orExternal_sound fun ys h => times?_known (Value.allKnown_iff.mp hv.2) h).bind ?_
    exact fun w₁ le ys hys => newTuple_sound hys
  | _ => exact .fail _

theorem joinPlain_sound {v u : Value} (hv : v.Known w) (hu : u.Known w) :
    Sound w (joinPlain v u) := by
  unfold joinPlain
  split
  · exact .ite (.pure hv) (.ite (.pure hu) (newText_sound _))
  · exact newList_sound (List.forall_mem_append.mpr
      ⟨Value.allKnown_iff.mp hv.2, Value.allKnown_iff.mp hu.2⟩)
  · exact .ite (.pure hv) (.ite (.pure hu) (newTuple_sound (List.forall_mem_append.mpr
      ⟨Value.allKnown_iff.mp hv.2, Value.allKnown_iff.mp hu.2⟩)))
  · exact .fail _

theorem plainArithmetic_sound (op : Arithmetic) {a b : Value} (ha : a.Known w) (hb : b.Known w) :
    Sound w (plainArithmetic op a b) := by
  unfold plainArithmetic
  split
  · exact (orExternal_sound fun _ _ => trivial).bind fun _ _ _ _ => newInt_sound _
  · refine .ite ?_ ?_
    · refine (orExternal_sound fun _ _ => trivial).bind fun _ _ x _ => ?_
      refine (orExternal_sound fun _ _ => trivial).bind fun _ _ y _ => ?_
      exact (orExternal_sound fun _ _ => trivial).bind fun _ _ _ _ => newFloat_sound _
    · split
      · exact joinPlain_sound ha hb
      · exact repeatPlain_sound _ ha
      · exact repeatPlain_sound _ hb
      · exact .fail _

theorem arithmetic_sound (op : Arithmetic) {a b : Value} (ha : a.Known w) (hb : b.Known w) :
    Sound w (arithmetic op a b) := by
  unfold arithmetic
  cases h : Expression.arithmetic? op a b with
  | none => exact plainArithmetic_sound op ha hb
  | some x => exact Expression.arithmetic?_sound op ha hb x h

theorem tupleItems?_known {v : Value} (hv : v.Known w) {items : List Value}
    (h : tupleItems? v = some items) : ∀ x ∈ items, x.Known w := by
  cases v with
  | tuple | row =>
    obtain rfl := Option.some.inj h
    exact Value.allKnown_iff.mp hv.2
  | _ => cases h

section Sequences

variable {equal : Value → Value → Run Bool}
  (he : ∀ w' a b, Value.Known w' a → Value.Known w' b → Sound w' (equal a b))

include he

theorem agree_sound {xs ys : List Value} (hx : ∀ v ∈ xs, v.Known w) (hy : ∀ v ∈ ys, v.Known w) :
    Sound w (agree equal xs ys) := by
  induction xs generalizing w ys with
  | nil => cases ys <;> exact .pure trivial
  | cons x xs ih =>
    cases ys with
    | nil => exact .pure trivial
    | cons y ys =>
      obtain ⟨hx, hxs⟩ := List.forall_mem_cons.mp hx
      obtain ⟨hy, hys⟩ := List.forall_mem_cons.mp hy
      refine .ite (ih hxs hys) ((he w x y hx hy).bind fun w₁ le _ _ => .ite ?_ (.pure trivial))
      exact ih (fun v h => (hxs v h).mono le) fun v h => (hys v h).mono le

theorem fieldsAgree_sound {other fields : List (String × Value)} (ho : ∀ x ∈ other, x.2.Known w)
    (hf : ∀ x ∈ fields, x.2.Known w) : Sound w (fieldsAgree equal other fields) := by
  induction fields generalizing w with
  | nil => exact .pure trivial
  | cons x fields ih =>
    obtain ⟨k, v⟩ := x
    obtain ⟨hv, hfs⟩ := List.forall_mem_cons.mp hf
    unfold fieldsAgree
    split
    · exact .pure trivial
    · rename_i u found
      refine .ite (ih ho hfs) ((he w v u hv (known_of_lookup ho found)).bind ?_)
      exact fun w₁ le _ _ => .ite (ih (fun x h => (ho x h).mono le) fun x h => (hfs x h).mono le)
        (.pure trivial)

end Sequences

theorem equalTo_sound (depth : Nat) {a b : Value} (ha : a.Known w) (hb : b.Known w) :
    Sound w (equalTo depth a b) := by
  induction depth generalizing w a b with
  | zero => exact .fail _
  | succ depth ih =>
    have items {xs ys : List Value} (hx : ∀ v ∈ xs, v.Known w) (hy : ∀ v ∈ ys, v.Known w) :=
      agree_sound (fun w' a b ha hb => ih (w := w') ha hb) hx hy
    unfold equalTo
    cases h : Expression.compare? .eq a b with
    | some equation =>
      exact (Expression.compare?_sound .eq ha hb equation h).bind fun _ _ v _ => truth_sound v
    | none =>
      dsimp only
      split
      · exact .pure trivial
      · rename_i hx hy _
        exact items (tupleItems?_known ha hx) (tupleItems?_known hb hy)
      · split
        · exact items (Value.allKnown_iff.mp ha.2) (Value.allKnown_iff.mp hb.2)
        · rename_i i j _ _
          refine (i.read_sound).bind fun w₁ le₁ fields hf => (j.read_sound).bind ?_
          refine fun w₂ le₂ others ho => .ite (.pure trivial) ?_
          exact fieldsAgree_sound (fun w' a b ha hb => ih (w := w') ha hb) (fun x h => (ho x h).2)
            fun x h => (hf x h).2.mono le₂
        · exact .pure trivial
        · exact .pure trivial
        · rename_i f g _ _
          obtain ⟨_, builder, query⟩ := f
          obtain ⟨_, builder', query'⟩ := g
          have left : ∀ v ∈ [builder, query], v.Known w := by simpa using ha.2
          have right : ∀ v ∈ [builder', query'], v.Known w := by simpa using hb.2
          exact items left right
        · exact .pure trivial

theorem equal_sound {a b : Value} (ha : a.Known w) (hb : b.Known w) : Sound w (equal a b) :=
  equalTo_sound 1000 ha hb

theorem orderItems_sound (op : Comparison) {order : Value → Value → Run Bool}
    (ho : ∀ w' a b, Value.Known w' a → Value.Known w' b → Sound w' (order a b))
    {xs ys : List Value} (hx : ∀ v ∈ xs, v.Known w) (hy : ∀ v ∈ ys, v.Known w) :
    Sound w (orderItems op order xs ys) := by
  induction xs generalizing w ys with
  | nil => cases ys <;> exact .pure trivial
  | cons x xs ih =>
    cases ys with
    | nil => exact .pure trivial
    | cons y ys =>
      obtain ⟨hx, hxs⟩ := List.forall_mem_cons.mp hx
      obtain ⟨hy, hys⟩ := List.forall_mem_cons.mp hy
      refine .ite (ih hxs hys) ((equal_sound hx hy).bind fun w₁ le _ _ => .ite ?_ ?_)
      · exact ih (fun v h => (hxs v h).mono le) fun v h => (hys v h).mono le
      · exact ho w₁ x y (hx.mono le) (hy.mono le)

theorem orderTo_sound (op : Comparison) (depth : Nat) {a b : Value} (ha : a.Known w)
    (hb : b.Known w) : Sound w (orderTo op depth a b) := by
  induction depth generalizing w a b with
  | zero => exact .fail _
  | succ depth ih =>
    have items {xs ys : List Value} (hx : ∀ v ∈ xs, v.Known w) (hy : ∀ v ∈ ys, v.Known w) :=
      orderItems_sound op (fun w' a b ha hb => ih (w := w') ha hb) hx hy
    unfold orderTo
    split
    · exact .pure trivial
    · exact .pure trivial
    · rename_i hx hy _ _
      exact items (tupleItems?_known ha hx) (tupleItems?_known hb hy)
    · split
      · exact .pure trivial
      · exact items (Value.allKnown_iff.mp ha.2) (Value.allKnown_iff.mp hb.2)
      · exact .fail _

theorem compare_sound (op : Comparison) {a b : Value} (ha : a.Known w) (hb : b.Known w) :
    Sound w (compare op a b) := by
  unfold compare
  cases h : Expression.compare? op a b with
  | some x => exact Expression.compare?_sound op ha hb x h
  | none =>
    have order : Sound (α := Value) w (do return .bool (← orderTo op 1000 a b)) :=
      (orderTo_sound op 1000 ha hb).bind fun _ _ _ _ => .pure trivial
    cases op with
    | eq | ne => exact (equal_sound ha hb).bind fun _ _ _ _ => .pure trivial
    | lt | gt | le | ge => exact order
    | _ => exact .fail _

theorem sameHash_sound (a b : Value) : Sound w (sameHash a b) := .guarded (.pure trivial)

end Operation

end FluentQuery
