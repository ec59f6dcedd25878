import FluentQuery.Proofs.Renaming.Expression

/-! Arithmetic, equality, order and hashes of values mirror themselves. -/

namespace FluentQuery.Operation

open Sql

variable {ρ : Renaming} {F : Footprint}

/-! ### Arithmetic -/

@[simp] theorem whole?_rename (v : Value) : whole? (v.rename ρ) = whole? v := by
  cases v <;> rfl

@[simp] theorem position?_rename (v : Value) : position? (v.rename ρ) = position? v := by
  cases v <;> rfl

@[simp] theorem float?_rename (v : Value) : float? (v.rename ρ) = float? v := by
  cases v <;> rfl

theorem times?_map {α β : Type} (f : α → β) (n : Int) (xs : List α) :
    times? n (xs.map f) = (times? n xs).map (List.map f) := by
  unfold times?
  rw [List.isEmpty_map, List.length_map]
  split
  · rfl
  split
  · rfl
  split
  · rfl
  · simp [List.map_flatten]

theorem mem_of_times? {α : Type} {n : Int} {xs ys : List α} (h : times? n xs = some ys) {x : α}
    (hx : x ∈ ys) : x ∈ xs := by
  unfold times? at h
  split at h
  · cases h
  split at h
  · cases h
    cases hx
  split at h
  · cases h
  · cases h
    obtain ⟨zs, hzs, hx⟩ := List.mem_flatten.mp hx
    exact List.eq_of_mem_replicate hzs ▸ hx

theorem repeatPlain_mirror (n : Int) {v : Value} (hv : v.Within F) :
    Mirror ρ F (repeatPlain n v) (repeatPlain n (v.rename ρ)) := by
  have items {xs : List Value} (h : ∀ w ∈ xs, w.Within F) :
      Mirror ρ F (orExternal (times? n xs)) (orExternal (times? n (xs.map (Value.rename ρ)))) :=
    orExternal_mirror ⟨times?_map _ n xs, fun _ hys _ hx => h _ (mem_of_times? hys hx)⟩
  cases v with
  | text id s =>
    refine .ite Iff.rfl (.pure hv) (.bind (orExternal_mirror ⟨?_, fun _ _ => trivial⟩) fun cs _ => ?_)
    · cases times? n s.toList <;> rfl
    · exact newText_mirror (String.ofList cs)
  | list id xs =>
    have hxs := Value.allWithin_iff.mp hv
    rw [Value.rename, Value.renameAll_eq]
    exact (items hxs).bind fun ys hys => newList_mirror hys
  | tuple id xs =>
    have hxs := Value.allWithin_iff.mp hv
    have whole : Mirror ρ F (pure (Value.tuple id xs)) (pure ((Value.tuple id xs).rename ρ)) := .pure hv
    rw [Value.rename, Value.renameAll_eq] at whole ⊢
    exact .ite Iff.rfl whole ((items hxs).bind fun ys hys => newTuple_mirror hys)
  | _ => exact .fail _

theorem joinPlain_mirror {v w : Value} (hv : v.Within F) (hw : w.Within F) :
    Mirror ρ F (joinPlain v w) (joinPlain (v.rename ρ) (w.rename ρ)) := by
  have both {xs ys : List Value} (hx : Value.AllWithin F xs) (hy : Value.AllWithin F ys) :
      ∀ u ∈ xs ++ ys, u.Within F :=
    List.forall_mem_append.mpr ⟨Value.allWithin_iff.mp hx, Value.allWithin_iff.mp hy⟩
  cases v with
  | text id s =>
    cases w with
    | text id' t =>
      exact .ite Iff.rfl (.pure hv) (.ite Iff.rfl (.pure hw) (newText_mirror (s ++ t)))
    | _ => exact .fail _
  | list id xs =>
    cases w with
    | list id' ys =>
      have : Mirror ρ F _ _ := newList_mirror (both hv hw)
      simp only [Value.rename, Value.renameAll_eq, List.map_append] at this ⊢
      exact this
    | _ => exact .fail _
  | tuple id xs =>
    cases w with
    | tuple id' ys =>
      have whole {u : Value} (hu : u.Within F) : Mirror ρ F (pure u) (pure (u.rename ρ)) := .pure hu
      have joined : Mirror ρ F _ _ := newTuple_mirror (both hv hw)
      have left := whole hv
      have right := whole hw
      simp only [Value.rename, Value.renameAll_eq, List.map_append] at joined left right ⊢
      exact .ite (by rw [List.isEmpty_map]) left (.ite (by rw [List.isEmpty_map]) right joined)
    | _ => exact .fail _
  | _ => cases w <;> exact .fail _

theorem plainArithmetic_mirror (op : Arithmetic) {a b : Value} (ha : a.Within F) (hb : b.Within F) :
    Mirror ρ F (plainArithmetic op a b) (plainArithmetic op (a.rename ρ) (b.rename ρ)) := by
  have float (x : Option Binary64) : Mirror ρ F (orExternal x) (orExternal x) :=
    orExternal_mirror ⟨by cases x <;> rfl, fun _ _ => trivial⟩
  unfold plainArithmetic
  rw [whole?_rename, whole?_rename, position?_rename, position?_rename, float?_rename, float?_rename]
  split
  · next x y _ _ =>
    refine .bind (orExternal_mirror (α := Int) ⟨?_, fun _ _ => trivial⟩) fun z _ => newInt_mirror z
    cases wholeArithmetic op x y <;> rfl
  · refine .ite Iff.rfl ?_ ?_
    · exact (float _).bind fun x _ => (float _).bind fun y _ => (float _).bind fun z _ =>
        newFloat_mirror z
    · split
      · exact joinPlain_mirror ha hb
      · exact repeatPlain_mirror _ ha
      · exact repeatPlain_mirror _ hb
      · exact .fail _

theorem arithmetic_mirror (op : Arithmetic) {a b : Value} (ha : a.Within F) (hb : b.Within F) :
    Mirror ρ F (arithmetic op a b) (arithmetic op (a.rename ρ) (b.rename ρ)) := by
  have expression := Expression.arithmetic?_mirror (ρ := ρ) (F := F) op a b
  unfold arithmetic
  generalize Expression.arithmetic? op a b = x at expression ⊢
  generalize Expression.arithmetic? op (a.rename ρ) (b.rename ρ) = y at expression ⊢
  cases expression with
  | none => exact plainArithmetic_mirror op ha hb
  | some h => exact h

/-! ### Equality and order -/

theorem tupleItems?_rename (v : Value) :
    tupleItems? (v.rename ρ) = (tupleItems? v).map (List.map (Value.rename ρ)) := by
  cases v with
  | tuple id items | row id items => simp [tupleItems?]
  | _ => rfl

theorem tupleItems?_within {v : Value} (hv : v.Within F) {items : List Value}
    (h : tupleItems? v = some items) : ∀ w ∈ items, w.Within F := by
  cases v with
  | tuple id xs | row id xs =>
    cases h
    exact Value.allWithin_iff.mp hv
  | _ => cases h

section Sequences

variable {equal : Value → Value → Run Bool}
  (he : ∀ {a b}, a.Within F → b.Within F → Mirror ρ F (equal a b) (equal (a.rename ρ) (b.rename ρ)))

include he

theorem agree_mirror {xs ys : List Value} (hx : ∀ v ∈ xs, v.Within F) (hy : ∀ v ∈ ys, v.Within F) :
    Mirror ρ F (agree equal xs ys)
      (agree equal (xs.map (Value.rename ρ)) (ys.map (Value.rename ρ))) := by
  induction xs generalizing ys with
  | nil => cases ys <;> exact .pure trivial
  | cons x xs ih =>
    cases ys with
    | nil => exact .pure (a := false) trivial
    | cons y ys =>
      obtain ⟨hx, hxs⟩ := List.forall_mem_cons.mp hx
      obtain ⟨hy, hys⟩ := List.forall_mem_cons.mp hy
      refine .ite (by rw [Value.same_rename]) (ih hxs hys) ?_
      exact (he hx hy).bind fun t _ => .ite Iff.rfl (ih hxs hys) (.pure trivial)

theorem fieldsAgree_mirror {other fields : List (String × Value)}
    (ho : ∀ x ∈ other, x.2.Within F) (hf : ∀ x ∈ fields, x.2.Within F) :
    Mirror ρ F (fieldsAgree equal other fields)
      (fieldsAgree equal (Value.renameEntries ρ other) (Value.renameEntries ρ fields)) := by
  induction fields with
  | nil => exact .pure (a := true) trivial
  | cons field rest ih =>
    obtain ⟨k, x⟩ := field
    obtain ⟨hx, hrest⟩ := List.forall_mem_cons.mp hf
    simp only [Value.renameEntries, List.map_cons, fieldsAgree] at ih ⊢
    rw [lookup_map_values]
    cases found : other.lookup k with
    | none => exact .pure (a := false) trivial
    | some y =>
      have hy := Value.within_of_lookup ho found
      refine .ite (by rw [Value.same_rename]) (ih hrest) ?_
      exact (he hx hy).bind fun t _ => .ite Iff.rfl (ih hrest) (.pure trivial)

end Sequences

theorem equalTo_mirror (depth : Nat) {a b : Value} (ha : a.Within F) (hb : b.Within F) :
    Mirror ρ F (equalTo depth a b) (equalTo depth (a.rename ρ) (b.rename ρ)) := by
  induction depth generalizing a b with
  | zero => exact .fail _
  | succ depth ih =>
    have equation := Expression.compare?_mirror (ρ := ρ) .eq ha b
    unfold equalTo
    generalize Expression.compare? .eq a b = x at equation ⊢
    generalize Expression.compare? .eq (a.rename ρ) (b.rename ρ) = y at equation ⊢
    cases equation with
    | some h => exact h.bind fun v hv => truth_mirror hv
    | none =>
      have same : Mirror ρ F (pure (a.same b)) (pure ((a.rename ρ).same (b.rename ρ))) :=
        .pure_of trivial (Value.same_rename a b)
      have items (xs ys : List Value) (hx : Value.AllWithin F xs) (hy : Value.AllWithin F ys) :
          Mirror ρ F (agree (equalTo depth) xs ys)
            (agree (equalTo depth) (Value.renameAll ρ xs) (Value.renameAll ρ ys)) := by
        rw [Value.renameAll_eq, Value.renameAll_eq]
        exact agree_mirror ih (Value.allWithin_iff.mp hx) (Value.allWithin_iff.mp hy)
      dsimp only
      cases a with
      | bool | int | float => cases b <;> first | exact same | exact .pure trivial
      | tuple | row =>
        cases b with
        | tuple | row => exact items _ _ ha hb
        | _ => exact same
      | list =>
        cases b with
        | list => exact items _ _ ha hb
        | _ => exact same
      | mapping i =>
        cases b with
        | mapping j =>
          refine (MappingId.read_mirror ha).bind fun fields hf => ?_
          refine (MappingId.read_mirror hb).bind fun others ho => ?_
          refine .ite ?_ (.pure trivial) ?_
          · simp [rename]
          · exact fieldsAgree_mirror ih (fun x hx => (ho x hx).2) fun x hx => (hf x hx).2
        | _ => exact same
      | text =>
        cases b with
        | text => exact .pure trivial
        | _ => exact same
      | queryType s =>
        cases b with
        | queryType t =>
          refine .pure_of trivial ?_
          rw [s.rename_purpose, t.rename_purpose, s.rename_entity, t.rename_entity,
            Value.same_rename]
          rfl
        | _ => exact same
      | frame f =>
        cases b with
        | frame g =>
          obtain ⟨id, builder, query⟩ := f
          obtain ⟨id', builder', query'⟩ := g
          exact items [builder, query] [builder', query']
            ⟨ha.1, ha.2, trivial⟩ ⟨hb.1, hb.2, trivial⟩
        | _ => exact same
      | _ => exact same

theorem equal_mirror {a b : Value} (ha : a.Within F) (hb : b.Within F) :
    Mirror ρ F (equal a b) (equal (a.rename ρ) (b.rename ρ)) :=
  equalTo_mirror 1000 ha hb

theorem orderItems_mirror (op : Comparison) {order : Value → Value → Run Bool}
    (h : ∀ {a b}, a.Within F → b.Within F →
      Mirror ρ F (order a b) (order (a.rename ρ) (b.rename ρ)))
    {xs ys : List Value} (hx : ∀ v ∈ xs, v.Within F) (hy : ∀ v ∈ ys, v.Within F) :
    Mirror ρ F (orderItems op order xs ys)
      (orderItems op order (xs.map (Value.rename ρ)) (ys.map (Value.rename ρ))) := by
  induction xs generalizing ys with
  | nil => exact .pure_of (a := wholeOrder op _ _) trivial (by simp [rename])
  | cons x xs ih =>
    cases ys with
    | nil => exact .pure_of (a := wholeOrder op _ _) trivial (by simp [rename])
    | cons y ys =>
      obtain ⟨hx, hxs⟩ := List.forall_mem_cons.mp hx
      obtain ⟨hy, hys⟩ := List.forall_mem_cons.mp hy
      refine .ite (by rw [Value.same_rename]) (ih hxs hys) ?_
      exact (equal_mirror hx hy).bind fun t _ => .ite Iff.rfl (ih hxs hys) (h hx hy)

/-- What is compared item by item, or as texts, is so after a renaming. -/
theorem orderLists_mirror (op : Comparison) {order : Value → Value → Run Bool}
    (ho : ∀ {v w : Value}, v.Within F → w.Within F →
      Mirror ρ F (order v w) (order (v.rename ρ) (w.rename ρ)))
    {a b : Value} (ha : a.Within F) (hb : b.Within F) :
    Mirror ρ F
      (match a, b with
        | .text _ s, .text _ t => return holds op (s < t) (t < s)
        | .list _ xs, .list _ ys => orderItems op order xs ys
        | _, _ => fail .external)
      (match a.rename ρ, b.rename ρ with
        | .text _ s, .text _ t => return holds op (s < t) (t < s)
        | .list _ xs, .list _ ys => orderItems op order xs ys
        | _, _ => fail .external) := by
  cases a with
  | text =>
    cases b with
    | text => exact .pure trivial
    | _ => exact .fail _
  | list id xs =>
    cases b with
    | list id' ys =>
      rw [Value.rename, Value.rename, Value.renameAll_eq, Value.renameAll_eq]
      exact orderItems_mirror op ho (Value.allWithin_iff.mp ha) (Value.allWithin_iff.mp hb)
    | _ => exact .fail _
  | _ => exact .fail _

theorem orderTo_mirror (op : Comparison) (depth : Nat) {a b : Value} (ha : a.Within F)
    (hb : b.Within F) :
    Mirror ρ F (orderTo op depth a b) (orderTo op depth (a.rename ρ) (b.rename ρ)) := by
  induction depth generalizing a b with
  | zero => exact .fail _
  | succ depth ih =>
    have items {xs ys : List Value} (hx : ∀ v ∈ xs, v.Within F) (hy : ∀ v ∈ ys, v.Within F) :=
      orderItems_mirror op ih hx hy
    have others := orderLists_mirror op ih ha hb
    have tuples {xs ys : List Value} (hx : tupleItems? a = some xs) (hy : tupleItems? b = some ys) :=
      items (tupleItems?_within ha hx) (tupleItems?_within hb hy)
    unfold orderTo
    rw [position?_rename, position?_rename, tupleItems?_rename, tupleItems?_rename]
    rcases position? a with _ | _ | p <;> rcases position? b with _ | _ | q <;>
      rcases hx : tupleItems? a with _ | xs <;> rcases hy : tupleItems? b with _ | ys <;>
      first | exact .pure trivial | exact others | exact tuples hx hy

theorem compare_mirror (op : Comparison) {a b : Value} (ha : a.Within F) (hb : b.Within F) :
    Mirror ρ F (Operation.compare op a b) (Operation.compare op (a.rename ρ) (b.rename ρ)) := by
  have order : Mirror ρ F (do return Value.bool (← orderTo op 1000 a b))
      (do return Value.bool (← orderTo op 1000 (a.rename ρ) (b.rename ρ))) :=
    (orderTo_mirror op 1000 ha hb).bind fun t _ => .pure (a := Value.bool t) trivial
  have equals (f : Bool → Bool) : Mirror ρ F (do return Value.bool (f (← equal a b)))
      (do return Value.bool (f (← equal (a.rename ρ) (b.rename ρ)))) :=
    (equal_mirror ha hb).bind fun t _ => .pure (a := Value.bool (f t)) trivial
  have plain : Mirror ρ F (plainComparison op a b) (plainComparison op (a.rename ρ) (b.rename ρ)) := by
    cases op with
    | eq => exact equals id
    | ne => exact equals (!·)
    | lt | gt | le | ge => exact order
    | is | isNot | like | notLike => exact .fail _
  have expression := Expression.compare?_mirror (ρ := ρ) op ha b
  unfold Operation.compare
  generalize Expression.compare? op a b = x at expression ⊢
  generalize Expression.compare? op (a.rename ρ) (b.rename ρ) = y at expression ⊢
  cases expression with
  | none => exact plain
  | some h => exact h

/-! ### Hashes -/

theorem numberHash?_rename (v : Value) : numberHash? (v.rename ρ) = numberHash? v := by
  cases v with
  | float id x => cases x <;> rfl
  | text id s =>
    by_cases empty : s = ""
    · subst empty
      rfl
    · simp [numberHash?, empty, whole?]
  | _ => rfl

theorem hashParts?_rename (v : Value) :
    hashParts? (v.rename ρ) = (hashParts? v).map fun p => (p.1, p.2.map (Value.rename ρ)) := by
  cases v with
  | tuple id items | row id items => simp [hashParts?]
  | queryType t => simp [hashParts?]
  | frame f => simp [hashParts?]
  | _ => rfl

theorem isHashable_rename (depth : Nat) (v : Value) :
    isHashable depth (v.rename ρ) = isHashable depth v := by
  induction depth generalizing v with
  | zero => rfl
  | succ depth ih =>
    have parts : (((hashParts? v).map fun p => (p.1, p.2.map (Value.rename ρ))).map
          fun p => p.2.all (isHashable depth)) =
        (hashParts? v).map fun p => p.2.all (isHashable depth) := by
      rw [Option.map_map]
      exact congrArg (Option.map · _) (funext fun p => by simp [ih, Function.comp_def])
    rw [← hashParts?_rename] at parts
    cases v with
    | list | mapping => rfl
    | _ => exact congrArg (Option.getD · true) parts

/-- Texts are the same by their letters, all else by what it is. -/
theorem sameText_rename (a b : Value) :
    (match a.rename ρ, b.rename ρ with
      | .text _ s, .text _ t => s == t
      | a, b => a.same b) =
    match a, b with
      | .text _ s, .text _ t => s == t
      | a, b => a.same b := by
  have same := Value.same_rename (ρ := ρ) a b
  cases a with
  | text =>
    cases b with
    | text => rfl
    | _ => exact same
  | _ => exact same

/-- Lists have one hash item by item. -/
theorem sameParts_rename {same : Value → Value → Bool}
    (h : ∀ a b, same (a.rename ρ) (b.rename ρ) = same a b) (p q : Option Purpose)
    (xs ys : List Value) :
    (p == q && (xs.map (Value.rename ρ)).length == (ys.map (Value.rename ρ)).length &&
      ((xs.map (Value.rename ρ)).zip (ys.map (Value.rename ρ))).all fun (x, y) => same x y) =
    (p == q && xs.length == ys.length && (xs.zip ys).all fun (x, y) => same x y) := by
  rw [List.zip_map, List.all_map, List.length_map, List.length_map]
  exact congrArg _ (congrArg (List.all _) (funext fun x => h x.1 x.2))

theorem sameHashTo_rename (depth : Nat) (a b : Value) :
    sameHashTo depth (a.rename ρ) (b.rename ρ) = sameHashTo depth a b := by
  induction depth generalizing a b with
  | zero => exact Value.same_rename a b
  | succ depth ih =>
    have texts := sameText_rename (ρ := ρ) a b
    have parts := sameParts_rename ih
    unfold sameHashTo
    rw [numberHash?_rename, numberHash?_rename, hashParts?_rename, hashParts?_rename]
    rcases numberHash? a with _ | m <;> rcases numberHash? b with _ | n <;>
      rcases hashParts? a with _ | p <;> rcases hashParts? b with _ | q <;>
      first | rfl | exact texts | exact parts _ _ _ _

theorem sameHash_mirror (a b : Value) :
    Mirror ρ F (sameHash a b) (sameHash (a.rename ρ) (b.rename ρ)) := by
  unfold sameHash
  rw [isHashable_rename, isHashable_rename, sameHashTo_rename]
  exact .guarded Iff.rfl (.pure trivial)

end FluentQuery.Operation
