import FluentQuery.Proofs.Filters.Truth
import FluentQuery.Proofs.Meaning.Entries

/-! Joining restrictions. A restriction that conditions were joined to, one after another, is
the conjunction of what it was and of these. -/

namespace FluentQuery

open Sql

theorem Value.conditions_eq {v : Value} {x : Operand} (h : v.isNull = false)
    (hx : v.condition = .ok x) : v.conditions = .ok [x.term] := by
  simp [conditions, h, hx, Except.map]

theorem Value.conditions_of_ne_null {v : Value} {ts : List Term} (h : v.isNull = false)
    (hts : v.conditions = .ok ts) : ∃ x, v.condition = .ok x ∧ ts = [x.term] := by
  unfold conditions at hts
  simp only [h, Bool.false_eq_true, ↓reduceIte] at hts
  cases hx : v.condition with
  | error e => simp [hx, Except.map] at hts
  | ok x =>
    rw [hx] at hts
    exact ⟨x, rfl, (Except.ok.inj hts).symm⟩

/-- What is no condition fails as foreign code does. -/
theorem Value.condition_eq_error {v : Value} {e : Error} (h : v.condition = .error e) :
    e = .external := by
  unfold condition at h
  split at h
  · cases h
  · cases h
  · split at h
    · cases h
    · exact (Except.error.inj h).symm
  · exact (Except.error.inj h).symm

theorem Term.isOperand_asCondition {key : ItemKey} {t : Term} (h : t.isOperand = true) :
    (t.asCondition key).isOperand = true := by
  unfold Term.asCondition
  split
  case h_6 => exact h
  all_goals split <;> rfl

theorem Value.isOperand_of_condition {v : Value} {x : Operand} (h : v.condition = .ok x) :
    x.term.isOperand = true := by
  unfold condition at h
  split at h
  · rw [← Except.ok.inj h]
    rfl
  · rw [← Except.ok.inj h]
    rfl
  · split at h
    · rename_i passed
      rw [← Except.ok.inj h]
      exact passed
    · cases h
  · cases h

theorem Value.condition_term {id : Nat} {t : Term} (h : t.isOperand = true) :
    (Value.term id t).condition = .ok ⟨(Value.term id t).key, t⟩ := by
  simp [condition, expression?, subject?, h]

/-- Joined conditions are a condition again. -/
theorem Connective.isOperand_join {op : Connective} {xs : List Operand}
    (h : ∀ x ∈ xs, x.term.isOperand = true) : (Connective.join op xs).isOperand = true := by
  unfold Connective.join
  split
  · rfl
  split
  · exact Term.isOperand_asCondition rfl
  split
  · exact Term.isOperand_asCondition rfl
  · rename_i x only
    exact Term.isOperand_asCondition (h x (List.mem_filter.mp (only ▸ List.mem_singleton_self x)).1)
  · rfl

theorem Except.mapM_eq_ok {ε α β : Type} {f : α → Except ε β} {xs : List α} {ys : List β} :
    xs.mapM f = .ok ys ↔ List.Forall₂ (fun x y => f x = .ok y) xs ys := by
  induction xs generalizing ys with
  | nil => cases ys <;> simp [pure, Except.pure]
  | cons x xs ih =>
    rw [List.mapM_cons, Except.bind_eq_ok]
    constructor
    · rintro ⟨y, hy, h⟩
      obtain ⟨zs, hzs, h⟩ := Except.bind_eq_ok.mp h
      obtain rfl := Except.ok.inj h
      exact .cons hy (ih.mp hzs)
    · intro h
      cases h with
      | cons hy rest => exact ⟨_, hy, Except.bind_eq_ok.mpr ⟨_, ih.mpr rest, rfl⟩⟩

/-- A condition that needs no change is the only one of a conjunction that is not neutral. -/
theorem Connective.join_of_unchanged {op : Connective} {xs : List Operand} {x : Operand}
    (only : xs.filter (fun x => !Connective.isConstant op.neutral x.term) = [x])
    (unchanged : x.term.isUnchanged = true) : op.join xs = x.term := by
  have same : x.asCondition = x.term := by
    have changes (t : Term) (key : ItemKey) (h : t.isUnchanged = true) : t.asCondition key = t := by
      cases t <;> simp_all [Term.asCondition, Term.isUnchanged]
    exact changes _ _ unchanged
  have nonempty : xs.isEmpty = false := by
    cases xs with
    | nil => cases only
    | cons => rfl
  have undecided : xs.any (Connective.isConstant op.absorbing ·.term) = false := by
    rw [List.any_eq_false]
    intro y hy isAbsorbing
    have decisive : Connective.isConstant op.neutral y.term = false := by
      rw [Connective.isConstant_iff.mp isAbsorbing]
      cases op <;> rfl
    have mem : y ∈ xs.filter (fun x => !Connective.isConstant op.neutral x.term) :=
      List.mem_filter.mpr ⟨hy, by simp [decisive]⟩
    rw [only, List.mem_singleton] at mem
    subst mem
    rw [Connective.isConstant_iff.mp isAbsorbing] at unchanged
    cases op <;> cases unchanged
  rw [Connective.join, nonempty, undecided, only]
  exact same

/-- Joining values makes an expression that joins the conditions they stand for. -/
theorem Expression.exec_connect {op : Connective} {vs : List Value} {r : Value} {m m' : Machine}
    (h : exec (connect op vs) m = (.ok r, m')) :
    ∃ xs id, vs.mapM Value.condition = .ok xs ∧ r = .term id (op.join xs) := by
  obtain ⟨xs, m₁, lifted, h⟩ := exec_bind_eq_ok.mp h
  obtain ⟨hxs, rfl⟩ := exec_liftExcept_eq_ok.mp lifted
  have conditions := Except.mapM_eq_ok.mp hxs
  have made {t : Term} {m : Machine} (h : exec (newTerm t) m = (.ok r, m')) :
      ∃ id, r = .term id t := by
    obtain ⟨id, m₂, -, h⟩ := exec_bind_eq_ok.mp h
    exact ⟨id, (exec_pure_eq_ok.mp h).1.symm⟩
  dsimp only at h
  split at h
  · rename_i id u z only
    split at h
    · rename_i unchanged
      obtain ⟨rfl, -⟩ := exec_pure_eq_ok.mp h
      have hz : (Value.term id u, z) ∈ vs.zip xs :=
        (List.mem_filter.mp (only ▸ List.mem_singleton_self _)).1
      have first : z.term = u := by
        have hu := List.forall₂_zip conditions hz
        unfold Value.condition at hu
        dsimp only [Value.expression?, Value.subject?] at hu
        split at hu
        · rw [← Except.ok.inj hu]
        · cases hu
      have alone : xs.filter (fun x => !Connective.isConstant op.neutral x.term) = [z] := by
        have second : (vs.zip xs).map Prod.snd = xs :=
          List.map_snd_zip (Nat.le_of_eq conditions.length_eq.symm)
        rw [← second, List.filter_map]
        exact congrArg (List.map Prod.snd) only
      refine ⟨xs, id, hxs, ?_⟩
      rw [Connective.join_of_unchanged alone (first ▸ unchanged), first]
    · obtain ⟨id, rfl⟩ := made h
      exact ⟨xs, id, hxs, rfl⟩
  · obtain ⟨id, rfl⟩ := made h
    exact ⟨xs, id, hxs, rfl⟩

/-- Two values joined by AND stand for a condition that is the conjunction of theirs. -/
theorem Expression.exec_connect_and {v w r : Value} {m m' : Machine}
    (h : exec (connect .and [v, w]) m = (.ok r, m')) :
    ∃ x y z, v.condition = .ok x ∧ w.condition = .ok y ∧ r.isNull = false ∧
      r.condition = .ok z ∧
      (∀ {α : Type} [Logic α] (a : Term → α),
        z.term.truth a = Logic.and (x.term.truth a) (y.term.truth a)) ∧
      (x.term.isComplete = true → y.term.isComplete = true → z.term.isComplete = true) := by
  obtain ⟨xs, id, hxs, rfl⟩ := exec_connect h
  obtain ⟨x, y, hx, hy, rfl⟩ : ∃ x y, v.condition = .ok x ∧ w.condition = .ok y ∧ xs = [x, y] := by
    cases Except.mapM_eq_ok.mp hxs with
    | cons hx rest =>
      cases rest with
      | cons hy rest =>
        cases rest
        exact ⟨_, _, hx, hy, rfl⟩
  have both {p : Operand → Prop} (px : p x) (py : p y) : ∀ z ∈ [x, y], p z := by
    simp [px, py]
  have operand : (Connective.and.join [x, y]).isOperand = true :=
    Connective.isOperand_join
      (both (Value.isOperand_of_condition hx) (Value.isOperand_of_condition hy))
  refine ⟨x, y, _, hx, hy, rfl, Value.condition_term operand, fun a => ?_, fun hx hy => ?_⟩
  · simp [Connective.truth_join, Term.conjunction_cons, Term.conjunction_nil]
  · exact Connective.isComplete_join (List.cons_ne_nil _ _) (both hx hy)

/-- A restriction that conditions were joined to is their conjunction, from what it was before on;
it is complete if all of them are, and there are no conditions only if there were none. -/
theorem Conjoined.conjunction {old r : Value} {es : List Value} {ts : List Term}
    (h : Conjoined old es r) (hts : r.conditions = .ok ts) :
    ∃ olds xs, old.conditions = .ok olds ∧ es.mapM Value.condition = .ok xs ∧
      (∀ {α : Type} [Logic α] (a : Term → α),
        Term.conjunction a ts = Term.conjunction a (olds ++ xs.map (·.term))) ∧
      ((∀ t ∈ olds ++ xs.map (·.term), t.isComplete = true) → ∀ t ∈ ts, t.isComplete = true) ∧
      (ts = [] → olds ++ xs.map (·.term) = []) := by
  induction h with
  | nil => exact ⟨ts, [], hts, rfl, fun a => by simp, by simp, by simp⟩
  | @first e es r he _ ih =>
    obtain ⟨olds, xs, holds, hxs, same, complete, none⟩ := ih hts
    obtain ⟨x, hx, rfl⟩ := Value.conditions_of_ne_null he holds
    exact ⟨[], x :: xs, rfl, Except.mapM_eq_ok.mpr (.cons hx (Except.mapM_eq_ok.mp hxs)), same,
      complete, none⟩
  | @more old e es joint r m m' ho hj _ ih =>
    obtain ⟨olds, xs, holds, hxs, same, complete, none⟩ := ih hts
    obtain ⟨x, y, z, hx, hy, hnull, hz, truth, both⟩ := Expression.exec_connect_and hj
    rw [Value.conditions_eq hnull hz] at holds
    obtain rfl := Except.ok.inj holds
    refine ⟨[x.term], y :: xs, Value.conditions_eq ho hx,
      Except.mapM_eq_ok.mpr (.cons hy (Except.mapM_eq_ok.mp hxs)), fun a => ?_, fun all => ?_,
      fun empty => absurd (none empty) (List.cons_ne_nil _ _)⟩
    · rw [same]
      simp [Term.conjunction_cons, truth, Logic.and_assoc]
    · have hz := both (all x.term (by simp)) (all y.term (by simp))
      refine complete fun t ht => ?_
      rcases List.mem_append.mp ht with ht | ht
      · rwa [List.mem_singleton.mp ht]
      · exact all t (by simp only [List.map_cons, List.mem_append, List.mem_cons, ht, or_true])

end FluentQuery
