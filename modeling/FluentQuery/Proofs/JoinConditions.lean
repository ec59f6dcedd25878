import FluentQuery.Proofs.JoinConditions.Calls

/-! No join of a subquery is lost. Whatever is called on a subquery in whatever order, each join that
was accepted stands once in its statements: as a JOIN, or, from a correlated root, as a root and a
condition that is conjoined with the restriction. Replacing the restriction leaves these conditions. -/

namespace FluentQuery

open Sql

variable {c : ContextId} {m m' m₀ : Machine} {x y : Context}

/-! ### Aliases -/

/-- The number of an alias. -/
def Value.number? (v : Value) : Option Nat := v.source?.bind (·.alias?)

/-- What is created here are aliases with different numbers, all below this one. -/
structure Listing.Numbered (l : Listing) (next : Nat) : Prop where
  alias? : ∀ v ∈ l.created, ∃ e n, v = .mapped ⟨e, some n⟩ ∧ n < next
  nodup : (l.created.map Value.number?).Nodup

namespace Listing.Numbered

variable {l : Listing} {item : Listing.Item} {n n' k : Nat}

theorem mono (h : l.Numbered n) (later : n ≤ n') : l.Numbered n' where
  alias? v hv := by
    obtain ⟨e, i, hv, hi⟩ := h.alias? v hv
    exact ⟨e, i, hv, Nat.lt_of_lt_of_le hi later⟩
  nodup := h.nodup

theorem enter (h : l.Numbered n) (proper : item.Proper l k) (number : n ≤ k ∧ k < n') :
    (l.enter item).Numbered n' := by
  obtain ⟨low, high⟩ := number
  rcases Listing.created_enter proper with same | ⟨e, -, perm⟩
  · have numbered := h.mono (Nat.le_trans low (Nat.le_of_lt high))
    exact ⟨by rw [same]; exact numbered.alias?, by rw [same]; exact h.nodup⟩
  · refine ⟨fun v hv => ?_, (perm.map _).nodup_iff.mpr (List.nodup_cons.mpr ⟨fun old => ?_, h.nodup⟩)⟩
    · rcases List.mem_cons.mp (perm.mem_iff.mp hv) with rfl | old
      · exact ⟨e, k, rfl, high⟩
      · exact (h.mono (Nat.le_trans low (Nat.le_of_lt high))).alias? v old
    · obtain ⟨v, hv, same⟩ := List.mem_map.mp old
      obtain ⟨_, i, rfl, hi⟩ := h.alias? v hv
      obtain rfl := Option.some.inj same
      omega

/-- What is correlated creates nothing. -/
theorem correlate (h : l.Numbered n) (root : Value) : (l.enter (.correlate root)).Numbered n := by
  unfold Listing.enter
  dsimp only
  split
  · exact h
  · exact ⟨h.alias?, h.nodup⟩

end Listing.Numbered

/-- What is the same as a mapped class or alias is that. -/
theorem Value.eq_mapped_of_same {o : Mapped} {v : Value} (h : (Value.mapped o).same v = true) :
    v = .mapped o := by
  unfold same at h
  split at h
  any_goals cases h
  all_goals simp_all

/-- What is the same as no mapped class or alias is none. -/
theorem Value.source?_of_same {v w : Value} (h : v.same w = true) (none : v.source? = .none) :
    w.source? = .none := by
  cases w with
  | mapped o =>
    cases v with
    | mapped o' => cases none
    | _ => simp [same] at h
  | _ => rfl

/-! ### Sequences of calls -/

/-- A call on a subquery with its answer, between two machines. -/
structure SubqueryEvent where
  call : SubqueryCall
  answer : Except Error Value
  before : Machine
  after : Machine

namespace SubqueryEvent

/-- The join that was accepted. -/
def joined? (c : ContextId) (e : SubqueryEvent) : Option Joined := e.call.joined? c e.before e.answer

/-- The restriction that was placed. -/
def placed? (e : SubqueryEvent) : Option Value :=
  match e.answer with
  | .ok _ => e.call.placed?
  | .error _ => none

end SubqueryEvent

/-- Calls on the subquery at `c`, oldest first. Between two calls anything may happen that leaves the
subquery as it is and gives no number away twice. -/
inductive Machine.Undergoes (m₀ : Machine) (c : ContextId) : List SubqueryEvent → Machine → Prop
  | start : Undergoes m₀ c [] m₀
  | meanwhile {es : List SubqueryEvent} {m m' : Machine} (before : Undergoes m₀ c es m)
      (same : m'.context? c = m.context? c) (next : m.next ≤ m'.next) : Undergoes m₀ c es m'
  | called {es : List SubqueryEvent} {call : SubqueryCall} {r : Except Error Value} {m m' : Machine}
      (before : Undergoes m₀ c es m) (h : exec (call.run c) m = (r, m')) :
      Undergoes m₀ c (es ++ [⟨call, r, m, m'⟩]) m'

/-- Makes calls on a subquery one after another, whatever they are answered. -/
def SubqueryCall.runAll (c : ContextId) : List SubqueryCall → Machine → List SubqueryEvent × Machine
  | [], m => ([], m)
  | call :: rest, m =>
    let (r, m₁) := exec (call.run c) m
    let (es, m') := runAll c rest m₁
    (⟨call, r, m, m₁⟩ :: es, m')

/-- The joins that were accepted, oldest first. -/
def joinsOf (c : ContextId) (es : List SubqueryEvent) : List Joined := es.filterMap (·.joined? c)

/-- What a subquery is after these calls: every join that was accepted is kept where it belongs, and
nothing else is. -/
structure Context.Accounts (c : ContextId) (es : List SubqueryEvent) (next : Nat) (x : Context) :
    Prop where
  nested : x.isSubquery = true
  plans : x.plans = ((joinsOf c es).filter (!·.correlated)).map Joined.plan
  conditions : x.kind.joinConditions = ((joinsOf c es).filter (·.correlated)).map Joined.condition
  roots : (((joinsOf c es).filter (·.correlated)).map fun j => .mapped j.target).Sublist x.listing.roots
  numbered : x.listing.Numbered next
  restriction : x.restriction = (es.filterMap (·.placed?)).getLastD .null
  correlated : ∀ e ∈ es, ∀ y, e.before.context? c = some y → y.correlated ⊆ x.correlated
  owners : ∀ j ∈ joinsOf c es, j.correlated = true → .mapped j.owner ∈ x.correlated

namespace Context.Accounts

variable {es : List SubqueryEvent} {n n' : Nat} {e : SubqueryEvent}

theorem blank (c : ContextId) (n : Nat) (parent : Value) : (Context.subquery parent).Accounts c [] n := by
  have none : joinsOf c [] = [] := rfl
  have listed : (Context.subquery parent).listing = .blank true := rfl
  refine ⟨rfl, by rw [none]; rfl, by rw [none]; rfl, by rw [none]; exact List.nil_sublist _, ?_, rfl, ?_, ?_⟩
  · rw [listed]
    exact ⟨by simp, by simp⟩
  · simp
  · simp [none]

theorem mono (h : x.Accounts c es n) (later : n ≤ n') : x.Accounts c es n' :=
  { h with numbered := h.numbered.mono later }

theorem joinsOf_concat (c : ContextId) (es : List SubqueryEvent) (e : SubqueryEvent) :
    joinsOf c (es ++ [e]) = joinsOf c es ++ (e.joined? c).toList := by
  unfold joinsOf
  rw [List.filterMap_append]
  cases h : e.joined? c <;> simp [h]

/-- What was correlated before one of the calls still is. -/
theorem correlated_concat (h : x.Accounts c es n) (hx : e.before.context? c = some x)
    (grown : x.correlated ⊆ y.correlated) :
    ∀ e' ∈ es ++ [e], ∀ z, e'.before.context? c = some z → z.correlated ⊆ y.correlated := by
  intro e' he z hz
  rcases List.mem_append.mp he with old | new
  · exact List.Subset.trans (h.correlated e' old z hz) grown
  · obtain rfl := List.mem_singleton.mp new
    obtain rfl := Option.some.inj (hx.symm.trans hz)
    exact grown

/-- A call that accepts no join leaves what is kept of joins. -/
theorem kept (h : x.Accounts c es n) (hx : e.before.context? c = some x) (none : e.joined? c = none)
    (keeps : x.KeepsJoins y) (grows : x.listing.Grows y.listing) (numbered : y.listing.Numbered n')
    (placed : y.restriction = e.placed?.getD x.restriction) : y.Accounts c (es ++ [e]) n' := by
  have joins : joinsOf c (es ++ [e]) = joinsOf c es := by rw [joinsOf_concat, none]; simp
  have correlated : x.correlated ⊆ y.correlated := grows.correlated.subset
  refine ⟨keeps.nested.trans h.nested, ?_, ?_, ?_, numbered, ?_, ?_, ?_⟩
  · rw [joins, keeps.plans, h.plans]
  · rw [joins, keeps.conditions, h.conditions]
  · rw [joins]
    exact h.roots.trans grows.roots.sublist
  · rw [placed, List.filterMap_append, h.restriction]
    cases hp : e.placed? <;> simp [hp]
  · exact h.correlated_concat hx correlated
  · rw [joins]
    exact fun j hj own => correlated (h.owners j hj own)

/-- A join that is accepted is kept where it belongs. -/
theorem joined {j : Joined} {k : Nat} {truth : Option Bool} (h : x.Accounts c es n)
    (hx : e.before.context? c = some x) (accepted : e.joined? c = some j) (plain : e.placed? = none)
    (number : n ≤ k ∧ k < n') (own : j.correlated = true → .mapped j.owner ∈ x.correlated)
    (hy : x.join k j.correlated j.owner j.relationship j.outer truth = .ok (.mapped j.target, y)) :
    y.Accounts c (es ++ [e]) n' := by
  have joins : joinsOf c (es ++ [e]) = joinsOf c es ++ [j] := by rw [joinsOf_concat, accepted]; rfl
  obtain ⟨same, proper, entered⟩ := Context.join_listing hy
  obtain ⟨nested, plans, conditions⟩ := Context.join_keeps hy
  rw [← Value.mapped.inj same] at proper entered
  have correlated : x.correlated ⊆ y.correlated := by
    have grown := (x.listing.grows_enter (.join j.correlated j.target)).correlated.subset
    rwa [← entered] at grown
  refine ⟨nested.trans h.nested, ?_, ?_, ?_, entered ▸ h.numbered.enter proper number, ?_, ?_, ?_⟩
  · rw [joins, plans, h.plans]
    cases hj : j.correlated <;> simp [hj]
  · rw [joins, conditions, h.conditions]
    cases hj : j.correlated <;> simp [hj]
  · rw [joins, entered]
    cases hj : j.correlated with
    | false => simpa [hj, Listing.enter] using h.roots
    | true => simpa [hj, Listing.enter] using h.roots.append (List.Sublist.refl [Value.mapped j.target])
  · rw [Context.restriction_join hy, List.filterMap_append, h.restriction]
    simp [plain]
  · exact h.correlated_concat hx correlated
  · rw [joins]
    intro j' hj' from'
    rcases List.mem_append.mp hj' with old | new
    · exact correlated (h.owners j' old from')
    · obtain rfl := List.mem_singleton.mp new
      exact correlated (own from')

/-- Whatever is called on a subquery, it accounts for that too. -/
theorem called (h : x.Accounts c es n) (hx : e.before.context? c = some x) (later : n ≤ n')
    (effect : e.call.Effect c x n n' e.answer (e.joined? c) y) : y.Accounts c (es ++ [e]) n' := by
  obtain ⟨call, answer, before, m'⟩ := e
  generalize hj : SubqueryEvent.joined? c ⟨call, answer, before, m'⟩ = j? at effect
  have rooted {v entity : Value} {k : Nat} (number : n ≤ k ∧ k < n')
      (hy : x.addRoot k entity = .ok (v, y)) (none : SubqueryEvent.joined? c ⟨call, answer, before, m'⟩ = none)
      (plain : SubqueryEvent.placed? ⟨call, answer, before, m'⟩ = .none) :
      y.Accounts c (es ++ [⟨call, answer, before, m'⟩]) n' := by
    obtain ⟨proper, entered⟩ := Context.addRoot_listing hy
    refine h.kept hx none (Context.addRoot_keepsJoins hy) ?_ ?_ ?_
    · rw [entered]
      exact x.listing.grows_enter _
    · rw [entered]
      exact h.numbered.enter proper number
    · rw [plain]
      exact Context.restriction_addRoot hy
  cases effect with
  | refused =>
    exact h.kept hx hj ⟨rfl, rfl, rfl⟩ (.refl _) (h.numbered.mono later) rfl
  | abandoned correlates unmapped number hy => exact rooted number hy hj rfl
  | root number hy => exact rooted number hy hj rfl
  | joined number correlates own same hy =>
    refine h.joined hx hj rfl number (fun correlated => ?_) hy
    have owned := own correlated
    rw [correlates, owned] at correlated
    obtain ⟨r, hr, same⟩ := (Context.correlates_iff h.nested _).mp correlated
    rwa [Value.eq_mapped_of_same same] at hr
  | changed change hy =>
    obtain ⟨changes, placed⟩ := SubqueryCall.change?_eq_some change
    refine h.kept hx hj (changes.keepsJoins hy) ?_ ?_ (placed _ _ hy)
    · rcases changes.listing hy with ⟨root, rfl⟩ | same
      · rw [(Context.correlate_listing n hy).2]
        exact x.listing.grows_enter _
      · rw [same]
        exact .refl _
    · rcases changes.listing hy with ⟨root, rfl⟩ | same
      · rw [(Context.correlate_listing n hy).2]
        exact (h.numbered.mono later).correlate root
      · rw [same]
        exact h.numbered.mono later

end Context.Accounts

/-! ### What calls are answered -/

namespace SubqueryEvent

/-- The call was made on the subquery `y` and answered as it says. -/
structure Happened (c : ContextId) (e : SubqueryEvent) (y : Context) : Prop where
  before : e.before.context? c = some y
  nested : y.isSubquery = true
  performed : exec (e.call.run c) e.before = (e.answer, e.after)

/-- The join of a relationship was answered: by the new alias if it was accepted, and refused if the
owner is a correlated root and the join is outer or goes through a pairing table. -/
structure AnswersJoin (c : ContextId) (e : SubqueryEvent) (y : Context) (owner key outer : Value) :
    Prop where
  accepted : ∀ v, e.answer = .ok v → ∃ j m₁, e.joined? c = some j ∧ v = .mapped j.target ∧
    j.target.entity = j.relationship.target ∧ j.outer = outer ∧ j.correlated = y.correlates owner ∧
    exec (resolveRelationship owner key) e.before = (.ok (j.owner, j.relationship), m₁)
  correlated : ∀ own r m₁, exec (resolveRelationship owner key) e.before = (.ok (own, r), m₁) →
    y.correlates owner = true →
      (outer.truth? m₁ = some true → e.answer = .error .outerFromCorrelated) ∧
      (outer.truth? m₁ = some false → r.pairing?.isSome = true → e.answer = .error .throughFromCorrelated)
  accepts : ∀ own r m₁, exec (resolveRelationship owner key) e.before = (.ok (own, r), m₁) →
    (y.correlates owner = true →
      outer.truth? m₁ = some false ∧ r.pairing? = none ∧ owner.source?.isSome = true) →
    ∃ v, e.answer = .ok v

namespace Happened

variable {e : SubqueryEvent} {owner key outer : Value}

theorem answersJoin (h : e.Happened c y) (call : e.call = .join owner key outer) :
    e.AnswersJoin c y owner key outer := by
  obtain ⟨_, answer, before, after⟩ := e
  obtain ⟨hy, nested, performed⟩ := h
  dsimp only at call hy performed
  subst call
  have answered : (exec (c.join owner key outer) before).1 = answer := congrArg Prod.fst performed
  refine ⟨fun v hv => ?_, fun own r m₁ resolved => ?_, fun own r m₁ resolved => ?_⟩
  · dsimp only at hv
    subst hv
    obtain ⟨-, z, -, effect⟩ := SubqueryCall.effect hy nested performed
    generalize hj : SubqueryCall.joined? c before (.join owner key outer) (.ok v) = j? at effect
    cases effect with
    | @joined _ _ _ j _ _ _ _ correlates own same hz =>
      obtain ⟨target, -⟩ := Context.join_listing hz
      have resolved : (exec (resolveRelationship owner key) before).1 = .ok (j.owner, j.relationship) := by
        simp only [SubqueryCall.joined?, hy] at hj
        split at hj
        · rename_i found
          rw [← Option.some.inj hj]
          exact found
        · cases hj
      exact ⟨j, _, hj, rfl, congrArg Mapped.entity (Value.mapped.inj target), same, correlates,
        Prod.ext resolved rfl⟩
    | changed change => cases change
  · rw [← answered]
    exact (ContextId.exec_join_answers hy nested resolved).1
  · rw [← answered]
    exact (ContextId.exec_join_answers hy nested resolved).2

/-- A refused call leaves the subquery as it was, but for a join from a correlated root that is no
mapped class or alias. -/
theorem refused {err : Error} (h : e.Happened c y) (refused : e.answer = .error err) :
    e.after.context? c = some y ∨ err = .external ∧ ∃ owner key outer,
      e.call = .join owner key outer ∧ y.correlates owner = true ∧ owner.source? = none := by
  obtain ⟨call, answer, before, after⟩ := e
  obtain ⟨hy, nested, performed⟩ := h
  dsimp only at refused hy performed
  subst refused
  obtain ⟨-, z, hz, effect⟩ := SubqueryCall.effect hy nested performed
  generalize SubqueryCall.joined? c before call (.error err) = j? at effect
  cases effect with
  | refused => exact .inl hz
  | @abandoned owner key outer _ _ _ correlates unmapped =>
    exact .inr ⟨rfl, owner, key, outer, rfl, correlates, unmapped⟩

end Happened

end SubqueryEvent

namespace Machine.Undergoes

variable {es : List SubqueryEvent} {e : SubqueryEvent} {parent : Value}

theorem accounts (h : m₀.Undergoes c es m) (hx : m₀.context? c = some (.subquery parent)) :
    ∃ x, m.context? c = some x ∧ x.Accounts c es m.next := by
  induction h with
  | start => exact ⟨_, hx, .blank c _ parent⟩
  | meanwhile _ same next ih =>
    obtain ⟨x, hx, accounts⟩ := ih
    exact ⟨x, same.trans hx, accounts.mono next⟩
  | called _ h ih =>
    obtain ⟨x, hx, accounts⟩ := ih
    obtain ⟨later, y, hy, effect⟩ := SubqueryCall.effect hx accounts.nested h
    exact ⟨y, hy, accounts.called hx later effect⟩

/-- Every one of the calls was made on the subquery. -/
theorem happened (h : m₀.Undergoes c es m) (hx : m₀.context? c = some (.subquery parent))
    (he : e ∈ es) : ∃ y, e.Happened c y := by
  induction h with
  | start => cases he
  | meanwhile _ _ _ ih => exact ih he
  | called before h ih =>
    rcases List.mem_append.mp he with old | new
    · exact ih old
    · obtain rfl := List.mem_singleton.mp new
      obtain ⟨y, hy, accounts⟩ := before.accounts hx
      exact ⟨y, hy, accounts.nested, h⟩

/-- Calls one after another. -/
theorem all (h : m₀.Undergoes c es m) (calls : List SubqueryCall) :
    m₀.Undergoes c (es ++ (SubqueryCall.runAll c calls m).1) (SubqueryCall.runAll c calls m).2 := by
  induction calls generalizing es m with
  | nil => simpa [SubqueryCall.runAll] using h
  | cons call rest ih =>
    have later := ih (h.called (rfl : exec (call.run c) m = _))
    rwa [List.append_assoc] at later

theorem of_runAll (c : ContextId) (calls : List SubqueryCall) (m : Machine) :
    m.Undergoes c (SubqueryCall.runAll c calls m).1 (SubqueryCall.runAll c calls m).2 := by
  simpa only [List.nil_append] using all .start calls

/-- More happened to the subquery. -/
def Further (m₀ : Machine) (c : ContextId) (m m' : Machine) : Prop :=
  ∀ es, m₀.Undergoes c es m → ∃ more, m₀.Undergoes c (es ++ more) m'

namespace Further

theorem of_same (same : m'.context? c = m.context? c) (next : m.next ≤ m'.next) :
    Further m₀ c m m' :=
  fun _ h => ⟨[], by simpa using h.meanwhile same next⟩

instance : Inert (Further m₀ c) := by
  refine .of_contexts (fun next h => of_same (congrArg (·[c.index]?) h) next) fun h h' es before => ?_
  obtain ⟨first, h⟩ := h es before
  obtain ⟨rest, h⟩ := h' _ h
  exact ⟨first ++ rest, by rwa [← List.append_assoc]⟩

theorem run (call : SubqueryCall) : Keeps (Further m₀ c) (call.run c) :=
  fun _ _ before => ⟨_, before.called rfl⟩

variable (created : m₀.context? c = some (.subquery parent))

include created

/-- A subquery refuses what is for other query contexts only. -/
theorem refuses {f : Context → Except Error Context}
    (h : ∀ x : Context, x.isSubquery = true → ∃ e, f x = .error e) :
    Keeps (Further m₀ c) (c.update f) := by
  intro m es before
  obtain ⟨x, hx, accounts⟩ := before.accounts created
  obtain ⟨e, he⟩ := h x accounts.nested
  rw [after, exec_update]
  simp only [hx, he]
  exact of_same rfl (Nat.le_refl _) es before

theorem newContext (k : ContextKind) : Keeps (Further m₀ c) (FluentQuery.newContext k) := by
  refine Keeps.bind (fun m es before => ?_) fun _ => .pure _
  obtain ⟨x, hx, -⟩ := before.accounts created
  have same : (after (ContextId.new (.ofKind k)) m).context? c = m.context? c :=
    List.getElem?_append_left (List.getElem?_eq_some_iff.mp hx).1
  exact of_same same (Nat.le_refl _) es before

theorem assign (key v : Value) : Keeps (Further m₀ c) (c.assign key v) := by
  unfold ContextId.assign
  refine c.read_keeps.bind fun x => ?_
  split
  · refine (resolveAttribute_keeps _ _).bind fun a => ?_
    split
    · exact (register_keeps v).bind fun _ => refuses created fun y nested =>
        ⟨.external, Context.assign_of_isSubquery nested _ v⟩
    · exact .fail _
  · exact .fail _

/-- Whatever method of a subquery is called, it is one of these calls, or leaves the subquery as it
is. -/
theorem invoke (method : String) (a : ArgList) : Keeps (Further m₀ c) (c.invoke method a) := by
  unfold ContextId.invoke
  refine c.read_keeps.bind fun x => ?_
  split
  · exact (a.one_keeps _).bind fun v => run (.restrict v)
  · exact a.requireNone_keeps.bind fun _ => newContext created _
  · split
    · exact .fail_bind _ _
    · exact (a.one_keeps _).bind fun v => run (.root v)
  · exact (a.two_keeps _ _).bind fun v => (assign created _ _).bind fun _ => .pure _
  · exact (a.one_keeps _).bind fun root => run (.correlate root)
  · exact a.requireNone_keeps.bind fun _ => c.scalar_keeps
  · exact a.requireNone_keeps.bind fun _ => c.existence_keeps
  · refine .guarded ((a.one_keeps _).bind fun v => (itemsOf_keeps v).bind fun items => ?_)
    refine (refuses created fun y nested => ?_).bind fun _ => .pure _
    exact ⟨.external, Context.orderBy_of_isSubquery nested items⟩
  · refine .guarded ?_
    split
    · refine (a.bind_keeps _).bind fun vs => ?_
      split
      · exact run (.join _ _ _)
      · exact .fail _
    · exact (a.one_keeps _).bind fun v => (itemsOf_keeps v).bind fun items => run (.groupBy items)
    · exact (a.one_keeps _).bind fun v => run (.having v)
    · refine (a.bind_keeps _).bind fun vs => ?_
      split
      · exact run (.distinct _)
      · exact .fail _
    · exact (a.one_keeps _).bind fun v => run (.select v)
    · exact .fail _

end Further

end Machine.Undergoes

/-! ### Statements -/

/-- The SELECT has these joins, and no other: each is a JOIN, or a root and a condition besides the
subquery's own. What is selected from, roots and joined targets, are different aliases. -/
structure Sql.Select.Represents (s : Select) (m : Machine) (own : List Term) (accepted : List Joined) :
    Prop where
  joins : s.joins = (accepted.filter (!·.correlated)).map (·.plan.decide m)
  conditions : s.conditions = own ++ (accepted.filter (·.correlated)).map Joined.condition
  roots : ((accepted.filter (·.correlated)).map (·.target.source)).Sublist s.roots
  distinct : (s.roots ++ s.joins.map (·.target.source)).Nodup

namespace Context

/-- The statement of a subquery is what it is nested as. -/
theorem statement_of_isSubquery {st : Statement} (nested : x.isSubquery = true)
    (h : x.statement m = .ok st) :
    ∃ s, st = .select s ∧ x.nested m = .ok s := by
  obtain ⟨b, parent, roots, conditions, hk⟩ := exists_of_isSubquery nested
  unfold statement at h
  rw [hk] at h
  obtain ⟨s, nests, rfl⟩ := Except.map_eq_ok.mp h
  exact ⟨s, rfl, nests⟩

/-- No statement is made of a subquery that is correlated with what is no mapped class or alias. -/
theorem statement_ne_ok {root : Value} (nested : x.isSubquery = true) (hr : root ∈ x.correlated)
    (unmapped : root.source? = none) (m : Machine) (st : Statement) : x.statement m ≠ .ok st := by
  intro h
  obtain ⟨s, rfl, -⟩ := statement_of_isSubquery nested h
  obtain ⟨b, -, gives⟩ := statement_eq_ok h
  obtain ⟨sources, mapped, -⟩ := gives.correlation
  rw [Value.mapM_mappedOrExternal_eq_ok] at mapped
  obtain ⟨o, -, rfl⟩ := List.mem_map.mp (mapped ▸ hr : root ∈ sources.map Value.mapped)
  cases unmapped

theorem Accounts.represents {es : List SubqueryEvent} {n : Nat} {st : Statement}
    (h : x.Accounts c es n) (hs : x.statement m = .ok st) :
    ∃ s own, st = .select s ∧ x.nested m = .ok s ∧ x.restriction.conditions = .ok own ∧
      s.Represents m own (joinsOf c es) := by
  obtain ⟨s, rfl, nests⟩ := statement_of_isSubquery h.nested hs
  obtain ⟨b, hb, gives⟩ := statement_eq_ok hs
  obtain ⟨own, owned, conditions⟩ := gives.conditions
  have plans : b.joins = ((joinsOf c es).filter (!·.correlated)).map Joined.plan := by
    rw [← h.plans, Context.plans, hb]
    rfl
  obtain ⟨roots, mapped, listed⟩ := gives.roots
  rw [Value.mapM_mappedOrExternal_eq_ok] at mapped
  have created : x.listing.created = (roots ++ b.joins.map (·.target)).map .mapped := by
    rw [← Listing.objects_eq_created h.nested]
    simp [Listing.objects, Context.listing, hb, mapped]
  have joins : s.joins = ((joinsOf c es).filter (!·.correlated)).map (·.plan.decide m) := by
    rw [gives.joins, plans, List.map_map]
    rfl
  refine ⟨s, own, rfl, nests, owned, joins, conditions.trans (by rw [h.conditions]), ?_, ?_⟩
  · have targets := h.roots
    simp only [Context.listing, hb, Option.elim_some, mapped] at targets
    rw [listed]
    simpa [List.filterMap_map, Function.comp_def, Value.source?] using
      (targets.filterMap Value.source?).map Mapped.source
  · -- Their numbers tell them apart.
    have numbers := h.numbered.nodup
    rw [created, List.map_map] at numbers
    have sources : s.roots ++ s.joins.map (·.target.source) =
        (roots ++ b.joins.map (·.target)).map Mapped.source := by
      rw [listed, joins, plans]
      simp [Function.comp_def, JoinPlan.decide]
    rw [sources]
    refine List.Nodup.of_map (·.alias?) ?_
    have renumbered := numbers.map (Option.map_injective fun _ _ => Alias.numbered.inj)
    rwa [List.map_map] at renumbered ⊢

end Context

/-- From the creation of a subquery on, whatever is called on it in whatever order: every join that was
accepted stands once in each of its statements, whatever becomes of the restriction, which is the one
placed last. A refused call leaves the subquery as it was; only a join from a correlated root that is no
mapped class or alias may add its target to the roots before it fails, but no statement is made then. -/
theorem subquery_keeps_its_joins {parent : Value} {es : List SubqueryEvent}
    (created : m₀.context? c = some (.subquery parent)) (h : m₀.Undergoes c es m) :
    ∃ x, m.context? c = some x ∧ x.restriction = (es.filterMap (·.placed?)).getLastD .null ∧
      (∀ j ∈ joinsOf c es, j.correlated = true → .mapped j.owner ∈ x.correlated) ∧
      (∀ st, x.statement m = .ok st → ∃ s own, st = .select s ∧ x.nested m = .ok s ∧
        x.restriction.conditions = .ok own ∧ s.Represents m own (joinsOf c es)) ∧
      ∀ e ∈ es, ∃ y, e.Happened c y ∧
        (∀ owner key outer, e.call = .join owner key outer → e.AnswersJoin c y owner key outer) ∧
        ∀ err, e.answer = .error err → e.after.context? c = some y ∨
          err = .external ∧ (∃ owner key outer, e.call = .join owner key outer ∧
            y.correlates owner = true ∧ owner.source? = none) ∧ ∀ n st, x.statement n ≠ .ok st := by
  obtain ⟨x, hx, accounts⟩ := h.accounts created
  refine ⟨x, hx, accounts.restriction, accounts.owners, fun st => accounts.represents, fun e he => ?_⟩
  obtain ⟨y, happened⟩ := h.happened created he
  refine ⟨y, happened, fun owner key outer => happened.answersJoin, fun err refused => ?_⟩
  rcases happened.refused refused with same | ⟨rfl, owner, key, outer, call, correlates, unmapped⟩
  · exact .inl same
  · refine .inr ⟨rfl, ⟨owner, key, outer, call, correlates, unmapped⟩, ?_⟩
    obtain ⟨root, hr, same⟩ := (Context.correlates_iff happened.nested owner).mp correlates
    have kept : root ∈ x.correlated := accounts.correlated e he y happened.before hr
    exact Context.statement_ne_ok accounts.nested kept (Value.source?_of_same same unmapped)

/-- A subquery correlated with products joins their reviews, and the products of a category besides; it
refuses an outer join of the reviews, and its restriction is placed anew. -/
theorem subquery_keeps_its_joins_reviews :
    let c : ContextId := ⟨0⟩
    let product : Value := .mapped ⟨.product, none⟩
    let category : Value := .mapped ⟨.category, some 2⟩
    let where_ (column : Column) : SubqueryCall := .restrict (.member ⟨⟨.product, none⟩, .column column⟩)
    let calls : List SubqueryCall := [.correlate product, .root (.mapped ⟨.category, none⟩),
      where_ .active, .join product (.text 0 "reviews") (.bool false),
      .join category (.text 0 "products") (.bool true), .join product (.text 0 "reviews") (.bool true),
      where_ .active]
    let m₀ : Machine := { Machine.start ⟨false, false, false⟩ with
      next := 2, contexts := [.subquery .null] }
    let es := (SubqueryCall.runAll c calls m₀).1
    let m := (SubqueryCall.runAll c calls m₀).2
    ∃ x s own, m.context? c = some x ∧ x.statement m = .ok (.select s) ∧
      s.Represents m own (joinsOf c es) ∧ s.conditions.length = 2 ∧
      (joinsOf c es).map (fun j => (j.correlated, j.target)) =
        [(true, ⟨.review, some 3⟩), (false, ⟨.product, some 4⟩)] := by
  intro c product category where_ calls m₀ es m
  have created : m₀.context? c = some (.subquery .null) := rfl
  obtain ⟨x, hx, -, -, states, -⟩ :=
    subquery_keeps_its_joins created (Machine.Undergoes.of_runAll c calls m₀)
  have stated : (m.context? c).any (fun x => (x.statement m).toOption.any fun st =>
      st.conditions.length == 2) = true := by decide +kernel
  have joins : (joinsOf c es).map (fun j => (j.correlated, j.target)) =
      [(true, ⟨.review, some 3⟩), (false, ⟨.product, some 4⟩)] := by decide +kernel
  obtain ⟨y, hy, stated⟩ := (Option.any_eq_true _ _).mp stated
  obtain rfl := Option.some.inj (hx.symm.trans hy)
  obtain ⟨st, made, conditions⟩ := Except.toOption_any_eq_true.mp stated
  obtain ⟨s, own, rfl, -, -, represents⟩ := states st made
  exact ⟨x, s, own, hx, made, represents, eq_of_beq conditions, joins⟩

end FluentQuery
