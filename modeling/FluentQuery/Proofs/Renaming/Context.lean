import FluentQuery.Proofs.Renaming.Footprint
import FluentQuery.Proofs.Renaming.Operand

/-! Operations on a renamed query context give the renamed outcome, and lead nowhere new. -/

namespace FluentQuery

open Sql

variable {ρ : Renaming} {F : Footprint}

/-! ### Query contexts and executable queries -/

def JoinPlan.rename (ρ : Renaming) (j : JoinPlan) : JoinPlan :=
  ⟨j.owner.rename ρ, j.relationship, j.target.rename ρ, j.outer.rename ρ⟩

def SelectBody.rename (ρ : Renaming) (b : SelectBody) : SelectBody :=
  ⟨b.roots.map (Value.rename ρ), b.joins.map (JoinPlan.rename ρ), b.groupBy.map (Value.rename ρ),
    b.having.rename ρ, b.distinct.rename ρ, b.selection.rename ρ⟩

def ContextKind.rename (ρ : Renaming) : ContextKind → ContextKind
  | common => common
  | abstract b => abstract (b.rename ρ)
  | query b orders => query (b.rename ρ) (orders.map (Value.rename ρ))
  | subquery b parent correlated conditions =>
    subquery (b.rename ρ) (parent.rename ρ) (correlated.map (Value.rename ρ))
      (conditions.map (Term.rename ρ))
  | delete target => delete (target.rename ρ)
  | update target values => update (target.rename ρ) (Value.renameEntries ρ values)

def Context.rename (ρ : Renaming) (c : Context) : Context :=
  ⟨c.restriction.rename ρ, c.kind.rename ρ⟩

def Executable.rename (ρ : Renaming) (q : Executable) : Executable :=
  ⟨q.kind, q.session.rename ρ, q.query.rename ρ, q.params.rename ρ, q.options.rename ρ,
    q.firstResult, q.maxResults⟩

structure SelectBody.Within (F : Footprint) (b : SelectBody) : Prop where
  roots : ∀ v ∈ b.roots, v.Within F
  joins : ∀ j ∈ b.joins, j.outer.Within F
  groupBy : ∀ v ∈ b.groupBy, v.Within F
  having : b.having.Within F
  distinct : b.distinct.Within F
  selection : b.selection.Within F

theorem SelectBody.Within.empty : SelectBody.empty.Within F where
  roots _ h := by cases h
  joins _ h := by cases h
  groupBy _ h := by cases h
  having := trivial
  distinct := trivial
  selection := trivial

def ContextKind.Within (F : Footprint) : ContextKind → Prop
  | common => True
  | abstract b => b.Within F
  | query b orders => b.Within F ∧ ∀ v ∈ orders, v.Within F
  | subquery b parent correlated _ => b.Within F ∧ parent.Within F ∧ ∀ v ∈ correlated, v.Within F
  | delete target => target.Within F
  | update target values => target.Within F ∧ ∀ x ∈ values, x.2.Within F

structure Context.Within (F : Footprint) (c : Context) : Prop where
  restriction : c.restriction.Within F
  kind : c.kind.Within F

theorem Context.ofKind_within {k : ContextKind} (h : k.Within F) : (Context.ofKind k).Within F :=
  ⟨trivial, h⟩

structure Executable.Within (F : Footprint) (q : Executable) : Prop where
  session : q.session.Within F
  query : q.query.Within F
  params : F.address .mappings q.params.index
  options : F.address .mappings q.options.index

theorem Executable.Within.rebound {q : Executable} (h : q.Within F) {first max : Bound} :
    Executable.Within F ⟨q.kind, q.session, q.query, q.params, q.options, first, max⟩ :=
  ⟨h.session, h.query, h.params, h.options⟩

namespace ContextKind

@[simp] theorem body?_rename (k : ContextKind) :
    (k.rename ρ).body? = k.body?.map (SelectBody.rename ρ) := by
  cases k <;> rfl

@[simp] theorem withBody_rename (k : ContextKind) (b : SelectBody) :
    (k.rename ρ).withBody (b.rename ρ) = (k.withBody b).rename ρ := by
  cases k <;> rfl

@[simp] theorem className_rename (k : ContextKind) : (k.rename ρ).className = k.className := by
  cases k <;> rfl

theorem Within.body {k : ContextKind} (h : k.Within F) {b : SelectBody} (hb : k.body? = some b) :
    b.Within F := by
  cases k <;> simp_all [body?, Within]

theorem Within.withBody {k : ContextKind} (h : k.Within F) {b : SelectBody} (hb : b.Within F) :
    (k.withBody b).Within F := by
  cases k with
  | common | delete | update => exact h
  | abstract => exact hb
  | query => exact ⟨hb, h.2⟩
  | subquery => exact ⟨hb, h.2⟩

end ContextKind

namespace Context

@[simp] theorem isSubquery_rename (c : Context) : (c.rename ρ).isSubquery = c.isSubquery := by
  obtain ⟨restriction, kind⟩ := c
  cases kind <;> rfl

@[simp] theorem isQuery_rename (c : Context) : (c.rename ρ).isQuery = c.isQuery := by
  obtain ⟨restriction, kind⟩ := c
  cases kind <;> rfl

@[simp] theorem isUpdate_rename (c : Context) : (c.rename ρ).isUpdate = c.isUpdate := by
  obtain ⟨restriction, kind⟩ := c
  cases kind <;> rfl

@[simp] theorem isComplete_rename (c : Context) : (c.rename ρ).isComplete = c.isComplete := by
  obtain ⟨restriction, kind⟩ := c
  cases kind <;> rfl

@[simp] theorem isSelecting_rename (c : Context) : (c.rename ρ).isSelecting = c.isSelecting := by
  simp [isSelecting, rename]

@[simp] theorem target?_rename (c : Context) :
    (c.rename ρ).target? = c.target?.map (Value.rename ρ) := by
  obtain ⟨restriction, kind⟩ := c
  cases kind <;> rfl

theorem target?_within {c : Context} (hc : c.Within F) {v : Value} (hv : c.target? = some v) :
    v.Within F := by
  obtain ⟨restriction, kind⟩ := c
  cases kind with
  | delete target =>
    cases hv
    exact hc.kind
  | update target values =>
    cases hv
    exact hc.kind.1
  | _ => cases hv

theorem any_same_rename (root : Value) (vs : List Value) :
    (vs.map (Value.rename ρ)).any (root.rename ρ).same = vs.any root.same := by
  simp [Function.comp_def, Value.same_rename]

@[simp] theorem correlates_rename (c : Context) (root : Value) :
    (c.rename ρ).correlates (root.rename ρ) = c.correlates root := by
  obtain ⟨restriction, kind⟩ := c
  cases kind with
  | subquery b parent correlated conditions => exact any_same_rename root correlated
  | _ => rfl

/-! ### Changes -/

/-- `g`, on the renamed context, does what `f` does, and neither leads out of the footprint. -/
structure ChangesAlike (ρ : Renaming) (F : Footprint) (f g : Context → Except Error Context) :
    Prop where
  eq : ∀ c, g (c.rename ρ) = (f c).map (Context.rename ρ)
  within : ∀ {c d}, c.Within F → f c = .ok d → d.Within F

theorem updateBody_alike {f g : SelectBody → SelectBody}
    (eq : ∀ b, g (b.rename ρ) = (f b).rename ρ) (within : ∀ {b}, b.Within F → (f b).Within F) :
    ChangesAlike ρ F (·.updateBody f) (·.updateBody g) where
  eq c := by
    simp only [updateBody, rename, ContextKind.body?_rename]
    cases c.kind.body? with
    | none => rfl
    | some b => simp [eq, Except.map, rename]
  within := by
    intro c d hc h
    unfold updateBody at h
    rcases hb : c.kind.body? with _ | b
    · simp [hb] at h
    · simp only [hb, Except.ok.injEq] at h
      exact h ▸ ⟨hc.restriction, hc.kind.withBody (within (hc.kind.body hb))⟩

theorem restrict_alike {r : Value} (hr : r.Within F) :
    ChangesAlike ρ F (·.restrict r) (·.restrict (r.rename ρ)) where
  eq c := by
    simp only [restrict, Value.isNull_rename]
    split <;> rfl
  within := by
    intro c d hc h
    simp only [restrict] at h
    split at h
    · cases h
    · cases h
      exact ⟨hr, hc.kind⟩

theorem groupBy_alike {items : List Value} (hi : ∀ v ∈ items, v.Within F) :
    ChangesAlike ρ F (·.groupBy items) (·.groupBy (items.map (Value.rename ρ))) :=
  updateBody_alike (fun _ => rfl) fun hb => { hb with groupBy := hi }

theorem distinct_alike {v : Value} (hv : v.Within F) :
    ChangesAlike ρ F (·.distinct v) (·.distinct (v.rename ρ)) :=
  updateBody_alike (fun _ => rfl) fun hb => { hb with distinct := hv }

/-- An operation that refuses null. -/
theorem guarded_alike {v : Value} {e : Error} {f g : Context → Except Error Context}
    (h : ChangesAlike ρ F f g) :
    ChangesAlike ρ F (fun c => if c.isSelecting && v.isNull then .error e else f c)
      (fun c => if c.isSelecting && (v.rename ρ).isNull then .error e else g c) where
  eq c := by
    simp only [isSelecting_rename, Value.isNull_rename]
    split
    · rfl
    · exact h.eq c
  within := by
    intro c d hc hd
    split at hd
    · cases hd
    · exact h.within hc hd

theorem having_alike {r : Value} (hr : r.Within F) :
    ChangesAlike ρ F (·.having r) (·.having (r.rename ρ)) :=
  guarded_alike (updateBody_alike (fun _ => rfl) fun hb => { hb with having := hr })

theorem select_alike {v : Value} (hv : v.Within F) :
    ChangesAlike ρ F (·.select v) (·.select (v.rename ρ)) :=
  guarded_alike (updateBody_alike (fun _ => rfl) fun hb => { hb with selection := hv })

theorem orderBy_alike {items : List Value} (hi : ∀ v ∈ items, v.Within F) :
    ChangesAlike ρ F (·.orderBy items) (·.orderBy (items.map (Value.rename ρ))) where
  eq c := by
    obtain ⟨restriction, kind⟩ := c
    cases kind <;> rfl
  within := by
    rintro ⟨restriction, kind⟩ d hc h
    cases kind with
    | query b orders =>
      cases h
      exact ⟨hc.restriction, hc.kind.1, hi⟩
    | _ => cases h

theorem correlate_alike {root : Value} (hr : root.Within F) :
    ChangesAlike ρ F (·.correlate root) (·.correlate (root.rename ρ)) where
  eq c := by
    obtain ⟨restriction, kind⟩ := c
    cases kind with
    | subquery b parent correlated conditions =>
      simp only [correlate, rename, ContextKind.rename, Value.isNull_rename, any_same_rename]
      split
      · rfl
      split
      · rfl
      · simp [Except.map, rename, ContextKind.rename]
    | _ => rfl
  within := by
    rintro ⟨restriction, kind⟩ d hc h
    cases kind with
    | subquery b parent correlated conditions =>
      obtain ⟨hb, hp, hcs⟩ := hc.kind
      simp only [correlate] at h
      split at h
      · cases h
      split at h
      · cases h
        exact hc
      · cases h
        refine ⟨hc.restriction, hb, hp, fun v hv => ?_⟩
        rcases List.mem_append.mp hv with hv | hv
        · exact hcs v hv
        · exact List.mem_singleton.mp hv ▸ hr
    | _ => cases h

end Context

theorem assoc_rename (key : String) (v : Value) (xs : List (String × Value)) :
    assoc key (v.rename ρ) (Value.renameEntries ρ xs) = Value.renameEntries ρ (assoc key v xs) := by
  induction xs with
  | nil => rfl
  | cons x xs ih =>
    simp only [Value.renameEntries, List.map_cons, assoc] at ih ⊢
    split
    · rfl
    · rw [ih]
      rfl

theorem mem_assoc {α : Type} {key : String} {v : α} {xs : List (String × α)} {x : String × α}
    (h : x ∈ assoc key v xs) : x.2 = v ∨ x ∈ xs := by
  induction xs with
  | nil => simp_all [assoc]
  | cons y xs ih =>
    unfold assoc at h
    split at h
    · rcases List.mem_cons.mp h with rfl | h
      · exact .inl rfl
      · exact .inr (List.mem_cons_of_mem _ h)
    · rcases List.mem_cons.mp h with rfl | h
      · exact .inr List.mem_cons_self
      · exact (ih h).imp_right (List.mem_cons_of_mem _)

theorem override_rename (old new : List (String × Value)) :
    override (Value.renameEntries ρ old) (Value.renameEntries ρ new) =
      Value.renameEntries ρ (override old new) := by
  induction new generalizing old with
  | nil => rfl
  | cons x new ih =>
    have := ih (assoc x.1 x.2 old)
    rw [← assoc_rename] at this
    exact this

theorem within_override {old new : List (String × Value)} (ho : ∀ x ∈ old, x.2.Within F)
    (hn : ∀ x ∈ new, x.2.Within F) : ∀ x ∈ override old new, x.2.Within F := by
  induction new generalizing old with
  | nil => exact ho
  | cons y new ih =>
    refine ih (fun x hx => ?_) fun x hx => hn x (List.mem_cons_of_mem _ hx)
    rcases mem_assoc hx with h | h
    · exact h ▸ hn y List.mem_cons_self
    · exact ho x h

namespace Context

theorem assign_alike (key : String) {v : Value} (hv : v.Within F) :
    ChangesAlike ρ F (·.assign key v) (·.assign key (v.rename ρ)) where
  eq c := by
    obtain ⟨restriction, kind⟩ := c
    cases kind with
    | update target values => simp [assign, rename, ContextKind.rename, assoc_rename, Except.map]
    | _ => rfl
  within := by
    rintro ⟨restriction, kind⟩ d hc h
    cases kind with
    | update target values =>
      cases h
      refine ⟨hc.restriction, hc.kind.1, fun x hx => ?_⟩
      rcases mem_assoc hx with h | h
      · exact h ▸ hv
      · exact hc.kind.2 x h
    | _ => cases h

/-! ### Changes that create an alias -/

/-- One more root. -/
theorem growRoots_alike {v : Value} (hv : v.Within F) :
    ChangesAlike ρ F (·.updateBody fun b => { b with roots := b.roots ++ [v] })
      (·.updateBody fun b => { b with roots := b.roots ++ [v.rename ρ] }) :=
  updateBody_alike (fun b => by simp [SelectBody.rename]) fun hb =>
    { hb with roots := List.forall_mem_append.mpr ⟨hb.roots, List.forall_mem_singleton.mpr hv⟩ }

/-- One more join. -/
theorem growJoins_alike {j : JoinPlan} (hj : j.outer.Within F) :
    ChangesAlike ρ F (·.updateBody fun b => { b with joins := b.joins ++ [j] })
      (·.updateBody fun b => { b with joins := b.joins ++ [j.rename ρ] }) :=
  updateBody_alike (fun b => by simp [SelectBody.rename]) fun hb =>
    { hb with joins := List.forall_mem_append.mpr ⟨hb.joins, List.forall_mem_singleton.mpr hj⟩ }

/-- A value and a context, renamed. -/
def renameGiven (ρ : Renaming) (x : Value × Context) : Value × Context := (x.1.rename ρ, x.2.rename ρ)

/-- Like `ChangesAlike`, for operations that also give a value. -/
structure GivesAlike (ρ : Renaming) (F : Footprint)
    (f g : Context → Except Error (Value × Context)) : Prop where
  eq : ∀ c, g (c.rename ρ) = (f c).map (renameGiven ρ)
  within : ∀ {c v d}, c.Within F → f c = .ok (v, d) → v.Within F ∧ d.Within F

/-- A change that gives a value which stays the same. -/
theorem ChangesAlike.giving {f g : Context → Except Error Context} (h : ChangesAlike ρ F f g)
    {v : Value} (hv : v.Within F) :
    GivesAlike ρ F (fun c => (f c).map (v, ·)) (fun c => (g c).map (v.rename ρ, ·)) where
  eq c := by
    simp only [h.eq]
    cases f c <;> rfl
  within := by
    intro c w d hc hd
    rcases hf : f c with e | d'
    · rw [hf] at hd
      cases hd
    · rw [hf] at hd
      cases hd
      exact ⟨hv, h.within hc hf⟩

theorem aliasOf?_rename (fresh : Nat) (v : Value) :
    aliasOf? (ρ.number fresh) (v.rename ρ) = (aliasOf? fresh v).map (Mapped.rename ρ) := by
  cases v with
  | member a => obtain ⟨owner, _ | r⟩ := a <;> rfl
  | _ => rfl

theorem addRoot_alike (fresh : Nat) {entity : Value} (he : entity.Within F) :
    GivesAlike ρ F (·.addRoot fresh entity) (·.addRoot (ρ.number fresh) (entity.rename ρ)) where
  eq c := by
    have grown {v : Value} (hv : v.Within F) := ((growRoots_alike (ρ := ρ) hv).giving hv).eq c
    have body : (c.rename ρ).kind.body? = c.kind.body?.map (SelectBody.rename ρ) :=
      c.kind.body?_rename
    unfold addRoot
    rw [body, Value.isNull_rename, aliasOf?_rename]
    cases c.kind.body? with
    | none => rfl
    | some b =>
      simp only [Option.map_some, SelectBody.rename, List.isEmpty_map, isSubquery_rename]
      split
      · rfl
      split
      · exact grown he
      cases aliasOf? fresh entity with
      | none => rfl
      | some m => exact grown (v := .mapped m) trivial
  within := by
    intro c v d hc h
    have grown {w : Value} (hw : w.Within F) (h : _ = Except.ok (v, d)) :=
      ((growRoots_alike (ρ := ρ) hw).giving hw).within hc h
    unfold addRoot at h
    split at h
    · cases h
    split at h
    · cases h
    split at h
    · exact grown he h
    split at h
    · cases h
    · exact grown (w := .mapped _) trivial h

theorem join_alike (fresh : Nat) (correlated : Bool) (owner : Mapped) (r : Relationship)
    {outer : Value} (ho : outer.Within F) (truth : Option Bool) :
    GivesAlike ρ F (·.join fresh correlated owner r outer truth)
      (·.join (ρ.number fresh) correlated (owner.rename ρ) r (outer.rename ρ) truth) := by
  cases correlated with
  | false =>
    exact (growJoins_alike (j := ⟨owner, r, ⟨r.target, some fresh⟩, outer⟩) ho).giving
      (v := .mapped ⟨r.target, some fresh⟩) trivial
  | true =>
    refine ⟨fun c => ?_, fun {c v d} hc h => ?_⟩
    · obtain ⟨restriction, kind⟩ := c
      cases kind with
      | subquery b parent roots conditions =>
        rcases truth with _ | _ | _
        · rfl
        · cases link : r.link <;>
            simp [join, rename, ContextKind.rename, SelectBody.rename, link, Except.map, renameGiven,
              ← Relationship.condition_rename] <;> exact ⟨rfl, rfl⟩
        · rfl
      | _ => rfl
    · obtain ⟨restriction, kind⟩ := c
      cases kind with
      | subquery b parent roots conditions =>
        obtain ⟨hb, hp, hr⟩ := hc.kind
        rcases truth with _ | _ | _
        · cases h
        · cases link : r.link <;> simp [join, link] at h
          all_goals
            obtain ⟨rfl, rfl⟩ := h
            refine ⟨trivial, hc.restriction, { hb with roots := ?_ }, hp, hr⟩
            exact List.forall_mem_append.mpr ⟨hb.roots, List.forall_mem_singleton.mpr trivial⟩
        · cases h
      | _ => cases h

end Context

end FluentQuery
