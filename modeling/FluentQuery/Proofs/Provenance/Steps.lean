import FluentQuery.Proofs.Provenance.Values

/-! Computations that keep to what is known: begun at some moment, they end at a later one, by which
their result and whatever the machine stores are known. -/

namespace FluentQuery

open Sql

/-! ### Data that can be known -/

/-- Data that is known by some moments, and stays known. -/
class Knowable (α : Type) where
  Known : Moment → α → Prop
  mono : ∀ {w w' : Moment}, w.Le w' → ∀ {a : α}, Known w a → Known w' a

export Knowable (Known)

/-- Data without numbers and addresses. -/
@[reducible] def Knowable.inert (α : Type) : Knowable α := ⟨fun _ _ => True, fun _ _ h => h⟩

/-- Syntax is known by the numbers in it. -/
@[reducible] def Knowable.made (α : Type) [Renamable α] : Knowable α :=
  ⟨fun w a => Made w.extent a, fun le _ h => h.mono le.extent⟩

instance : Knowable Value := ⟨Value.Known, fun le _ h => h.mono le⟩

instance : Knowable Stream := ⟨Stream.Known, fun le _ h => h.mono le⟩

instance : Knowable QueryType := ⟨QueryType.Known, fun le _ h => h.mono le⟩

instance : Knowable Frame := ⟨Frame.Known, fun le _ h => h.mono le⟩

instance : Knowable Projection := ⟨Projection.Known, fun le _ h => h.mono le⟩

instance : Knowable RefId := ⟨fun w r => r.index < w.extent.length .refs, fun le _ h => le.address h⟩

instance : Knowable ContextId :=
  ⟨fun w c => c.index < w.extent.length .contexts, fun le _ h => le.address h⟩

instance : Knowable QueryId :=
  ⟨fun w q => q.index < w.extent.length .queries, fun le _ h => le.address h⟩

instance : Knowable MappingId :=
  ⟨fun w i => i.index < w.extent.length .mappings, fun le _ h => le.address h⟩

instance : Knowable Nat := ⟨Moment.Given, fun le _ h => le.given h⟩

instance : Knowable Session := ⟨fun w s => w.Given s.id, fun le _ h => le.given h⟩

instance : Knowable Mapped := .made _

instance : Knowable Attribute := .made _

instance : Knowable Term := .made _

instance : Knowable Operand := .made _

instance : Knowable Literal := .made _

instance : Knowable Select := .made _

instance : Knowable Statement := .made _

instance : Knowable Unit := .inert _

instance : Knowable Bool := .inert _

instance : Knowable String := .inert _

instance : Knowable Char := .inert _

instance : Knowable Int := .inert _

instance : Knowable Binary64 := .inert _

instance : Knowable Datum := .inert _

instance : Knowable Bound := .inert _

instance : Knowable Relationship := .inert _

instance : Knowable Description := .inert _

instance : Knowable Answer := .inert _

instance {α : Type} [Knowable α] : Knowable (Option α) :=
  ⟨fun w x => ∀ a, x = some a → Known w a, fun le _ h a ha => Knowable.mono le (h a ha)⟩

instance {α : Type} [Knowable α] : Knowable (List α) :=
  ⟨fun w xs => ∀ a ∈ xs, Known w a, fun le _ h a ha => Knowable.mono le (h a ha)⟩

instance {α β : Type} [Knowable α] [Knowable β] : Knowable (α × β) :=
  ⟨fun w x => Known w x.1 ∧ Known w x.2,
    fun le _ h => ⟨Knowable.mono le h.1, Knowable.mono le h.2⟩⟩

/-! ### Query contexts and executable queries -/

structure SelectBody.Known (w : Moment) (b : SelectBody) : Prop where
  roots : ∀ v ∈ b.roots, v.Known w
  joins : ∀ j ∈ b.joins, Made w.extent j.owner ∧ Made w.extent j.target ∧ j.outer.Known w
  groupBy : ∀ v ∈ b.groupBy, v.Known w
  having : b.having.Known w
  distinct : b.distinct.Known w
  selection : b.selection.Known w

def ContextKind.Known (w : Moment) : ContextKind → Prop
  | common => True
  | abstract b => b.Known w
  | query b orders => b.Known w ∧ ∀ v ∈ orders, v.Known w
  | subquery b parent correlated conditions =>
    b.Known w ∧ parent.Known w ∧ (∀ v ∈ correlated, v.Known w) ∧
      ∀ t ∈ conditions, Made w.extent t
  | delete target => target.Known w
  | update target values => target.Known w ∧ ∀ x ∈ values, x.2.Known w

structure Context.Known (w : Moment) (c : Context) : Prop where
  restriction : c.restriction.Known w
  kind : c.kind.Known w

structure Executable.Known (w : Moment) (q : Executable) : Prop where
  session : q.session.Known w
  query : q.query.Known w
  params : q.params.index < w.extent.length .mappings
  options : q.options.index < w.extent.length .mappings

variable {w w' : Moment}

theorem SelectBody.Known.mono (le : w.Le w') {b : SelectBody} (h : b.Known w) : b.Known w' where
  roots v hv := (h.roots v hv).mono le
  joins j hj :=
    have ⟨owner, target, outer⟩ := h.joins j hj
    ⟨owner.mono le.extent, target.mono le.extent, outer.mono le⟩
  groupBy v hv := (h.groupBy v hv).mono le
  having := h.having.mono le
  distinct := h.distinct.mono le
  selection := h.selection.mono le

theorem ContextKind.Known.mono (le : w.Le w') {k : ContextKind} (h : k.Known w) : k.Known w' := by
  cases k with
  | common => trivial
  | abstract b => exact SelectBody.Known.mono le h
  | query b orders => exact ⟨h.1.mono le, fun v hv => (h.2 v hv).mono le⟩
  | subquery b parent correlated conditions =>
    obtain ⟨hb, hp, hr, ht⟩ := h
    exact ⟨hb.mono le, hp.mono le, fun v hv => (hr v hv).mono le, fun t h => (ht t h).mono le.extent⟩
  | delete target => exact Value.Known.mono le h
  | update target values => exact ⟨h.1.mono le, fun x hx => (h.2 x hx).mono le⟩

instance : Knowable Context :=
  ⟨Context.Known, fun le _ h => ⟨h.restriction.mono le, h.kind.mono le⟩⟩

instance : Knowable Executable :=
  ⟨Executable.Known, fun le _ h =>
    ⟨h.session.mono le, h.query.mono le, le.address h.params, le.address h.options⟩⟩

/-! ### Machines -/

/-- Whatever the machine stores is known. -/
structure Machine.StoresKnown (w : Moment) (m : Machine) : Prop where
  globals : FluentQuery.Known w m.globals
  refs : FluentQuery.Known w m.refs
  contexts : FluentQuery.Known w m.contexts
  queries : FluentQuery.Known w m.queries
  mappings : FluentQuery.Known w m.mappings
  stack : FluentQuery.Known w m.stack

theorem Machine.StoresKnown.mono (le : w.Le w') {m : Machine} (h : m.StoresKnown w) :
    m.StoresKnown w' where
  globals := Knowable.mono le h.globals
  refs := Knowable.mono le h.refs
  contexts := Knowable.mono le h.contexts
  queries := Knowable.mono le h.queries
  mappings := Knowable.mono le h.mappings
  stack := Knowable.mono le h.stack

/-- What the machine stores is known by now. Nothing it makes has the number of outside data. -/
structure Machine.Known (w : Moment) (m : Machine) : Prop extends m.StoresKnown w where
  extent : w.extent = m.extent
  positive : 0 < m.next

/-! ### Sound computations -/

/-- Begun at this moment, the computation ends at a later one, by which its result and whatever the
machine stores are known. -/
def Sound (w : Moment) {α : Type} [Knowable α] (x : Run α) : Prop :=
  ∀ m, m.Known w → ∃ w', w.Le w' ∧ (after x m).Known w' ∧ ∀ a, (exec x m).1 = .ok a → Known w' a

namespace Sound

variable {α β : Type} [Knowable α] [Knowable β]

theorem pure {a : α} (h : Known w a) : Sound w (pure a : Run α) :=
  fun _ hm => ⟨w, .refl w, hm, fun _ ha => by cases ha; exact h⟩

theorem fail (e : Error) : Sound w (fail e : Run α) :=
  fun _ hm => ⟨w, .refl w, hm, fun _ ha => by cases ha⟩

theorem throw (e : Error) : Sound w (throw e : Run α) := fail e

theorem bind {x : Run α} {f : α → Run β} (hx : Sound w x)
    (hf : ∀ w', w.Le w' → ∀ a, Known w' a → Sound w' (f a)) : Sound w (x >>= f) := by
  intro m hm
  obtain ⟨w₁, le₁, known₁, given⟩ := hx m hm
  unfold after at known₁ ⊢
  rcases h : exec x m with ⟨e | a, m₁⟩
  · rw [h] at known₁
    rw [exec_bind_of_error h]
    exact ⟨w₁, le₁, known₁, fun _ hb => by cases hb⟩
  · rw [h] at known₁
    rw [exec_bind_of_ok h]
    obtain ⟨w₂, le₂, known₂, given₂⟩ := hf w₁ le₁ a (given a (by rw [h])) m₁ known₁
    exact ⟨w₂, le₁.trans le₂, known₂, given₂⟩

/-- What follows a failure is not run. -/
theorem fail_bind (e : Error) {γ : Type} (f : γ → Run α) :
    Sound w (FluentQuery.fail e >>= f) := fail e

theorem ite {c : Prop} [Decidable c] {x y : Run α} (hx : Sound w x) (hy : Sound w y) :
    Sound w (if c then x else y) := by
  split
  · exact hx
  · exact hy

/-- A check that may refuse, before the rest. -/
theorem guarded {c : Prop} [Decidable c] {e : Error} {γ : Type} {k : γ → Run α} {x : Run α}
    (hx : Sound w x) : Sound w (if c then FluentQuery.fail e >>= k else x) :=
  .ite (fail_bind e k) hx

/-- The machine is read. -/
theorem get {f : Machine → Run α} (h : ∀ m, m.Known w → Sound w (f m)) : Sound w (get >>= f) :=
  fun m hm => h m hm m hm

/-- The number of outside data has been given away from the start. -/
theorem positive {x : Run α} (h : 0 < w.extent.next → Sound w x) : Sound w x :=
  fun m hm => h (by rw [hm.extent]; exact hm.positive) m hm

/-- What follows may come to know whatever was computed beside the machine. -/
theorem liftExcept_bind {γ : Type} (x : Except Error γ) {f : γ → Run α} (hf : ∀ a, Sound w (f a)) :
    Sound w (liftExcept x >>= f) := by
  cases x with
  | error e => exact fail e
  | ok a => exact hf a

theorem orExternal_bind {γ : Type} (x : Option γ) {f : γ → Run α} (hf : ∀ a, Sound w (f a)) :
    Sound w (orExternal x >>= f) := by
  cases x with
  | none => exact fail _
  | some a => exact hf a

theorem map {x : Run α} {f : α → β} (hx : Sound w x)
    (hf : ∀ w', w.Le w' → ∀ a, Known w' a → Known w' (f a)) : Sound w (f <$> x) := by
  rw [map_eq_pure_bind]
  exact hx.bind fun w' le a ha => pure (hf w' le a ha)

theorem discard {x : Run α} (hx : Sound w x) : Sound w (discard x) :=
  hx.map fun _ _ _ _ => trivial

theorem tryCatch {x : Run α} {handle : Error → Run α} (hx : Sound w x)
    (hh : ∀ w', w.Le w' → ∀ e, Sound w' (handle e)) : Sound w (tryCatch x handle) := by
  intro m hm
  obtain ⟨w₁, le₁, known₁, given⟩ := hx m hm
  unfold after at known₁ ⊢
  rw [exec_tryCatch]
  rcases h : exec x m with ⟨e | a, m₁⟩ <;> rw [h] at known₁ given
  · obtain ⟨w₂, le₂, known₂, given₂⟩ := hh w₁ le₁ e m₁ known₁
    exact ⟨w₂, le₁.trans le₂, known₂, given₂⟩
  · exact ⟨w₁, le₁, known₁, given⟩

theorem mapM {f : α → Run β} {xs : List α} (hxs : Known w xs)
    (hf : ∀ w', w.Le w' → ∀ a, Known w' a → Sound w' (f a)) : Sound w (xs.mapM f) := by
  induction xs generalizing w with
  | nil => exact pure fun _ h => by cases h
  | cons x xs ih =>
    rw [List.mapM_cons]
    refine (hf w (.refl w) x (hxs x List.mem_cons_self)).bind fun w₁ le₁ b hb => ?_
    have rest : Known w₁ xs := fun a ha => Knowable.mono le₁ (hxs a (List.mem_cons_of_mem _ ha))
    refine (ih rest fun w' le => hf w' (le₁.trans le)).bind fun w₂ le₂ bs hbs => pure ?_
    exact List.forall_mem_cons.mpr ⟨Knowable.mono le₂ hb, hbs⟩

theorem forM {f : α → Run PUnit} {xs : List α} (hxs : Known w xs)
    (hf : ∀ w', w.Le w' → ∀ a, Known w' a → Sound w' (f a)) : Sound w (xs.forM f) := by
  induction xs generalizing w with
  | nil => exact pure trivial
  | cons x xs ih =>
    refine (hf w (.refl w) x (hxs x List.mem_cons_self)).bind fun w₁ le₁ _ _ => ?_
    refine ih (fun a ha => Knowable.mono le₁ (hxs a (List.mem_cons_of_mem _ ha))) ?_
    exact fun w' le => hf w' (le₁.trans le)

end Sound

variable {α : Type} [Knowable α]

theorem ensuring_sound {body : Run α} {cleanup : Run Unit} (hb : Sound w body)
    (hc : ∀ w', w.Le w' → Sound w' cleanup) : Sound w (ensuring body cleanup) := by
  unfold ensuring
  refine (hb.tryCatch fun w' le e => (hc w' le).bind fun _ _ _ _ => .throw e).bind ?_
  intro w₁ le₁ a ha
  exact (hc w₁ le₁).bind fun w₂ le₂ _ _ => .pure (Knowable.mono le₂ ha)

theorem onStack_sound {stack : List Frame} (hs : Known w stack) {body : Run α}
    (hb : Sound w body) : Sound w (onStack stack body) := by
  intro m hm
  obtain ⟨w', le, known, given⟩ := hb { m with stack } { hm with stack := hs }
  unfold after at known ⊢
  rw [exec_onStack]
  exact ⟨w', le, { known with stack := Knowable.mono le hm.stack }, given⟩

theorem liftExcept_sound {x : Except Error α} (h : ∀ a, x = .ok a → Known w a) :
    Sound w (liftExcept x) := by
  cases x with
  | error e => exact .fail e
  | ok a => exact .pure (h a rfl)

theorem orExternal_sound {x : Option α} (h : Known w x) : Sound w (orExternal x) := by
  cases x with
  | none => exact .fail _
  | some a => exact .pure (h a rfl)

/-! ### Steps of the machine -/

/-- The same moment on a machine that has given more away. -/
def Moment.onwards (w : Moment) (m : Machine) : Moment := ⟨m.extent, w.stream?⟩

theorem Machine.Known.onwards {m m' : Machine} (h : m.Known w) (le : m.extent.Le m'.extent) :
    w.Le (w.onwards m') :=
  ⟨h.extent ▸ le, fun _ _ => rfl⟩

theorem known_nil {α : Type} [Knowable α] : Known w ([] : List α) := fun _ h => by cases h

theorem known_append {xs : List α} {x : α} (hxs : Known w xs) (hx : Known w x) :
    Known w (xs ++ [x]) :=
  List.forall_mem_append.mpr ⟨hxs, List.forall_mem_singleton.mpr hx⟩

theorem known_set {xs : List α} (hxs : Known w xs) (i : Nat) {x : α} (hx : Known w x) :
    Known w (xs.set i x) := by
  intro a ha
  rcases List.mem_or_eq_of_mem_set ha with ha | rfl
  · exact hxs a ha
  · exact hx

/-- A change that gives nothing away. -/
theorem modify_sound {f : Machine → Machine} (next : ∀ m, (f m).next = m.next)
    (extent : ∀ m, (f m).extent = m.extent)
    (h : ∀ m, m.Known w → (f m).StoresKnown w) : Sound w (modify f) := by
  intro m hm
  refine ⟨w, .refl w, ?_, fun _ _ => trivial⟩
  exact { h m hm with
    extent := hm.extent.trans (extent m).symm
    positive := (next m).symm ▸ hm.positive }

theorem fresh_sound : Sound w fresh := by
  intro m hm
  have le : m.extent.Le { m with next := m.next + 1 }.extent :=
    ⟨Nat.le_succ _, fun _ => Nat.le_refl _⟩
  refine ⟨_, hm.onwards le, ?_, fun n hn => ?_⟩
  · exact { hm.toStoresKnown.mono (hm.onwards le) with extent := rfl, positive := Nat.succ_pos _ }
  · cases hn
    exact Nat.lt_succ_self _

/-- One address more of this kind. -/
theorem Extent.Le.of_length {m m' : Machine} (next : m'.next = m.next)
    (refs : m.refs.length ≤ m'.refs.length) (contexts : m.contexts.length ≤ m'.contexts.length)
    (queries : m.queries.length ≤ m'.queries.length)
    (mappings : m.mappings.length ≤ m'.mappings.length) : m.extent.Le m'.extent where
  next := Nat.le_of_eq next.symm
  length
    | .refs => refs
    | .contexts => contexts
    | .queries => queries
    | .mappings => mappings

namespace RefId

theorem new_sound : Sound w RefId.new := by
  intro m hm
  let m' : Machine := { m with refs := m.refs ++ [none], writes := m.writes ++ [[]] }
  have le : m.extent.Le m'.extent :=
    .of_length rfl (by simp [m']) (Nat.le_refl _) (Nat.le_refl _) (Nat.le_refl _)
  have later := hm.toStoresKnown.mono (hm.onwards le)
  refine ⟨_, hm.onwards le, ?_, fun r hr => ?_⟩
  · exact { later with
      refs := known_append later.refs fun _ h => by cases h
      extent := rfl
      positive := hm.positive }
  · cases hr
    show m.refs.length < (m.refs ++ [none]).length
    simp

theorem write_sound (r : RefId) {v? : Option Value} (hv : Known w v?) :
    Sound w (modify (·.write r v?)) := by
  refine modify_sound (fun _ => rfl) (fun m => ?_) fun m hm => ?_
  · ext space
    · rfl
    · cases space <;> simp [Machine.extent, Machine.write]
  · exact { hm.toStoresKnown with refs := known_set hm.refs _ hv }

theorem isBound_sound (r : RefId) : Sound w r.isBound := .get fun _ _ => .pure trivial

theorem read_sound (r : RefId) : Sound w r.read := by
  refine .get fun m hm => ?_
  cases h : m.ref? r with
  | none => exact .fail _
  | some v => exact .pure (hm.refs _ (List.mem_of_getElem? (Option.join_eq_some_iff.mp h)) v rfl)

theorem bind_sound (r : RefId) {v : Value} (hv : v.Known w) : Sound w (r.bind v) := by
  refine r.isBound_sound.bind fun w' le _ _ => .guarded (r.write_sound fun _ h => ?_)
  cases h
  exact hv.mono le

theorem unbind_sound (r : RefId) : Sound w r.unbind := r.write_sound fun _ h => by cases h

end RefId

namespace ContextId

theorem new_sound {x : Context} (hx : x.Known w) : Sound w (ContextId.new x) := by
  intro m hm
  let m' : Machine := { m with contexts := m.contexts ++ [x] }
  have le : m.extent.Le m'.extent :=
    .of_length rfl (Nat.le_refl _) (by simp [m']) (Nat.le_refl _) (Nat.le_refl _)
  have later := hm.toStoresKnown.mono (hm.onwards le)
  refine ⟨_, hm.onwards le, ?_, fun r hr => ?_⟩
  · exact { later with
      contexts := known_append later.contexts (Knowable.mono (hm.onwards le) hx)
      extent := rfl
      positive := hm.positive }
  · cases hr
    show m.contexts.length < (m.contexts ++ [x]).length
    simp

theorem read_sound (c : ContextId) : Sound w c.read :=
  .get fun _ hm => orExternal_sound fun _ h => hm.contexts _ (List.mem_of_getElem? h)

theorem write_sound (c : ContextId) {x : Context} (hx : x.Known w) : Sound w (c.write x) := by
  refine modify_sound (fun _ => rfl) (fun m => ?_) fun m hm => ?_
  · ext space
    · rfl
    · cases space <;> simp [Machine.extent]
  · exact { hm.toStoresKnown with contexts := known_set hm.contexts _ hx }

theorem update_sound (c : ContextId) {f : Context → Except Error Context}
    (hf : ∀ w', w.Le w' → ∀ {x y}, x.Known w' → f x = .ok y → y.Known w') : Sound w (c.update f) := by
  refine c.read_sound.bind fun w₁ le₁ x hx => ?_
  refine (liftExcept_sound fun y hy => hf w₁ le₁ hx hy).bind fun w₂ _ y hy => ?_
  exact c.write_sound hy

theorem updateGet_sound (c : ContextId) {f : Context → Except Error (Value × Context)}
    (hf : ∀ w', w.Le w' → ∀ {x v y}, x.Known w' → f x = .ok (v, y) → v.Known w' ∧ y.Known w') :
    Sound w (c.updateGet f) := by
  refine c.read_sound.bind fun w₁ le₁ x hx => ?_
  refine (liftExcept_sound fun y hy => hf w₁ le₁ hx hy).bind fun w₂ _ (v, y) hy => ?_
  exact (c.write_sound hy.2).bind fun w₃ le₃ _ _ => .pure (Knowable.mono le₃ hy.1)

end ContextId

namespace MappingId

theorem new_sound {fields : List (String × Value)} (hf : Known w fields) :
    Sound w (MappingId.new fields) := by
  intro m hm
  let m' : Machine := { m with mappings := m.mappings ++ [fields] }
  have le : m.extent.Le m'.extent :=
    .of_length rfl (Nat.le_refl _) (Nat.le_refl _) (Nat.le_refl _) (by simp [m'])
  have later := hm.toStoresKnown.mono (hm.onwards le)
  refine ⟨_, hm.onwards le, ?_, fun r hr => ?_⟩
  · exact { later with
      mappings := known_append later.mappings (Knowable.mono (hm.onwards le) hf)
      extent := rfl
      positive := hm.positive }
  · cases hr
    show m.mappings.length < (m.mappings ++ [fields]).length
    simp

theorem mapping_known {m : Machine} (hm : m.StoresKnown w) (i : MappingId) :
    Known w (m.mapping i) := by
  unfold Machine.mapping
  cases h : m.mappings[i.index]? with
  | none => exact fun _ h => by cases h
  | some fields => exact hm.mappings _ (List.mem_of_getElem? h)

theorem read_sound (i : MappingId) : Sound w i.read :=
  .get fun _ hm => .pure (i.mapping_known hm.toStoresKnown)

end MappingId

theorem known_assoc {key : String} {v : Value} (hv : v.Known w) {xs : List (String × Value)}
    (hxs : Known w xs) : Known w (assoc key v xs) := by
  intro x hx
  refine ⟨trivial, ?_⟩
  rcases mem_assoc hx with h | h
  · exact h ▸ hv
  · exact (hxs x h).2

theorem known_override {old new : List (String × Value)} (ho : Known w old) (hn : Known w new) :
    Known w (override old new) := by
  induction new generalizing old with
  | nil => exact ho
  | cons y new ih =>
    refine ih (known_assoc (hn y List.mem_cons_self).2 ho) fun x hx => ?_
    exact hn x (List.mem_cons_of_mem _ hx)

theorem MappingId.update_sound (i : MappingId) {fields : List (String × Value)}
    (hf : Known w fields) : Sound w (i.update fields) := by
  refine modify_sound (fun _ => rfl) (fun m => ?_) fun m hm => ?_
  · ext space
    · rfl
    · cases space <;> simp [Machine.extent]
  · exact { hm.toStoresKnown with
      mappings := known_set hm.mappings _ (known_override (i.mapping_known hm.toStoresKnown) hf) }

namespace QueryId

theorem new_sound {x : Executable} (hx : x.Known w) : Sound w (QueryId.new x) := by
  intro m hm
  let m' : Machine := { m with queries := m.queries ++ [x] }
  have le : m.extent.Le m'.extent :=
    .of_length rfl (Nat.le_refl _) (Nat.le_refl _) (by simp [m']) (Nat.le_refl _)
  have later := hm.toStoresKnown.mono (hm.onwards le)
  refine ⟨_, hm.onwards le, ?_, fun r hr => ?_⟩
  · exact { later with
      queries := known_append later.queries (Knowable.mono (hm.onwards le) hx)
      extent := rfl
      positive := hm.positive }
  · cases hr
    show m.queries.length < (m.queries ++ [x]).length
    simp

theorem read_sound (q : QueryId) : Sound w q.read :=
  .get fun _ hm => orExternal_sound fun _ h => hm.queries _ (List.mem_of_getElem? h)

theorem write_sound (q : QueryId) {x : Executable} (hx : x.Known w) : Sound w (q.write x) := by
  refine modify_sound (fun _ => rfl) (fun m => ?_) fun m hm => ?_
  · ext space
    · rfl
    · cases space <;> simp [Machine.extent]
  · exact { hm.toStoresKnown with queries := known_set hm.queries _ hx }

end QueryId

/-! ### Trace, log and variables -/

theorem note_sound (d : Description) : Sound w (note d) :=
  modify_sound (fun _ => rfl) (fun _ => rfl) fun _ hm => { hm.toStoresKnown with }

theorem logLine_sound {text : Run String} (h : Sound w text) : Sound w (logLine text) := by
  refine .get fun m _ => .ite ?_ (.pure trivial)
  refine h.bind fun _ _ line _ => modify_sound (fun _ => rfl) (fun _ => rfl) fun _ hm => ?_
  exact { hm.toStoresKnown with }

theorem setGlobal_sound (name : String) {v : Value} (hv : v.Known w) : Sound w (setGlobal name v) :=
  modify_sound (fun _ => rfl) (fun _ => rfl) fun _ hm =>
    { hm.toStoresKnown with globals := known_assoc hv hm.globals }

theorem carried_made {v : Value} (h : v.Known w) : Made w.extent v.carried :=
  .map (f := Value.carried) (fun _ v => v.carried_rename) h.made

theorem handle_sound {v : Value} (hv : v.Known w) : Sound w (handle v) :=
  fun _ hm => ⟨w, .refl w, { hm with }, fun _ h => by cases h; exact carried_made hv⟩

theorem register_sound {v : Value} (hv : v.Known w) : Sound w (register v) :=
  .ite (handle_sound hv).discard (.pure trivial)

theorem currentFrame_sound : Sound w currentFrame := by
  refine .get fun m hm => ?_
  have held := hm.stack
  generalize m.stack = fs at held
  cases fs with
  | nil => exact .fail _
  | cons f fs => exact .pure (held f List.mem_cons_self)

/-! ### New values -/

theorem newTerm_sound {t : Term} (ht : Known w t) : Sound w (newTerm t) :=
  fresh_sound.bind fun _ le _ hn => .pure ⟨hn, Knowable.mono le ht⟩

theorem newInt_sound (n : Int) : Sound w (newInt n) := fresh_sound.bind fun _ _ _ hn => .pure hn

theorem newFloat_sound (x : Binary64) : Sound w (newFloat x) :=
  fresh_sound.bind fun _ _ _ hn => .pure hn

theorem newText_sound (s : String) : Sound w (newText s) := fresh_sound.bind fun _ _ _ hn => .pure hn

theorem newList_sound {items : List Value} (hi : Known w items) : Sound w (newList items) :=
  fresh_sound.bind fun _ le _ hn => .pure ⟨hn, Value.allKnown_iff.mpr (Knowable.mono le hi)⟩

theorem newTuple_sound {items : List Value} (hi : Known w items) : Sound w (newTuple items) :=
  fresh_sound.bind fun _ le _ hn => .pure ⟨hn, Value.allKnown_iff.mpr (Knowable.mono le hi)⟩

theorem newMapping_sound {fields : List (String × Value)} (hf : Known w fields) :
    Sound w (newMapping fields) :=
  (MappingId.new_sound hf).bind fun _ _ _ hi => .pure hi

/-- What a stream is made of, but for its number. -/
structure Stream.PartsKnown (w : Moment) (s : Stream) : Prop where
  session : s.session.Known w
  queryType : s.queryType.Known w
  configurer : s.configurer.Known w
  params : FluentQuery.Known w s.params
  options : FluentQuery.Known w s.options

theorem Stream.Known.given {s : Stream} (h : s.Known w) : w.Given s.id := by
  cases s; exact h.1.1

theorem Stream.Known.stream? {s : Stream} (h : s.Known w) : w.stream? s.id = some s := by
  cases s; exact h.1.2

theorem Stream.Known.parts {s : Stream} (h : s.Known w) : s.PartsKnown w := by
  cases s
  obtain ⟨-, session, type, configurer, params, options⟩ := h
  exact ⟨session, type, configurer, fun x hx => ⟨trivial, Value.fieldsKnown_iff.mp params x hx⟩,
    fun x hx => ⟨trivial, Value.fieldsKnown_iff.mp options x hx⟩⟩

theorem Stream.PartsKnown.mono (le : w.Le w') {s : Stream} (h : s.PartsKnown w) :
    s.PartsKnown w' where
  session := h.session.mono le
  queryType := h.queryType.mono le
  configurer := h.configurer.mono le
  params := Knowable.mono le h.params
  options := Knowable.mono le h.options

/-- The moment after this stream was made. -/
def Moment.stream (w : Moment) (s : Stream) : Moment :=
  ⟨{ w.extent with next := w.extent.next + 1 }, Function.update w.stream? w.extent.next s⟩

/-- A new stream is known from then on as the one made with its number. -/
theorem freshStream_sound {f : Nat → Stream} (id : ∀ n, (f n).id = n)
    (parts : ∀ n, (f n).PartsKnown w) : Sound w (do return f (← fresh)) := by
  intro m hm
  let s := f m.next
  have number : w.extent.next = m.next := congrArg Extent.next hm.extent
  have le : w.Le (w.stream s) := by
    refine ⟨⟨Nat.le_succ _, fun _ => Nat.le_refl _⟩, fun n hn => ?_⟩
    exact Function.update_of_ne (Nat.ne_of_lt hn) _ _
  refine ⟨w.stream s, le, ?_, fun t ht => ?_⟩
  · exact { hm.toStoresKnown.mono le with
      extent := by
        unfold Moment.stream
        rw [hm.extent]
        rfl
      positive := Nat.succ_pos _ }
  · obtain rfl : s = t := by cases ht; rfl
    have made : (w.stream s).stream? s.id = some s := by
      rw [id m.next, ← number]
      exact Function.update_self _ _ _
    have given : (w.stream s).Given s.id := by
      rw [id m.next, ← number]
      exact Nat.lt_succ_self _
    have later := (parts m.next).mono le
    change s.PartsKnown _ at later
    revert made given later
    generalize s = s
    intro made given later
    cases s
    exact ⟨⟨given, made⟩, later.session, later.queryType, later.configurer,
      Value.fieldsKnown_iff.mpr fun x hx => (later.params x hx).2,
      Value.fieldsKnown_iff.mpr fun x hx => (later.options x hx).2⟩

end FluentQuery
