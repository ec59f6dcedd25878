import FluentQuery.Proofs.Renaming.Machine

/-! Computations that mirror one another: on machines that are alike they fail alike or give
counterparts, and leave machines that are alike. -/

namespace FluentQuery

open Sql

variable {ρ : Renaming} {F : Footprint}

/-- On machines that `R` relates, `y` fails as `x` does or gives the counterpart, and `R` relates the
machines they leave. -/
def MirrorOn (R : Machine → Machine → Prop) (ρ : Renaming) (F : Footprint) {α : Type} [Renamable α]
    (x y : Run α) : Prop :=
  ∀ ⦃m m'⦄, R m m' → Counterpart ρ F (exec x m).1 (exec y m').1 ∧ R (after x m) (after y m')

/-- `y` does on the renamed machine what `x` does, up to the renaming. Unless `framed`, neither
looks at the frames of the stack it starts on. -/
abbrev MirrorAt (framed : Bool) (ρ : Renaming) (F : Footprint) {α : Type} [Renamable α]
    (x y : Run α) : Prop :=
  MirrorOn (Alike framed ρ F) ρ F x y

/-- `y` does on the renamed machine what `x` does, up to the renaming. -/
abbrev Mirror (ρ : Renaming) (F : Footprint) {α : Type} [Renamable α] (x y : Run α) : Prop :=
  MirrorAt true ρ F x y

namespace MirrorOn

variable {R : Machine → Machine → Prop} {α β : Type} [Renamable α] [Renamable β]

/-! ### Composition -/

theorem pure {a : α} (h : Within F a) : MirrorOn R ρ F (pure a) (pure (rename ρ a)) :=
  fun _ _ hm => ⟨⟨rfl, fun b hb => by cases hb; exact h⟩, hm⟩

theorem pure_of {a b : α} (h : Within F a) (eq : b = rename ρ a) :
    MirrorOn R ρ F (Pure.pure a) (Pure.pure b) := by
  subst eq
  exact .pure h

theorem fail (e : Error) : MirrorOn (α := α) R ρ F (fail e) (fail e) :=
  fun _ _ hm => ⟨⟨rfl, fun _ hb => by cases hb⟩, hm⟩

theorem throw (e : Error) : MirrorOn (α := α) R ρ F (throw e) (throw e) := fail e

theorem bind {x y : Run α} {f g : α → Run β} (hx : MirrorOn R ρ F x y)
    (hf : ∀ a, Within F a → MirrorOn R ρ F (f a) (g (rename ρ a))) :
    MirrorOn R ρ F (x >>= f) (y >>= g) := by
  intro m m' hm
  obtain ⟨⟨eq, within⟩, alike⟩ := hx hm
  unfold after at alike ⊢
  rcases hy : exec y m' with ⟨r', n'⟩
  rcases hx : exec x m with ⟨e | a, n⟩
  · rw [hx, hy] at eq alike
    obtain rfl : r' = .error e := eq
    rw [exec_bind_of_error hx, exec_bind_of_error hy]
    exact ⟨⟨rfl, fun _ hb => by cases hb⟩, alike⟩
  · rw [hx, hy] at eq alike
    rw [hx] at within
    obtain rfl : r' = .ok (rename ρ a) := eq
    rw [exec_bind_of_ok hx, exec_bind_of_ok hy]
    exact hf a (within a rfl) alike

/-- What follows a failure is not run. -/
theorem fail_bind (e : Error) {γ δ : Type} (k : γ → Run α) (l : δ → Run α) :
    MirrorOn R ρ F (FluentQuery.fail e >>= k) (FluentQuery.fail e >>= l) := fail e

theorem ite {c d : Prop} [Decidable c] [Decidable d] {x x' y y' : Run α} (hc : c ↔ d)
    (h : MirrorOn R ρ F x y) (h' : MirrorOn R ρ F x' y') :
    MirrorOn R ρ F (if c then x else x') (if d then y else y') := by
  by_cases hd : d
  · rwa [if_pos hd, if_pos (hc.mpr hd)]
  · rwa [if_neg hd, if_neg (mt hc.mp hd)]

/-- A check that may refuse, before the rest. -/
theorem guarded {c d : Prop} [Decidable c] [Decidable d] {e : Error} {γ δ : Type}
    {k : γ → Run α} {l : δ → Run α} {x y : Run α} (hc : c ↔ d) (h : MirrorOn R ρ F x y) :
    MirrorOn R ρ F (if c then FluentQuery.fail e >>= k else x)
      (if d then FluentQuery.fail e >>= l else y) :=
  .ite hc (fail_bind e k l) h

theorem map {x y : Run α} {f g : α → β} (hx : MirrorOn R ρ F x y)
    (hf : ∀ a, Within F a → Counterpart ρ F (f a) (g (rename ρ a))) :
    MirrorOn R ρ F (f <$> x) (g <$> y) := by
  rw [map_eq_pure_bind, map_eq_pure_bind]
  exact hx.bind fun a ha => .pure_of (hf a ha).within (hf a ha).eq

theorem discard {x y : Run α} (hx : MirrorOn R ρ F x y) :
    MirrorOn R ρ F (discard x) (discard y) :=
  hx.map fun _ _ => ⟨rfl, trivial⟩

theorem tryCatch {x y : Run α} {k l : Error → Run α} (hx : MirrorOn R ρ F x y)
    (hk : ∀ e, MirrorOn R ρ F (k e) (l e)) : MirrorOn R ρ F (tryCatch x k) (tryCatch y l) := by
  intro m m' hm
  obtain ⟨⟨eq, within⟩, alike⟩ := hx hm
  unfold after at alike ⊢
  rw [exec_tryCatch, exec_tryCatch]
  rcases hy : exec y m' with ⟨r', n'⟩
  rcases hx : exec x m with ⟨e | a, n⟩ <;> rw [hx, hy] at eq alike
  · obtain rfl : r' = .error e := eq
    exact hk e alike
  · obtain rfl : r' = .ok (rename ρ a) := eq
    exact ⟨⟨rfl, fun b hb => by cases hb; exact within _ (by rw [hx])⟩, alike⟩

theorem mapM {γ : Type} [Renamable γ] {f g : γ → Run α} {xs : List γ} (hxs : Within F xs)
    (h : ∀ a, Within F a → MirrorOn R ρ F (f a) (g (rename ρ a))) :
    MirrorOn R ρ F (xs.mapM f) ((rename ρ xs).mapM g) := by
  induction xs with
  | nil => exact .pure fun _ h => by cases h
  | cons x xs ih =>
    have rest := ih fun a ha => hxs a (List.mem_cons_of_mem _ ha)
    rw [show rename ρ (x :: xs) = rename ρ x :: rename ρ xs from rfl, List.mapM_cons, List.mapM_cons]
    refine (h x (hxs x List.mem_cons_self)).bind fun a ha => rest.bind fun as has => ?_
    exact .pure_of (List.forall_mem_cons.mpr ⟨ha, has⟩) rfl

/-- Over the same items, which carry no numbers. -/
theorem mapM_same {γ : Type} {f g : γ → Run α} (h : ∀ a, MirrorOn R ρ F (f a) (g a))
    (xs : List γ) : MirrorOn R ρ F (xs.mapM f) (xs.mapM g) := by
  induction xs with
  | nil => exact .pure_of (fun _ h => by cases h) rfl
  | cons x xs ih =>
    rw [List.mapM_cons, List.mapM_cons]
    refine (h x).bind fun a ha => ih.bind fun as has => ?_
    exact .pure_of (List.forall_mem_cons.mpr ⟨ha, has⟩) rfl

theorem forM {γ : Type} [Renamable γ] {f g : γ → Run PUnit} {x : List γ} (hx : Within F x)
    (h : ∀ a, Within F a → MirrorOn R ρ F (f a) (g (rename ρ a))) :
    MirrorOn R ρ F (x.forM f) ((rename ρ x).forM g) := by
  induction x with
  | nil => exact .pure trivial
  | cons x xs ih =>
    have rest := ih fun a ha => hx a (List.mem_cons_of_mem _ ha)
    exact (h x (hx x List.mem_cons_self)).bind fun _ _ => rest

/-! ### On machines that are alike -/

variable {framed : Bool}

/-- The machine is read. -/
theorem get {f g : Machine → Run α} (h : ∀ {m m'}, Alike framed ρ F m m' → MirrorAt framed ρ F (f m) (g m')) :
    MirrorAt framed ρ F (get >>= f) (get >>= g) :=
  fun _ _ hm => h hm hm

/-- Something is read off the machine. -/
theorem reads {f g : Machine → α} (h : ∀ {m m'}, Alike framed ρ F m m' → Counterpart ρ F (f m) (g m')) :
    MirrorAt framed ρ F (do return f (← MonadState.get)) (do return g (← MonadState.get)) :=
  get fun hm => .pure_of (h hm).within (h hm).eq

/-- The next number is taken; the one after it corresponds as well. -/
theorem freshNext {f g : Nat → Run α}
    (h : ∀ n, ρ.number (n + 1) = ρ.number n + 1 → MirrorAt framed ρ F (f n) (g (ρ.number n))) :
    MirrorAt framed ρ F (fresh >>= f) (fresh >>= g) := by
  intro m m' hm
  have number : ρ.number m.next = m'.next := hm.next 0
  have after : ρ.number (m.next + 1) = ρ.number m.next + 1 := number ▸ hm.next 1
  have alike : Alike framed ρ F { m with next := m.next + 1 } { m' with next := m'.next + 1 } :=
    { hm with next := fun k => by simpa only [Nat.add_assoc] using hm.next (1 + k) }
  have := h m.next after alike
  rw [number] at this
  exact this

theorem fresh {f g : Nat → Run α} (h : ∀ n, MirrorAt framed ρ F (f n) (g (ρ.number n))) :
    MirrorAt framed ρ F (fresh >>= f) (fresh >>= g) :=
  freshNext fun n _ => h n

end MirrorOn

variable {framed : Bool}

variable {α : Type} [Renamable α]

theorem liftExcept_mirror {x y : Except Error α} (h : Counterpart ρ F x y) :
    MirrorAt framed ρ F (liftExcept x) (liftExcept y) := by
  obtain ⟨rfl, within⟩ := h
  cases x with
  | error e => exact .fail e
  | ok a => exact .pure (within a rfl)

theorem orExternal_mirror {x y : Option α} (h : Counterpart ρ F x y) :
    MirrorAt framed ρ F (orExternal x) (orExternal y) := by
  obtain ⟨rfl, within⟩ := h
  cases x with
  | none => exact .fail _
  | some a => exact .pure (within a rfl)

theorem ensuring_mirror {x y : Run α} {c d : Run Unit} (hx : MirrorAt framed ρ F x y) (hc : MirrorAt framed ρ F c d) :
    MirrorAt framed ρ F (ensuring x c) (ensuring y d) := by
  unfold ensuring
  refine .bind (.tryCatch hx fun e => hc.bind fun _ _ => .throw e) fun a ha => ?_
  exact hc.bind fun _ _ => .pure ha

/-- What happens on other stacks leaves the present ones as they are. -/
theorem onStack_mirror {x y : Run α} {stack stack' : List Frame}
    (hs : StackAlike true ρ F stack stack')
    (hx : Mirror ρ F x y) : MirrorAt framed ρ F (onStack stack x) (onStack stack' y) := by
  intro m m' hm
  have inner : Alike true ρ F { m with stack } { m' with stack := stack' } :=
    { hm with stack := hs }
  obtain ⟨given, left⟩ := hx inner
  unfold after at left ⊢
  rw [exec_onStack, exec_onStack]
  exact ⟨given, { left with stack := hm.stack }⟩

/-! ### Steps of the machine -/

/-- Changes that touch neither stores nor stack. -/
theorem modify_mirror {s t : Machine → Machine}
    (h : ∀ {m m'}, Alike framed ρ F m m' → Alike framed ρ F (s m) (t m')) :
    MirrorAt framed ρ F (modify s) (modify t) :=
  fun _ _ hm => ⟨⟨rfl, fun _ _ => trivial⟩, h hm⟩

theorem note_mirror (d d' : Description) : MirrorAt framed ρ F (note d) (note d') :=
  modify_mirror fun hm => { hm with }

theorem logLine_mirror {x y : Run String} (h : MirrorAt framed ρ F x y) :
    MirrorAt framed ρ F (logLine x) (logLine y) := by
  refine .get fun {m m'} hm => .ite (by rw [hm.settings]) ?_ (.pure trivial)
  exact h.bind fun _ _ => modify_mirror fun hm => { hm with }

theorem handle_mirror (v : Value) : MirrorAt framed ρ F (handle v) (handle (v.rename ρ)) :=
  fun _ _ hm => ⟨⟨by simp [handle]; rfl, fun _ _ => trivial⟩, { hm with }⟩

theorem register_mirror (v : Value) : MirrorAt framed ρ F (register v) (register (v.rename ρ)) := by
  unfold register
  refine .ite (by rw [Value.identity?_rename, Option.isSome_map]) (handle_mirror v).discard ?_
  exact .pure trivial

theorem setGlobal_mirror (name : String) {v : Value} (hv : v.Within F) :
    MirrorAt framed ρ F (setGlobal name v) (setGlobal name (v.rename ρ)) := by
  refine modify_mirror fun hm => { hm with globals := fun {x} hx => ?_ }
  rw [lookup_assoc, lookup_assoc]
  split
  · exact ⟨rfl, fun w hw => by cases hw; exact hv⟩
  · exact hm.globals hx

namespace RefId

theorem new_mirror : MirrorAt framed ρ F RefId.new RefId.new := by
  refine fun m m' hm => ⟨⟨?_, fun r hr => ?_⟩, ?_⟩
  · exact congrArg (fun i => Except.ok (RefId.mk i)) (hm.refs.next 0).symm
  · cases hr
    exact hm.refs.ahead 0
  · exact { hm with refs := hm.refs.append fun _ h => by cases h }

variable {r : RefId} (hr : F.address .refs r.index)

include hr

theorem isBound_mirror : MirrorAt framed ρ F r.isBound (r.rename ρ).isBound := by
  refine .reads fun hm => ⟨?_, trivial⟩
  rw [(hm.ref? hr).eq]
  exact Option.isSome_map

theorem read_mirror : MirrorAt framed ρ F r.read (r.rename ρ).read := by
  refine .get fun {m m'} hm => ?_
  obtain ⟨eq, within⟩ := hm.ref? hr
  rw [eq]
  cases h : m.ref? r with
  | none => exact .fail _
  | some v => exact .pure (within v h)

omit hr in
theorem write_mirror {v : Option Value} (hv : Within F v) :
    MirrorAt framed ρ F (modify (·.write r v))
      (modify (·.write (r.rename ρ) (Renamable.rename ρ v))) :=
  modify_mirror fun hm => { hm with refs := hm.refs.set _ hv }

theorem bind_mirror {v : Value} (hv : v.Within F) :
    MirrorAt framed ρ F (r.bind v) ((r.rename ρ).bind (v.rename ρ)) := by
  refine (isBound_mirror hr).bind fun b _ => .guarded Iff.rfl ?_
  exact write_mirror (v := some v) fun _ h => by cases h; exact hv

omit hr in
theorem unbind_mirror : MirrorAt framed ρ F r.unbind (r.rename ρ).unbind :=
  write_mirror (v := none) fun _ h => by cases h

end RefId

namespace ContextId

theorem new_mirror [h : F.Contextual] {x : Context} (hx : x.Within F) :
    MirrorAt framed ρ F (ContextId.new x) (ContextId.new (x.rename ρ)) := by
  refine fun m m' hm => ⟨⟨?_, fun i hi => ?_⟩, ?_⟩
  · exact congrArg (fun i => Except.ok (ContextId.mk i)) ((hm.contexts h).next 0).symm
  · cases hi
    exact (hm.contexts h).ahead 0
  · exact { hm with contexts := fun h => (hm.contexts h).append hx }

variable {c : ContextId} (hc : F.address .contexts c.index)

include hc

theorem read_mirror : MirrorAt framed ρ F c.read (c.rename ρ).read :=
  .get fun hm => orExternal_mirror (hm.context? hc)

omit hc in
theorem write_mirror {x : Context} (hx : x.Within F) :
    MirrorAt framed ρ F (c.write x) ((c.rename ρ).write (x.rename ρ)) :=
  modify_mirror fun hm => { hm with contexts := fun h => (hm.contexts h).set _ hx }

theorem update_mirror {f g : Context → Except Error Context} (h : Context.ChangesAlike ρ F f g) :
    MirrorAt framed ρ F (c.update f) ((c.rename ρ).update g) := by
  refine (read_mirror hc).bind fun x hx => ?_
  refine (liftExcept_mirror ⟨h.eq x, fun d hd => h.within hx hd⟩).bind fun y hy => ?_
  exact write_mirror hy

theorem updateGet_mirror {f g : Context → Except Error (Value × Context)}
    (h : Context.GivesAlike ρ F f g) : MirrorAt framed ρ F (c.updateGet f) ((c.rename ρ).updateGet g) := by
  refine (read_mirror hc).bind fun x hx => ?_
  refine (liftExcept_mirror ⟨h.eq x, fun d hd => h.within hx hd⟩).bind fun y hy => ?_
  exact (write_mirror hy.2).bind fun _ _ => .pure hy.1

end ContextId

namespace MappingId

theorem new_mirror {fields : List (String × Value)} (hf : ∀ x ∈ fields, x.2.Within F) :
    MirrorAt framed ρ F (MappingId.new fields) (MappingId.new (Value.renameEntries ρ fields)) := by
  refine fun m m' hm => ⟨⟨?_, fun i hi => ?_⟩, ?_⟩
  · exact congrArg (fun i => Except.ok (MappingId.mk i)) (hm.mappings.next 0).symm
  · cases hi
    exact hm.mappings.ahead 0
  · exact { hm with mappings := hm.mappings.append fun x hx => ⟨trivial, hf x hx⟩ }

variable {i : MappingId} (hi : F.address .mappings i.index)

include hi

theorem read_mirror : MirrorAt framed ρ F i.read (i.rename ρ).read :=
  .reads fun hm => hm.mapping hi

theorem update_mirror {fields : List (String × Value)} (hf : ∀ x ∈ fields, x.2.Within F) :
    MirrorAt framed ρ F (i.update fields) ((i.rename ρ).update (Value.renameEntries ρ fields)) := by
  refine modify_mirror fun {m m'} hm => ?_
  obtain ⟨eq, within⟩ := hm.mapping hi
  have old : m'.mapping (i.rename ρ) = Value.renameEntries ρ (m.mapping i) := eq
  rw [old, override_rename]
  refine { hm with mappings := hm.mappings.set _ fun x hx => ⟨trivial, ?_⟩ }
  exact within_override (fun x hx => (within x hx).2) hf x hx

end MappingId

namespace QueryId

theorem new_mirror {q : Executable} (hq : q.Within F) :
    MirrorAt framed ρ F (QueryId.new q) (QueryId.new (q.rename ρ)) := by
  refine fun m m' hm => ⟨⟨?_, fun i hi => ?_⟩, ?_⟩
  · exact congrArg (fun i => Except.ok (QueryId.mk i)) (hm.queries.next 0).symm
  · cases hi
    exact hm.queries.ahead 0
  · exact { hm with queries := hm.queries.append hq }

variable {q : QueryId} (hq : F.address .queries q.index)

include hq

theorem read_mirror : MirrorAt framed ρ F q.read (q.rename ρ).read :=
  .get fun hm => orExternal_mirror (hm.query? hq)

omit hq in
theorem write_mirror {x : Executable} (hx : x.Within F) :
    MirrorAt framed ρ F (q.write x) ((q.rename ρ).write (x.rename ρ)) :=
  modify_mirror fun hm => { hm with queries := hm.queries.set _ hx }

end QueryId

/-! ### New values -/

theorem fresh_mirror : MirrorAt framed ρ F (discard fresh) (discard fresh) :=
  .fresh fun _ => .pure trivial

theorem newTerm_mirror (t : Term) : MirrorAt framed ρ F (newTerm t) (newTerm (t.rename ρ)) :=
  .fresh fun _ => .pure trivial

theorem newTerm_mirror_of {t u : Term} (eq : u = t.rename ρ) :
    MirrorAt framed ρ F (newTerm t) (newTerm u) := by
  subst eq
  exact newTerm_mirror t

theorem newInt_mirror (n : Int) : MirrorAt framed ρ F (newInt n) (newInt n) :=
  .fresh fun id => .pure (a := Value.int id n) trivial

theorem newFloat_mirror (x : Binary64) : MirrorAt framed ρ F (newFloat x) (newFloat x) :=
  .fresh fun id => .pure (a := Value.float id x) trivial

theorem newText_mirror (s : String) : MirrorAt framed ρ F (newText s) (newText s) :=
  .fresh fun id => .pure (a := Value.text id s) trivial

theorem newList_mirror {items : List Value} (hi : ∀ v ∈ items, v.Within F) :
    MirrorAt framed ρ F (newList items) (newList (items.map (Value.rename ρ))) :=
  .fresh fun id => .pure_of (a := Value.list id items) (by simpa [Within] using hi) (by simp [rename])

theorem newTuple_mirror {items : List Value} (hi : ∀ v ∈ items, v.Within F) :
    MirrorAt framed ρ F (newTuple items) (newTuple (items.map (Value.rename ρ))) :=
  .fresh fun id => .pure_of (a := Value.tuple id items) (by simpa [Within] using hi) (by simp [rename])

theorem newMapping_mirror {fields : List (String × Value)} (hf : ∀ x ∈ fields, x.2.Within F) :
    MirrorAt framed ρ F (newMapping fields) (newMapping (Value.renameEntries ρ fields)) :=
  (MappingId.new_mirror hf).bind fun i hi => .pure (a := Value.mapping i) hi

theorem currentFrame_mirror [h : F.Contextual] : Mirror ρ F currentFrame currentFrame := by
  refine .get fun {m m'} hm => ?_
  obtain ⟨top, within⟩ := hm.stack.top rfl h
  generalize m.stack = fs at top within ⊢
  generalize m'.stack = gs at top ⊢
  cases fs with
  | nil =>
    cases gs with
    | nil => exact .fail _
    | cons g gs => cases top
  | cons f fs =>
    cases gs with
    | nil => cases top
    | cons g gs =>
      cases top
      exact .pure (within f rfl)

end FluentQuery
