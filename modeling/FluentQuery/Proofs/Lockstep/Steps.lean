import FluentQuery.Proofs.Guarantee.Programs

/-! Two runs in lockstep: they start on machines that differ in what a program hardly reads, the log,
the stack or whether compiled queries are logged, and do the same step by step. What every elementary
step does alike on such machines, whatever is composed of such steps does alike. -/

namespace FluentQuery

open Sql

variable {α β : Type}

/-! ### Machines abreast -/

namespace Machine

/-- The machine with the stack, the log and the settings of another one. -/
def amid (m o : Machine) : Machine :=
  { m with stack := o.stack, log := o.log, settings := o.settings }

end Machine

/-- In what two machines may differ, beside their logs. -/
inductive Margin where
  /-- The first logs compiled queries, the second does not. -/
  | compiled
  /-- The stack below its top. -/
  | below
  /-- The whole stack. -/
  | stack

namespace Margin

/-- What may differ inside one more frame, which is the same on both stacks. -/
def inner : Margin → Margin
  | compiled => compiled
  | below | stack => below

/-- The stacks differ in no more than they may. -/
def Stacks (k : Margin) (fs gs : List Frame) : Prop :=
  match k with
  | compiled => gs = fs
  | below => gs.head? = fs.head?
  | stack => True

/-- The settings differ in no more than they may. -/
def Settings (k : Margin) (c d : Diagnostics) : Prop :=
  match k with
  | compiled => c.logCompiledSql = true ∧ d = { c with logCompiledSql := false }
  | below | stack => d = c

variable {k : Margin}

@[simp] theorem inner_inner (k : Margin) : k.inner.inner = k.inner := by
  cases k <;> rfl

theorem inner_ne_compiled (h : k ≠ compiled) : k.inner ≠ compiled := by
  cases k with
  | compiled => exact absurd rfl h
  | below | stack => nofun

theorem stacks_nil (k : Margin) : k.Stacks [] [] := by
  cases k <;> trivial

theorem stacks_cons {fs gs : List Frame} (h : k.Stacks fs gs) (f : Frame) :
    k.inner.Stacks (f :: fs) (f :: gs) := by
  cases k with
  | compiled => exact congrArg (f :: ·) h
  | below | stack => rfl

theorem settings_inner {c d : Diagnostics} : k.inner.Settings c d ↔ k.Settings c d := by
  cases k <;> rfl

theorem Settings.unlogged {c d : Diagnostics} (h : k.Settings c d) :
    d = { c with logCompiledSql := d.logCompiledSql } := by
  cases k with
  | compiled =>
    obtain ⟨-, rfl⟩ := h
    rfl
  | below | stack => rw [show d = c from h]

theorem Settings.logging {c d : Diagnostics} (h : k.Settings c d) : d.logging = c.logging := by
  rw [h.unlogged]

theorem Settings.bulk {c d : Diagnostics} (h : k.Settings c d) :
    d.allowUnfilteredBulk = c.allowUnfilteredBulk := by
  rw [h.unlogged]

end Margin

/-- The second machine is the first but for its log and what may differ. -/
structure Abreast (k : Margin) (m m' : Machine) : Prop where
  rest : m' = m.amid m'
  frames : k.Stacks m.stack m'.stack
  settings : k.Settings m.settings m'.settings

/-- On machines abreast the computations give the same result, and leave machines abreast. -/
def Agrees (k : Margin) (x y : Run α) : Prop :=
  ∀ m m', Abreast k m m' →
    (exec y m').1 = (exec x m).1 ∧ Abreast k (after x m) (after y m')

/-- What the machines differ in does not sway the computation. -/
def Unswayed (k : Margin) (x : Run α) : Prop := Agrees k x x

theorem Unswayed.agrees {k : Margin} {x : Run α} (h : Unswayed k x) : Agrees k x x := h

/-! ### Composition -/

namespace Agrees

variable {k : Margin} {x y : Run α} {f g : α → Run β}

theorem pure (a : α) : Agrees k (pure a) (pure a) := fun _ _ h => ⟨rfl, h⟩

theorem fail (e : Error) : Agrees k (fail e : Run α) (FluentQuery.fail e) := fun _ _ h => ⟨rfl, h⟩

theorem bind (hx : Agrees k x y) (hf : ∀ a, Agrees k (f a) (g a)) :
    Agrees k (x >>= f) (y >>= g) := by
  intro m m' h
  obtain ⟨result, left⟩ := hx m m' h
  rw [after, after] at left
  rcases hm : exec x m with ⟨r, n⟩
  rcases hm' : exec y m' with ⟨r', n'⟩
  rw [hm, hm'] at result left
  obtain rfl : r' = r := result
  cases r' with
  | error e =>
    rw [after, after, exec_bind_of_error hm, exec_bind_of_error hm']
    exact ⟨rfl, left⟩
  | ok a =>
    rw [after, after, exec_bind_of_ok hm, exec_bind_of_ok hm']
    exact hf a n n' left

theorem tryCatch {handle handle' : Error → Run α} (hx : Agrees k x y)
    (hh : ∀ e, Agrees k (handle e) (handle' e)) :
    Agrees k (tryCatch x handle) (tryCatch y handle') := by
  intro m m' h
  obtain ⟨result, left⟩ := hx m m' h
  rw [after, after] at left ⊢
  rw [exec_tryCatch, exec_tryCatch]
  rcases hm : exec x m with ⟨r, n⟩
  rcases hm' : exec y m' with ⟨r', n'⟩
  rw [hm, hm'] at result left
  obtain rfl : r' = r := result
  cases r' with
  | error e => exact hh e n n' left
  | ok a => exact ⟨rfl, left⟩

theorem ite {c : Prop} [Decidable c] {x' y' : Run α} (hx : Agrees k x x') (hy : Agrees k y y') :
    Agrees k (if c then x else y) (if c then x' else y') := by
  split
  · exact hx
  · exact hy

/-- What follows a failure is not run. -/
theorem fail_bind (e : Error) (f g : α → Run β) :
    Agrees k (FluentQuery.fail e >>= f) (FluentQuery.fail e >>= g) :=
  fun _ _ h => ⟨rfl, h⟩

/-- A check that may refuse, before the rest. -/
theorem guarded {c : Prop} [Decidable c] {e : Error} {u u' : Unit → Run α} (hx : Agrees k x y) :
    Agrees k (if c then FluentQuery.fail e >>= u else x)
      (if c then FluentQuery.fail e >>= u' else y) :=
  .ite (fail_bind e u u') hx

theorem map {f : α → β} (hx : Agrees k x y) : Agrees k (f <$> x) (f <$> y) := by
  rw [map_eq_pure_bind, map_eq_pure_bind]
  exact hx.bind fun a => pure _

/-- What is the same on both sides, before the rest. -/
theorem behind (hx : Unswayed k x) (hf : ∀ a, Agrees k (f a) (g a)) :
    Agrees k (x >>= f) (x >>= g) :=
  bind hx hf

/-- What is the same on both sides, behind the rest. -/
theorem before (hx : Agrees k x y) (hf : ∀ a, Unswayed k (f a)) :
    Agrees k (x >>= f) (y >>= f) :=
  bind hx hf

end Agrees

namespace Unswayed

variable {k : Margin} {x : Run α}

@[grind ←] theorem pure (a : α) : Unswayed k (pure a : Run α) := Agrees.pure a

@[grind ←] theorem fail (e : Error) : Unswayed k (fail e : Run α) := Agrees.fail e

@[grind ←] theorem throw (e : Error) : Unswayed k (throw e : Run α) := fun _ _ h => ⟨rfl, h⟩

@[grind ←] theorem bind {f : α → Run β} (hx : Unswayed k x) (hf : ∀ a, Unswayed k (f a)) :
    Unswayed k (x >>= f) :=
  Agrees.bind hx hf

theorem fail_bind (e : Error) (f : α → Run β) : Unswayed k (FluentQuery.fail e >>= f) :=
  Agrees.fail_bind e f f

theorem ite {c : Prop} [Decidable c] {y : Run α} (hx : Unswayed k x) (hy : Unswayed k y) :
    Unswayed k (if c then x else y) := by
  split
  · exact hx
  · exact hy

/-- A check that may refuse, before the rest. -/
theorem guarded {c : Prop} [Decidable c] {e : Error} {u : Unit → Run α} (hx : Unswayed k x) :
    Unswayed k (if c then FluentQuery.fail e >>= u else x) :=
  .ite (fail_bind e u) hx

@[grind ←] theorem map {f : α → β} (hx : Unswayed k x) : Unswayed k (f <$> x) := by
  rw [map_eq_pure_bind]
  exact hx.bind fun a => pure _

@[grind ←] theorem mapM {f : α → Run β} (hf : ∀ a, Unswayed k (f a)) (xs : List α) :
    Unswayed k (xs.mapM f) := by
  induction xs with
  | nil => exact pure []
  | cons x xs ih =>
    rw [List.mapM_cons]
    exact (hf x).bind fun _ => ih.bind fun _ => pure _

@[grind ←] theorem forM {f : α → Run PUnit} (hf : ∀ a, Unswayed k (f a)) (xs : List α) :
    Unswayed k (xs.forM f) := by
  induction xs with
  | nil => exact pure ()
  | cons x xs ih => exact (hf x).bind fun _ => ih

/-- A computation that reads of the machine what has nothing to do with the difference. -/
theorem reading {g : Machine → Run α} (blind : ∀ m o, g (m.amid o) = g m)
    (hg : ∀ m, Unswayed k (g m)) : Unswayed k (get >>= g) := by
  intro m m' h
  rw [after, after, exec_bind_of_ok (exec_get m), exec_bind_of_ok (exec_get m'),
    show g m' = g m from (congrArg g h.rest).trans (blind m m')]
  exact hg m m m' h

/-- An elementary step that has nothing to do with the difference. -/
theorem stepping {f : Machine → α × Machine}
    (blind : ∀ m o, f (m.amid o) = ((f m).1, (f m).2.amid o))
    (aside : ∀ m, (f m).2.stack = m.stack ∧ (f m).2.settings = m.settings) :
    Unswayed k (modifyGet f) := by
  intro m m' h
  have step : f m' = ((f m).1, (f m).2.amid m') := (congrArg f h.rest).trans (blind m m')
  obtain ⟨stack, settings⟩ := aside m
  rw [after, after, exec_modifyGet, exec_modifyGet, step]
  refine ⟨rfl, rfl, ?_, ?_⟩
  · rw [stack]
    exact h.frames
  · rw [settings]
    exact h.settings

end Unswayed

variable {k : Margin}

/-! ### Steps of the machine -/

@[grind ←] theorem fresh_unswayed : Unswayed k fresh :=
  .stepping (fun _ _ => rfl) fun _ => ⟨rfl, rfl⟩

@[grind ←] theorem liftExcept_unswayed (x : Except Error α) : Unswayed k (liftExcept x) := by
  cases x with
  | error e => exact .fail e
  | ok a => exact .pure a

@[grind ←] theorem orExternal_unswayed (x : Option α) : Unswayed k (orExternal x) := by
  cases x with
  | none => exact .fail _
  | some a => exact .pure a

@[grind ←] theorem discard_unswayed {x : Run α} (hx : Unswayed k x) : Unswayed k (discard x) :=
  hx.map (f := fun _ => PUnit.unit)

namespace RefId

@[grind ←] theorem new_unswayed : Unswayed k RefId.new :=
  .stepping (fun _ _ => rfl) fun _ => ⟨rfl, rfl⟩

@[grind ←] theorem isBound_unswayed (r : RefId) : Unswayed k r.isBound :=
  .reading (fun _ _ => rfl) fun _ => .pure _

@[grind ←] theorem read_unswayed (r : RefId) : Unswayed k r.read := by
  refine .reading (fun _ _ => rfl) fun m => ?_
  split <;> grind

@[grind ←] theorem bind_unswayed (r : RefId) (v : Value) : Unswayed k (r.bind v) := by
  refine r.isBound_unswayed.bind fun b => .guarded ?_
  exact .stepping (fun _ _ => rfl) fun _ => ⟨rfl, rfl⟩

@[grind ←] theorem unbind_unswayed (r : RefId) : Unswayed k r.unbind :=
  .stepping (fun _ _ => rfl) fun _ => ⟨rfl, rfl⟩

end RefId

namespace ContextId

@[grind ←] theorem new_unswayed (c : Context) : Unswayed k (ContextId.new c) :=
  .stepping (fun _ _ => rfl) fun _ => ⟨rfl, rfl⟩

@[grind ←] theorem read_unswayed (c : ContextId) : Unswayed k c.read :=
  .reading (fun _ _ => rfl) fun _ => orExternal_unswayed _

@[grind ←] theorem write_unswayed (c : ContextId) (x : Context) : Unswayed k (c.write x) :=
  .stepping (fun _ _ => rfl) fun _ => ⟨rfl, rfl⟩

@[grind ←] theorem update_unswayed (c : ContextId) (f : Context → Except Error Context) :
    Unswayed k (c.update f) := by
  grind [update]

@[grind ←] theorem updateGet_unswayed (c : ContextId)
    (f : Context → Except Error (Value × Context)) : Unswayed k (c.updateGet f) := by
  grind [updateGet]

end ContextId

namespace MappingId

@[grind ←] theorem new_unswayed (fields : List (String × Value)) :
    Unswayed k (MappingId.new fields) :=
  .stepping (fun _ _ => rfl) fun _ => ⟨rfl, rfl⟩

@[grind ←] theorem read_unswayed (i : MappingId) : Unswayed k i.read :=
  .reading (fun _ _ => rfl) fun _ => .pure _

@[grind ←] theorem update_unswayed (i : MappingId) (fields : List (String × Value)) :
    Unswayed k (i.update fields) :=
  .stepping (fun _ _ => rfl) fun _ => ⟨rfl, rfl⟩

end MappingId

namespace QueryId

@[grind ←] theorem new_unswayed (q : Executable) : Unswayed k (QueryId.new q) :=
  .stepping (fun _ _ => rfl) fun _ => ⟨rfl, rfl⟩

@[grind ←] theorem read_unswayed (q : QueryId) : Unswayed k q.read :=
  .reading (fun _ _ => rfl) fun _ => orExternal_unswayed _

@[grind ←] theorem write_unswayed (q : QueryId) (x : Executable) : Unswayed k (q.write x) :=
  .stepping (fun _ _ => rfl) fun _ => ⟨rfl, rfl⟩

end QueryId

@[grind ←] theorem note_unswayed (d : Description) : Unswayed k (note d) :=
  .stepping (fun _ _ => rfl) fun _ => ⟨rfl, rfl⟩

@[grind ←] theorem setGlobal_unswayed (name : String) (v : Value) :
    Unswayed k (setGlobal name v) :=
  .stepping (fun _ _ => rfl) fun _ => ⟨rfl, rfl⟩

@[grind ←] theorem handle_unswayed (v : Value) : Unswayed k (handle v) :=
  .stepping (fun _ _ => rfl) fun _ => ⟨rfl, rfl⟩

@[grind ←] theorem register_unswayed (v : Value) : Unswayed k (register v) := by
  grind [register]

@[grind ←] theorem truth_unswayed (v : Value) : Unswayed k v.truth :=
  .reading (fun _ _ => rfl) fun _ => orExternal_unswayed _

/-! ### New values -/

@[grind ←] theorem newTerm_unswayed (t : Term) : Unswayed k (newTerm t) := by
  grind [newTerm]

@[grind ←] theorem newInt_unswayed (n : Int) : Unswayed k (newInt n) := by
  grind [newInt]

@[grind ←] theorem newFloat_unswayed (x : Binary64) : Unswayed k (newFloat x) := by
  grind [newFloat]

@[grind ←] theorem newText_unswayed (s : String) : Unswayed k (newText s) := by
  grind [newText]

@[grind ←] theorem newList_unswayed (items : List Value) : Unswayed k (newList items) := by
  grind [newList]

@[grind ←] theorem newTuple_unswayed (items : List Value) : Unswayed k (newTuple items) := by
  grind [newTuple]

@[grind ←] theorem newMapping_unswayed (fields : List (String × Value)) :
    Unswayed k (newMapping fields) := by
  grind [newMapping]

/-! ### The log and the stack -/

namespace Abreast

variable {m m' : Machine}

theorem logging (h : Abreast k m m') : m'.settings.logging = m.settings.logging :=
  h.settings.logging

/-- The logs may be any. -/
theorem logs (h : Abreast k m m') (log log' : List String) :
    Abreast k { m with log } { m' with log := log' } := by
  refine ⟨?_, h.frames, h.settings⟩
  rw [h.rest]
  rfl

/-- So may other stacks, as far as they differ in no more than they may. -/
theorem onStacks {j : Margin} (h : Abreast k m m') {fs gs : List Frame} (frames : j.Stacks fs gs)
    (settings : ∀ c d, k.Settings c d → j.Settings c d) :
    Abreast j { m with stack := fs } { m' with stack := gs } := by
  refine ⟨?_, frames, settings _ _ h.settings⟩
  rw [h.rest]
  rfl

end Abreast

/-- Two lines for the log. -/
theorem logLine_pure_agrees (line line' : String) :
    Agrees k (logLine (pure line)) (logLine (pure line')) := by
  intro m m' h
  rw [after, after, exec_logLine_pure, exec_logLine_pure]
  refine ⟨rfl, ?_⟩
  unfold Machine.logged
  rw [h.logging]
  split
  · exact h.logs _ _
  · exact h

@[grind ←] theorem logLine_unswayed {text : Run String} (ht : Unswayed k text) :
    Unswayed k (logLine text) := by
  intro m m' h
  unfold logLine
  rw [after, after, exec_bind_of_ok (exec_get m), exec_bind_of_ok (exec_get m'), h.logging]
  split
  · refine Agrees.bind ht (fun line => ?_) m m' h
    exact fun n n' h => ⟨rfl, h.logs _ _⟩
  · exact ⟨rfl, h⟩

/-- Bodies that agree on other stacks, on those stacks. -/
theorem onStack_agrees {j : Margin} {x y : Run α} (hx : Agrees j x y) {fs gs : List Frame}
    (frames : j.Stacks fs gs) (settings : ∀ c d, k.Settings c d ↔ j.Settings c d) :
    Agrees k (onStack fs x) (onStack gs y) := by
  intro m m' h
  obtain ⟨result, left⟩ := hx _ _ (h.onStacks frames fun c d => (settings c d).mp)
  rw [after, after, exec_onStack, exec_onStack]
  exact ⟨result, left.onStacks h.frames fun c d => (settings c d).mpr⟩


theorem ensuring_agrees {x y : Run α} {cleanup cleanup' : Run Unit} (hx : Agrees k x y)
    (hc : Agrees k cleanup cleanup') : Agrees k (ensuring x cleanup) (ensuring y cleanup') := by
  unfold ensuring
  exact (hx.tryCatch fun e => hc.before fun _ => .throw e).bind fun a => hc.before fun _ => .pure a

/-- The top of the stack is the same inside any frame. -/
@[grind ←] theorem currentFrame_unswayed : Unswayed k.inner currentFrame := by
  intro m m' h
  have top : m'.stack.head? = m.stack.head? := by
    have frames := h.frames
    cases k with
    | compiled => exact congrArg List.head? frames
    | below | stack => exact frames
  unfold currentFrame
  rw [after, after, exec_bind_of_ok (exec_get m), exec_bind_of_ok (exec_get m')]
  rcases hm : m.stack with _ | ⟨f, fs⟩ <;> rcases hm' : m'.stack with _ | ⟨g, gs⟩ <;>
    rw [hm, hm'] at top <;> simp at top
  · exact ⟨rfl, h⟩
  · exact ⟨by rw [top]; rfl, h⟩

end FluentQuery
