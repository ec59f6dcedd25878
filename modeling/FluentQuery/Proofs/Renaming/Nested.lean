import FluentQuery.Proofs.Nesting
import FluentQuery.Proofs.Renaming.Building

/-! Subqueries where no value leads to a query context. The query contexts of two machines need not
correspond then; but a build reaches those that it creates itself, and these are followed through the
build: they say the same of themselves, whatever queries they are subqueries of. -/

namespace FluentQuery

open Sql

variable {ρ : Renaming} {F : Footprint} {framed inside : Bool} {view : Context → Context}
  {c c' : ContextId}

/-- Computations of which the same is seen fail alike, or return what looks the same. -/
theorem Except.cases_of_map_eq {ε α β γ δ : Type} {x : Except ε α} {y : Except ε β} {f : α → γ}
    {g : β → δ} {r : γ → δ} (h : y.map g = (x.map f).map r) :
    (∃ e, x = .error e ∧ y = .error e) ∨ ∃ a b, x = .ok a ∧ y = .ok b ∧ g b = r (f a) := by
  rcases x with e | a <;> rcases y with e' | b <;> simp_all [Except.map]

/-! ### Contexts that are followed -/

/-- The innermost frame is one of the query `c`. -/
def Machine.Inside (m : Machine) (c : ContextId) : Prop :=
  m.stack.head?.map Frame.query = some (.context c)

/-- Two machines are alike, and `view` shows the same of the contexts `c` and `c'` of theirs. If
`inside`, these are under construction. -/
structure Tracks (framed inside : Bool) (view : Context → Context) (ρ : Renaming) (F : Footprint)
    (c c' : ContextId) (m m' : Machine) : Prop extends Alike framed ρ F m m' where
  seen : ∃ x y, m.context? c = some x ∧ m'.context? c' = some y ∧ Context.Seen view ρ F x y
  frames : inside = true → m.Inside c ∧ m'.Inside c'

theorem Spares.context? {m m' : Machine} (h : Spares (c.index + 1) m m') {x : Context}
    (hx : m.context? c = some x) : m'.context? c = some x := by
  obtain ⟨below, -⟩ := List.getElem?_eq_some_iff.mp hx
  exact ((h below).2 c.index (Nat.lt_succ_self _)).trans hx

/-- Leaves the query `c` and the stack as they are. -/
structure Leaves (c : ContextId) {α : Type} (x : Run α) : Prop where
  context : Keeps (Spares (c.index + 1)) x
  stack : Keeps SameStack x

namespace Tracks

/-- What leaves both contexts alone need not know of them. -/
theorem lift {α : Type} [Renamable α] {x y : Run α} (h : MirrorAt framed ρ F x y)
    (hx : Leaves c x) (hy : Leaves c' y) :
    MirrorOn (Tracks framed inside view ρ F c c') ρ F x y := by
  intro m m' hm
  obtain ⟨given, left⟩ := h hm.toAlike
  obtain ⟨k, k', hk, hk', seen⟩ := hm.seen
  refine ⟨given, { left with seen := ?_, frames := fun hi => ?_ }⟩
  · exact ⟨k, k', (hx.context m).context? hk, (hy.context m').context? hk', seen⟩
  · unfold Machine.Inside
    rw [hx.stack m, hy.stack m']
    exact hm.frames hi

/-- Query contexts do not show where no value leads to one. -/
theorem told (apart : ¬F.Contextual) {m m' : Machine} (hm : Tracks framed inside view ρ F c c' m m')
    {x y x₀ y₀ : Context} (hx : m.context? c = some x₀) (hy : m'.context? c' = some y₀)
    (seen : Context.Seen view ρ F x y) :
    Tracks framed inside view ρ F c c' { m with contexts := m.contexts.set c.index x }
      { m' with contexts := m'.contexts.set c'.index y } :=
  { hm with
    contexts := fun hF => absurd hF apart
    seen := ⟨x, y, context?_set hx x, context?_set hy y, seen⟩ }

/-- The contexts that are followed can be configured side by side. -/
theorem handles (apart : ¬F.Contextual) :
    Handles view (fun d d' => d = c ∧ d' = c') (Tracks true inside view ρ F c c') ρ F where
  alike hm := hm.toAlike
  lift h hx hy := lift h ⟨hx _, hx _⟩ ⟨hy _, hy _⟩
  seen := by
    rintro _ _ ⟨rfl, rfl⟩ m m' hm
    obtain ⟨x, y, hx, hy, seen⟩ := hm.seen
    rw [hx, hy]
    exact ⟨congrArg some seen.eq, fun _ h => by cases h; exact seen.within⟩
  update := by
    rintro _ _ ⟨rfl, rfl⟩ f g alike hf hg m m' hm
    obtain ⟨x, y, hx, hy, seen⟩ := hm.seen
    unfold after
    rw [exec_update, exec_update, hx, hy]
    have both : (g y).map view = ((f x).map view).map (Context.rename ρ) := by
      rw [← hg y, ← hf x, seen.eq]
      exact alike.eq _
    obtain ⟨e, hfx, hgy⟩ | ⟨x₁, y₁, hfx, hgy, eq⟩ := Except.cases_of_map_eq both
    · simp only [hfx, hgy]
      exact ⟨⟨rfl, nofun⟩, hm⟩
    · simp only [hfx, hgy]
      refine ⟨⟨rfl, fun _ _ => trivial⟩, hm.told apart hx hy ⟨eq, ?_⟩⟩
      exact alike.within seen.within (by rw [hf, hfx]; rfl)
  updateGet := by
    rintro _ _ ⟨rfl, rfl⟩ f g alike hf hg m m' hm
    obtain ⟨x, y, hx, hy, seen⟩ := hm.seen
    unfold after
    rw [exec_updateGet, exec_updateGet, hx, hy]
    have both : (g y).map (fun z => (z.1, view z.2)) =
        ((f x).map fun z => (z.1, view z.2)).map (Context.renameGiven ρ) := by
      rw [← hg y, ← hf x, seen.eq]
      exact alike.eq _
    obtain ⟨e, hfx, hgy⟩ | ⟨⟨v, x₁⟩, ⟨v', y₁⟩, hfx, hgy, same⟩ := Except.cases_of_map_eq both
    · simp only [hfx, hgy]
      exact ⟨⟨rfl, nofun⟩, hm⟩
    · obtain ⟨rfl, eq⟩ : v' = v.rename ρ ∧ view y₁ = (view x₁).rename ρ := Prod.mk.inj same
      simp only [hfx, hgy]
      obtain ⟨hv, within⟩ := alike.within seen.within (by rw [hf, hfx]; rfl)
      exact ⟨⟨rfl, fun _ h => by cases h; exact hv⟩, hm.told apart hx hy ⟨eq, within⟩⟩

theorem currentSubquery (apart : ¬F.Contextual) {α : Type} [Renamable α] {f g : ContextId → Run α}
    (h : MirrorOn (Tracks true true Context.orphaned ρ F c c') ρ F (f c) (g c')) :
    MirrorOn (Tracks true true Context.orphaned ρ F c c') ρ F
      (FluentQuery.currentSubquery >>= f) (FluentQuery.currentSubquery >>= g) := by
  have top {m : Machine} {c : ContextId} (h : m.Inside c) :
      ∃ fr rest, m.stack = fr :: rest ∧ fr.query = .context c := by
    unfold Machine.Inside at h
    cases hs : m.stack with
    | nil => simp [hs] at h
    | cons fr rest => exact ⟨fr, rest, rfl, by simpa [hs] using h⟩
  intro m m' hm
  obtain ⟨own, own'⟩ := hm.frames rfl
  obtain ⟨fr, rest, hs, hf⟩ := top own
  obtain ⟨fr', rest', hs', hf'⟩ := top own'
  unfold after
  rw [exec_currentSubquery_bind hs hf, exec_currentSubquery_bind hs' hf']
  refine (handles apart).read ⟨rfl, rfl⟩ (fun x y kin => ?_) hm
  exact .ite (by rw [Context.Kin.isSubquery kin]) h (.fail _)

/-! ### Frames -/

theorem logged {m m' : Machine} (hm : Tracks framed inside view ρ F c c' m m') (line line' : String) :
    Tracks framed inside view ρ F c c' (m.logged line) (m'.logged line') := by
  unfold Machine.logged
  split <;> split <;> exact { hm with }

theorem entered (apart : ¬F.Contextual) {m m' : Machine}
    (hm : Tracks framed inside view ρ F c c' m m')
    {builder : Value} (hb : builder.Within F) :
    Tracks true true view ρ F c c' (m.entered builder (.context c))
      (m'.entered (builder.rename ρ) (.context c')) := by
  have pushed : Tracks true true view ρ F c c'
      { m with next := m.next + 1, stack := ⟨m.next, builder, .context c⟩ :: m.stack }
      { m' with
        next := m'.next + 1
        stack := ⟨m'.next, builder.rename ρ, .context c'⟩ :: m'.stack } :=
    { hm with
      next := fun k => by simpa only [Nat.add_assoc] using hm.next (1 + k)
      stack := ⟨by simp [hm.stack.depth], fun _ => ⟨rfl, fun _ h => by cases h; exact hb⟩,
        fun _ hF => absurd hF apart⟩
      frames := fun _ => ⟨rfl, rfl⟩ }
  exact pushed.logged _ _

/-- What is done inside frames for the two contexts is done by the builds in these frames. -/
theorem withFrame (apart : ¬F.Contextual) {α : Type} [Renamable α] {builder : Value}
    (hb : builder.Within F) {body body' : Run α} (h : MirrorOn (Tracks true true view ρ F c c') ρ F body body') :
    MirrorOn (Tracks framed inside view ρ F c c') ρ F
      (withFrame builder (.context c) fun _ => body)
      (withFrame (builder.rename ρ) (.context c') fun _ => body') := by
  intro m m' hm
  unfold after
  by_cases null : builder.isNull
  · have refused {b : Value} (hb : b.isNull) (c : ContextId) (k : Run α) (m : Machine) :
        exec (FluentQuery.withFrame b (.context c) fun _ => k) m = (.error (.null "builder"), m) := by
      unfold FluentQuery.withFrame
      simp only [hb, ↓reduceIte]
      rfl
    rw [refused null, refused (by rwa [builder.isNull_rename])]
    exact ⟨⟨rfl, nofun⟩, hm⟩
  · have given : builder.isNull = false := by simpa using null
    rw [exec_withFrame given, exec_withFrame (by rwa [builder.isNull_rename])]
    obtain ⟨result, left⟩ := h (hm.entered apart hb)
    refine ⟨result, logged ?_ _ _⟩
    exact { left with stack := hm.stack, frames := hm.frames }

end Tracks

/-! ### Configuring -/

/-- Whether a configuration starts by handing out the query it is applied to. -/
def Origin.hands : Origin → Bool
  | .function _ => true
  | _ => false

/-- Whether a stream is configured by operations of the library alone, none of which hands out the
query. -/
def Stream.isPlain (s : Stream) : Bool :=
  match s.configurer with
  | .configurer k => !k.origin.hands && k.steps.all (!·.hands)
  | _ => false

theorem Stream.isPlain_rename (s : Stream) : (s.rename ρ).isPlain = s.isPlain := by
  have origin (o : Origin) : (o.rename ρ).hands = o.hands := by cases o <;> rfl
  have step (x : Step) : (x.rename ρ).hands = x.hands := by cases x <;> rfl
  unfold isPlain
  rw [s.rename_configurer]
  cases s.configurer with
  | configurer k =>
    simp only [Value.rename, k.rename_origin, k.rename_steps, origin, List.all_map, Function.comp_def,
      step]
  | _ => rfl

/-- Calls that leave the stack and whatever query contexts there are as they were. -/
structure Discreet (call : Call) : Prop where
  spares : ∀ k f args, Keeps (Spares k) (call f args)
  stack : ∀ f args, Keeps SameStack (call f args)

section Subqueries

variable (apart : ¬F.Contextual)

include apart

theorem Origin.select_tracked (call : Call) (builder : Value) {o : Origin} (plain : o.hands = false)
    (ho : o.Within F) :
    MirrorOn (Tracks true true Context.orphaned ρ F c c') ρ F
      (o.select call builder (.context c))
      ((o.rename ρ).select call (builder.rename ρ) (.context c')) := by
  have H : Handles _ _ (Tracks true true Context.orphaned ρ F c c') ρ F := Tracks.handles apart
  cases o with
  | root entity =>
    exact Handles.onContext (.context ⟨rfl, rfl⟩) fun d d' own => ContextId.addRoot_handled H own ho
  | correlated root =>
    refine Tracks.currentSubquery apart ?_
    exact (H.change ⟨rfl, rfl⟩ (Context.correlate_alike ho) (.correlate _) (.correlate _)).bind
      fun _ _ => .pure ho
  | function f => cases plain

/-- A new query context is followed from its creation on. -/
theorem newContext_tracked {α : Type} [Renamable α] {x y : Context} (seen : Context.Seen view ρ F x y)
    {f g : ContextId → Run α}
    (h : ∀ c c', MirrorOn (Tracks framed false view ρ F c c') ρ F (f c) (g c')) :
    MirrorAt framed ρ F (ContextId.new x >>= f) (ContextId.new y >>= g) := by
  have created (m : Machine) (x : Context) :
      exec (ContextId.new x) m = (.ok m.nextContext, { m with contexts := m.contexts ++ [x] }) := rfl
  intro m m' hm
  have began : Tracks framed false view ρ F m.nextContext m'.nextContext
      { m with contexts := m.contexts ++ [x] } { m' with contexts := m'.contexts ++ [y] } :=
    { hm with
      contexts := fun hF => absurd hF apart
      seen := ⟨x, y, List.getElem?_concat_length, List.getElem?_concat_length, seen⟩
      frames := nofun }
  unfold after
  rw [exec_bind_of_ok (created m x), exec_bind_of_ok (created m' y)]
  obtain ⟨result, left⟩ := h _ _ began
  exact ⟨result, left.toAlike⟩

omit apart in
/-- Of the innermost frame only the builder is looked at. -/
theorem currentFrame_mirror_of {α : Type} [Renamable α] {f g : Frame → Run α}
    (h : ∀ fr fr' : Frame, fr.builder.Within F → fr'.builder = fr.builder.rename ρ →
      Mirror ρ F (f fr) (g fr')) :
    Mirror ρ F (currentFrame >>= f) (currentFrame >>= g) := by
  intro m m' hm
  obtain ⟨eq, within⟩ := hm.stack.builder rfl
  unfold after
  cases hs : m.stack with
  | nil =>
    cases hs' : m'.stack with
    | nil =>
      rw [exec_bind_of_error (Stream.exec_currentFrame_of_nil hs),
        exec_bind_of_error (Stream.exec_currentFrame_of_nil hs')]
      exact ⟨⟨rfl, nofun⟩, hm⟩
    | cons fr' rest' => simp [hs, hs', rename] at eq
  | cons fr rest =>
    cases hs' : m'.stack with
    | nil => simp [hs, hs', rename] at eq
    | cons fr' rest' =>
      rw [exec_bind_of_ok (Stream.exec_currentFrame hs),
        exec_bind_of_ok (Stream.exec_currentFrame hs')]
      refine h fr fr' (within _ (by rw [hs]; rfl)) ?_ hm
      simpa [hs, hs', rename] using eq

variable {call : Call} (discreet : Discreet call)
  (hc : ∀ {f args}, f.Within F → (∀ v ∈ args, v.Within F) →
    Mirror ρ F (call f args) (call (f.rename ρ) (args.map (Value.rename ρ))))

include discreet hc

omit apart in
theorem call_tracked {f : Value} {args : List Value} (hf : f.Within F)
    (ha : ∀ v ∈ args, v.Within F) :
    MirrorOn (Tracks true inside view ρ F c c') ρ F (call f args)
      (call (f.rename ρ) (args.map (Value.rename ρ))) :=
  Tracks.lift (hc hf ha) ⟨discreet.spares _ f args, discreet.stack f args⟩
    ⟨discreet.spares _ _ _, discreet.stack _ _⟩

namespace Stream

variable {s : Stream} (plain : s.isPlain) (hs : s.Within F)

include plain hs

theorem configure_tracked (builder : Value) :
    MirrorOn (Tracks true true Context.orphaned ρ F c c') ρ F
      (configure call s.configurer builder (.context c))
      (configure call (s.configurer.rename ρ) (builder.rename ρ) (.context c')) := by
  have own := hs.configurer
  unfold isPlain at plain
  cases hk : s.configurer with
  | configurer k =>
    rw [hk] at plain own
    simp only [Bool.and_eq_true, Bool.not_eq_true', List.all_eq_true] at plain
    unfold configure
    simp only [Value.rename]
    unfold Configurer.run
    rw [k.rename_origin, k.rename_steps]
    refine (Origin.select_tracked apart call builder plain.1 own.origin).bind fun v hv => ?_
    exact Step.applyAll_handled (Tracks.handles apart) (call_tracked discreet hc) builder
      (.context ⟨rfl, rfl⟩) hv plain.2 own.steps
  | _ => simp [hk] at plain

/-- What is made of a subquery does not depend on the query it is one of. -/
theorem toSubquery_tracked {nest : ContextId → Run Value}
    (hn : ∀ c c', MirrorOn (Tracks true false Context.orphaned ρ F c c') ρ F (nest c) (nest c')) :
    Mirror ρ F (do nest (← s.toSubquery call)) (do nest (← (s.rename ρ).toSubquery call)) := by
  unfold toSubquery
  simp only [bind_assoc]
  refine currentFrame_mirror_of fun fr fr' hb eq => ?_
  have blank : Context.Kin ρ F (.subquery fr.query) (.subquery fr'.query) :=
    ⟨rfl, trivial, .empty, trivial, fun _ h => by cases h⟩
  refine newContext_tracked apart blank fun c c' => ?_
  rw [eq, s.rename_configurer]
  refine .bind (α := Unit) (Tracks.withFrame apart hb ?_) fun _ _ => ?_
  · refine (configure_tracked apart discreet hc plain hs fr.builder).bind fun v hv => ?_
    exact (Tracks.handles apart).change ⟨rfl, rfl⟩ (Context.select_alike hv) (.select _) (.select _)
  · simp only [pure_bind]
    exact hn c c'

theorem asSubquery_tracked : Mirror ρ F (s.asSubquery call) ((s.rename ρ).asSubquery call) :=
  toSubquery_tracked apart discreet hc plain hs fun _ _ =>
    ContextId.nested_handled (f := .scalar) (Tracks.handles apart) ⟨rfl, rfl⟩ fun _ => rfl

theorem existence_tracked : Mirror ρ F (s.existence call) ((s.rename ρ).existence call) :=
  toSubquery_tracked apart discreet hc plain hs fun _ _ =>
    ContextId.nested_handled (f := .nonempty) (Tracks.handles apart) ⟨rfl, rfl⟩ fun _ => rfl

end Stream

end Subqueries

end FluentQuery
