import FluentQuery.Proofs.Preview.Builds
import FluentQuery.Proofs.Repetition
import FluentQuery.Proofs.Spellings.Runs

/-! One number more. A build that takes a number in between for nothing gives the same query, up to
the numbers it takes from there on. -/

namespace FluentQuery

open Sql

variable {ρ : Renaming} {F : Footprint} {framed : Bool} {m m' n : Machine} {c : ContextId}

/-! ### Frames on machines that are alike -/

theorem StackAlike.of_top {fs gs : List Frame} (depth : gs.length = fs.length)
    (top : Counterpart ρ F fs.head? gs.head?) : StackAlike framed ρ F fs gs := by
  obtain ⟨eq, within⟩ := top
  refine ⟨depth, fun _ => ⟨?_, fun b hb => ?_⟩, fun _ _ => ⟨eq, within⟩⟩
  · rw [eq]
    cases fs.head? with
    | none => rfl
    | some f => exact congrArg some f.rename_builder
  · obtain ⟨f, hf, rfl⟩ := Option.map_eq_some_iff.mp hb
    exact (within f hf).builder

namespace Alike

theorem logged (h : Alike framed ρ F m m') (line line' : String) :
    Alike framed ρ F (m.logged line) (m'.logged line') := by
  unfold Machine.logged
  split <;> split <;> exact { h with }

theorem entered (h : Alike framed ρ F m m') {builder : Value} (hb : builder.Within F)
    (hc : F.address .contexts c.index) :
    Alike true ρ F (m.entered builder (.context c))
      (m'.entered (builder.rename ρ) (.context (c.rename ρ))) := by
  have frame : (⟨m.next, builder, .context c⟩ : Frame).rename ρ =
      ⟨m'.next, builder.rename ρ, .context (c.rename ρ)⟩ :=
    congrArg (Frame.mk · _ _) (h.next 0)
  have pushed := h.stack.push (f := ⟨m.next, builder, .context c⟩) ⟨hb, hc⟩
  rw [frame] at pushed
  refine logged ?_ _ _
  exact { h with
    next := fun k => by simpa only [Nat.add_assoc] using h.next (1 + k)
    stack := pushed }

/-- Frames are left for the same stack. -/
theorem left (h : Alike framed ρ F m m') (outer : Machine) (c c' : ContextId) :
    Alike false ρ F (m.left outer c) (m'.left outer c') := by
  have back : Alike false ρ F { m with stack := outer.stack } { m' with stack := outer.stack } :=
    { h with stack := ⟨rfl, nofun, nofun⟩ }
  exact back.logged _ _

end Alike

/-! ### A number for nothing -/

/-- The machine when it has taken a number. -/
def Machine.skipped (m : Machine) : Machine := { m with next := m.next + 1 }

theorem Machine.le_skipped (m : Machine) : m.extent.Le m.skipped.extent :=
  ⟨Nat.le_succ _, fun space => by cases space <;> exact Nat.le_refl _⟩

/-- What leads nowhere but to itself still does. -/
theorem Alike.revisited_skipped [F.Contextual] (h : Alike framed ρ F n n) :
    n.Revisited F n.skipped := by
  have holds {space : Space} {α : Type} [Renamable α] {xs : List α} (h : StoredAlike ρ F space xs xs) :
      StillHolds F space xs xs :=
    ⟨fun i hi => Nat.add_sub_cancel' hi ▸ h.ahead (i - xs.length), fun _ hi => (h.content hi).within,
      fun _ _ _ => rfl⟩
  exact {
    settings := rfl
    depth := rfl
    extent := n.le_skipped
    within := fun _ hn => (h.globals hn).within
    globals := fun _ _ => rfl
    refs := holds h.refs
    contexts := holds (h.contexts ‹_›)
    queries := holds h.queries
    mappings := holds h.mappings }

/-- Whatever the machine makes next gets one number more. -/
theorem Alike.skipped [F.Contextual] {W : Moment} (h : Alike true ρ F n n) (known : n.Known W) :
    Alike true (.resume n.extent n.skipped.extent n.le_skipped known.positive) F n n.skipped := by
  have fixes := Renaming.resume_fixes_known known n.le_skipped
  have top : Counterpart (.resume n.extent n.skipped.extent n.le_skipped known.positive) F
      n.stack.head? n.skipped.stack.head? := by
    refine ⟨?_, (h.stack.top rfl ‹_›).within⟩
    cases hs : n.stack with
    | nil => exact congrArg List.head? hs
    | cons f rest =>
      have frame : f.Known W := known.stack f (by simp [hs])
      exact (congrArg List.head? hs).trans (congrArg some (frame.fixed fixes).symm)
  exact { h.revisited_skipped.alike known.wellMade with stack := .of_top rfl top }

/-! ### Builds of their own -/

namespace Terminal

variable {T : Terminal} {s : Stream} {o : Opening} {W : Moment}

theorem opening_builder_within (hT : T.nests = false) (ho : T.opening s m = .ok o) :
    o.builder.Within F := by
  obtain ⟨t, -, rfl⟩ := opening_of_not_nests hT ho
  trivial

/-- What a build of its own sets up is known. -/
theorem inside_known (hT : T.nests = false) (ho : T.opening s m = .ok o) (hm : m.Known W)
    (hs : s.Known W) :
    ∃ w, W.Le w ∧ o.builder.Known w ∧ m.nextQuery.Known w ∧ (o.inside m).Known w := by
  obtain ⟨t, ht, rfl⟩ := opening_of_not_nests hT ho
  have type : t.Known W := by
    have type := hs.parts.queryType
    rwa [ht] at type
  obtain ⟨w₁, le₁, known₁, given⟩ := fresh_sound m hm
  obtain ⟨w₂, le₂, known₂, address⟩ := QueryType.createContext_sound (type.mono le₁) _ known₁
  have builder : (Value.criteriaBuilder m.next).Known w₂ := le₂.given (given m.next rfl)
  have query : m.nextQuery.Known w₂ := address m.nextContext rfl
  obtain ⟨w₃, le₃, known₃⟩ := known₂.entered builder query
  exact ⟨w₃, (le₁.trans le₂).trans le₃, builder.mono le₃, query.mono le₃, known₃⟩

/-- A build of its own begins alike if its machine is like itself. -/
theorem inside_alike [F.Contextual] (hT : T.nests = false) (ho : T.opening s m = .ok o)
    (hs : s.Within F) (fixed : s.queryType.rename ρ = s.queryType) (h : Alike framed ρ F m m) :
    Alike true ρ F (o.inside m) (o.inside m) := by
  obtain ⟨t, ht, rfl⟩ := opening_of_not_nests hT ho
  have type : t.Within F := by
    have type := hs.queryType
    rwa [ht] at type
  have same : t.rename ρ = t := by
    rw [ht] at fixed
    exact Value.queryType.inj fixed
  have numbered : Alike framed ρ F { m with next := m.next + 1 } { m with next := m.next + 1 } :=
    { h with next := fun k => by simpa only [Nat.add_assoc] using h.next (1 + k) }
  obtain ⟨context, opened⟩ := QueryType.createContext_mirror type numbered
  rw [same] at opened context
  have builder : (Value.criteriaBuilder m.next).rename ρ = .criteriaBuilder m.next :=
    congrArg Value.criteriaBuilder (h.next 0)
  have address : m.nextContext.rename ρ = m.nextContext :=
    (Except.ok.inj context.eq).symm
  have within : (Value.criteriaBuilder m.next).Within F := trivial
  have entered := opened.entered within (context.within m.nextContext rfl)
  rwa [builder, address] at entered

/-- The selection of a build is told alike. -/
theorem settle_mirror (T : Terminal) (hc : F.address .contexts c.index) {w : Value}
    (hw : w.Within F) :
    Mirror ρ F (T.settle s c w) (T.settle (s.rename ρ) (c.rename ρ) (w.rename ρ)) := by
  have query : (Value.context c).Within F := hc
  have select : Mirror ρ F (Terminal.criteria.settle s c w)
      (Terminal.criteria.settle (s.rename ρ) (c.rename ρ) (w.rename ρ)) := by
    unfold settle
    rw [s.rename_queryType]
    cases s.queryType with
    | queryType t => exact (QueryType.select_mirror query hw).discard
    | _ => exact .fail _
  cases T with
  | criteria | query => exact select
  | subquery | existence => exact ContextId.update_mirror hc (Context.select_alike hw)

/-- A build of its own delivers alike, whatever frames it is in. -/
theorem deliver_mirror (hT : T.nests = false) (hs : s.Within F) (hc : F.address .contexts c.index) :
    MirrorAt framed ρ F (T.deliver s c) (T.deliver (s.rename ρ) (c.rename ρ)) := by
  have query : (Value.context c).Within F := hc
  have report : MirrorAt framed ρ F (s.report (.context c))
      ((s.rename ρ).report (.context (c.rename ρ))) := by
    have self : Value.Within F (.stream s) := hs
    exact (shownNow_mirror query).bind fun _ _ => (shownNow_mirror self).bind fun _ _ => .pure trivial
  cases T with
  | criteria => exact (logLine_mirror report).bind fun _ _ => .pure query
  | query =>
    refine (logLine_mirror report).bind fun _ _ => ?_
    rw [s.rename_queryType]
    cases s.queryType with
    | queryType t =>
      change MirrorAt framed ρ F (s.issue t _) ((s.rename ρ).issue (t.rename ρ) _)
      unfold Stream.issue
      rw [s.rename_session, s.rename_params, s.rename_options, s.rename_firstResult,
        s.rename_maxResults]
      refine (QueryType.createQuery_mirror hs.session query).bind fun q hq => ?_
      refine (QueryId.read_mirror hq).bind fun x hx => ?_
      refine (MappingId.update_mirror hx.params hs.params).bind fun _ _ => ?_
      refine (MappingId.update_mirror hx.options hs.options).bind fun _ _ => ?_
      obtain ⟨kind, session, query, params, options, first, max⟩ := x
      refine .bind (QueryId.write_mirror (x := ⟨kind, session, query, params, options, _, _⟩)
        ⟨hx.session, hx.query, hx.params, hx.options⟩) fun _ _ => ?_
      exact (Stream.logCompiled_mirror hs hq).bind fun _ _ => .pure (a := Value.query q) hq
    | _ => exact .fail _
  | subquery | existence => cases hT

end Terminal

/-- A machine renamed to itself keeps all its numbers and addresses. -/
theorem Renaming.resume_self_fixes {e : Extent} (pos : 0 < e.next) (e' : Extent) :
    (resume e e (.refl e) pos).Fixes e' := by
  have still (a i : Nat) : shift a a i = i := by
    unfold shift
    split <;> omega
  exact ⟨fun i _ => still _ i, fun space i _ => still _ i⟩

theorem callAny_eval_mirror [F.Contextual] (depth : Nat) {f : Value} {args : List Value}
    (hf : f.Within F) (ha : ∀ v ∈ args, v.Within F) :
    Mirror ρ F (callAny (eval depth) f args)
      (callAny (eval depth) (f.rename ρ) (args.map (Value.rename ρ))) :=
  callAny_mirror (eval_mirror depth) hf ha

theorem Configurer.run_append (call : Call) (id : Nat) (origin : Origin) (xs ys : List Step)
    (builder query : Value) :
    Configurer.run call ⟨id, origin, xs ++ ys⟩ builder query = (do
      let v ← Configurer.run call ⟨id, origin, xs⟩ builder query
      Step.applyAll call builder query v ys) := by
  simp only [Configurer.run, Step.applyAll_append, bind_assoc]

/-! ### Configurations in two parts -/

section Parts

variable {W : Moment} {id : Nat} {origin : Origin} {front later : List Step}

theorem Configurer.Known.parts (h : Configurer.Known W ⟨id, origin, front ++ later⟩) :
    Configurer.Known W ⟨id, origin, front⟩ ∧ Step.AllKnown W later := by
  obtain ⟨given, known, steps⟩ := h
  have each := Step.allKnown_iff.mp steps
  exact ⟨⟨given, known, Step.allKnown_iff.mpr fun p hp => each p (List.mem_append_left _ hp)⟩,
    Step.allKnown_iff.mpr fun p hp => each p (List.mem_append_right _ hp)⟩

theorem Configurer.Within.parts (h : Configurer.Within F ⟨id, origin, front ++ later⟩) :
    Configurer.Within F ⟨id, origin, front⟩ ∧ ∀ step ∈ later, step.Within F :=
  ⟨⟨h.origin, Step.allWithin_iff.mpr fun p hp => h.steps p (List.mem_append_left _ hp)⟩,
    fun p hp => h.steps p (List.mem_append_right _ hp)⟩

/-- Steps that a renaming fixes are taken alike. -/
theorem Step.applyAll_mirror_self [F.Contextual] (depth : Nat) {builder query v : Value}
    {steps : List Step} (hb : builder.Known W) (hq : query.Known W) (hv : v.Known W)
    (hs : Step.AllKnown W steps) (fixes : ρ.Fixes W.extent) (builderIn : builder.Within F)
    (queryIn : query.Within F) (inside : v.Within F) (reads : ∀ step ∈ steps, step.Within F) :
    Mirror ρ F (Step.applyAll (callAny (eval depth)) builder query v steps)
      (Step.applyAll (callAny (eval depth)) builder query v steps) := by
  have mirrored := Step.applyAll_mirror (callAny_eval_mirror (ρ := ρ) depth) builderIn queryIn inside
    reads
  rwa [hb.fixed fixes, hq.fixed fixes, hv.fixed fixes, ← Step.renameAll_eq, hs.fixed fixes]
    at mirrored

end Parts

/-- Builds that settle their queries by the same, from machines that are alike, end alike. -/
theorem Stream.Twin.runs_alike {s t : Stream} {T : Terminal} {o : Opening} {call : Call}
    {x : Run Unit} {n' : Machine} (twin : s.Twin t) (ho : T.opening s m = .ok o)
    (first : exec (T.settled call s m o) (o.inside m) = exec x n)
    (second : exec (T.settled call t m o) (o.inside m) = exec x n') (settles : Mirror ρ F x x)
    (delivers : MirrorAt false ρ F (T.deliver s m.nextContext) (T.deliver s m.nextContext))
    (alike : Alike true ρ F n n') :
    Counterpart ρ F (exec (T.run call s) m).1 (exec (T.run call t) m).1 ∧
      Alike false ρ F (after (T.run call s) m) (after (T.run call t) m) := by
  unfold after
  have ho' := (twin.opening T m).trans ho
  obtain ⟨⟨result, -⟩, left⟩ := settles alike
  unfold after at left
  rcases hs' : exec x n' with ⟨r', p'⟩
  rw [hs'] at result left second
  rcases hs : exec x n with ⟨e | ⟨⟩, p⟩
  all_goals rw [hs] at result left first
  · obtain rfl : r' = .error e := result
    rw [Terminal.exec_run_of_unsettled ho first, Terminal.exec_run_of_unsettled ho' second]
    exact ⟨⟨rfl, nofun⟩, left.left o.machine _ _⟩
  · obtain rfl : r' = .ok () := result
    rw [Terminal.exec_run_of_settled ho first, Terminal.exec_run_of_settled ho' second,
      twin.deliver]
    exact delivers (left.left o.machine _ _)

section Skipping

variable {s t : Stream} {T : Terminal} {o : Opening} {W : Moment} {id : Nat} {origin : Origin}
  {front later : List Step} {v : Value} (depth : Nat) (hT : T.nests = false) (hm : m.Known W)
  (hs : s.Known W) (within : s.Within F) (closed : m.Revisited F m)
  (shape : s.configurer = .configurer ⟨id, origin, front ++ later⟩) (ho : T.opening s m = .ok o)
  (came : exec (Configurer.run (callAny (eval depth)) ⟨id, origin, front⟩ o.builder m.nextQuery)
    (o.inside m) = (.ok v, n))

include hT hm hs within closed shape ho came

/-- Where a build comes to, all is known, and leads out of the footprint no more than before. -/
theorem Stream.comes_to_known [F.Contextual] :
    ∃ w σ, W.Le w ∧ o.builder.Known w ∧ m.nextQuery.Known w ∧ n.Known w ∧ v.Known w ∧
      v.Within F ∧ Alike true σ F n n := by
  have query : m.nextQuery.Within F := closed.contexts.later _ (Nat.le_refl _)
  have builder := Terminal.opening_builder_within (F := F) hT ho
  have known : (Value.configurer ⟨id, origin, front ++ later⟩).Known W :=
    shape ▸ hs.parts.configurer
  have reads : (Value.configurer ⟨id, origin, front ++ later⟩).Within F := shape ▸ within.configurer
  obtain ⟨knownFront, -⟩ := Configurer.Known.parts known
  obtain ⟨withinFront, -⟩ := Configurer.Within.parts reads
  obtain ⟨w₁, le₁, hb, hq, started⟩ := Terminal.inside_known hT ho hm hs
  have sound := Configurer.run_sound (callAny_eval_sound depth) hb hq
    (Configurer.Known.mono le₁ knownFront)
  obtain ⟨w₂, le₂, known, given⟩ := sound _ started
  rw [came] at given
  rw [after_eq came] at known
  -- nothing is renamed on the machine itself
  let σ := Renaming.resume m.extent m.extent (.refl _) hm.positive
  have still (e : Extent) : σ.Fixes e := Renaming.resume_self_fixes hm.positive e
  have mirrored := Configurer.run_mirror (callAny_eval_mirror (ρ := σ) depth) builder query
    withinFront
  rw [hb.fixed (still _), hq.fixed (still _), knownFront.fixed (still _)] at mirrored
  have begun := Terminal.inside_alike hT ho within (hs.parts.queryType.fixed (still _))
    (closed.alike hm.wellMade)
  obtain ⟨given', alike⟩ := mirrored begun
  rw [came] at given'
  rw [after_eq came] at alike
  exact ⟨w₂, _, le₁.trans le₂, hb.mono le₂, hq.mono le₂, known, given v rfl, given'.within v rfl,
    alike⟩

/-- If one build takes a number for nothing at some point of its configuration and otherwise goes on
like another, they end alike. -/
theorem Stream.runs_alike_of_skipped (twin : s.Twin t)
    (goes : exec (configure (callAny (eval depth)) t.configurer o.builder m.nextQuery) (o.inside m) =
      exec (Step.applyAll (callAny (eval depth)) o.builder m.nextQuery v later) n.skipped) :
    ∃ ρ : Renaming, ρ.Fixes m.extent ∧
      Counterpart ρ F (exec (T.run (callAny (eval depth)) s) m).1
        (exec (T.run (callAny (eval depth)) t) m).1 ∧
      Alike false ρ F (after (T.run (callAny (eval depth)) s) m)
        (after (T.run (callAny (eval depth)) t) m) := by
  have : F.Contextual := ⟨_, closed.contexts.later _ (Nat.le_refl _)⟩
  obtain ⟨w, σ, le, hb, hq, hn, hv, inside, alike⟩ :=
    Stream.comes_to_known depth hT hm hs within closed shape ho came
  let ρ := Renaming.resume n.extent n.skipped.extent n.le_skipped hn.positive
  have fixes : ρ.Fixes w.extent := Renaming.resume_fixes_known hn n.le_skipped
  have query : F.address .contexts m.nextContext.index := closed.contexts.later _ (Nat.le_refl _)
  have self : s.rename ρ = s := (Stream.Known.mono le hs).fixed fixes
  have address : m.nextContext.rename ρ = m.nextContext := Value.context.inj (hq.fixed fixes)
  have known : (Value.configurer ⟨id, origin, front ++ later⟩).Known w :=
    Value.Known.mono le (shape ▸ hs.parts.configurer)
  have reads : (Value.configurer ⟨id, origin, front ++ later⟩).Within F := shape ▸ within.configurer
  have rest := Step.applyAll_mirror_self depth hb hq hv (Configurer.Known.parts known).2 fixes
    (Terminal.opening_builder_within hT ho) query inside (Configurer.Within.parts reads).2
  let settling : Run Unit := do
    T.settle s m.nextContext (← Step.applyAll (callAny (eval depth)) o.builder m.nextQuery v later)
  have settles : Mirror ρ F settling settling := by
    refine rest.bind fun x hx => ?_
    have settle := T.settle_mirror (ρ := ρ) (s := s) query hx
    rwa [self, address] at settle
  have delivers : MirrorAt false ρ F (T.deliver s m.nextContext) (T.deliver s m.nextContext) := by
    have deliver : MirrorAt false ρ F _ _ := Terminal.deliver_mirror hT within query
    rwa [self, address] at deliver
  have first : exec (T.settled (callAny (eval depth)) s m o) (o.inside m) = exec settling n := by
    unfold Terminal.settled
    rw [shape]
    refine exec_bind_congr ?_ _
    exact (congrArg (exec · _) (Configurer.run_append ..)).trans (exec_bind_of_ok came _)
  have second : exec (T.settled (callAny (eval depth)) t m o) (o.inside m) =
      exec settling n.skipped := by
    simp only [Terminal.settled, twin.settle]
    exact exec_bind_congr goes _
  refine ⟨ρ, ?_, twin.runs_alike ho first second settles delivers (alike.skipped hn)⟩
  rw [← hm.extent]
  exact fixes.mono le.extent

end Skipping

end FluentQuery
