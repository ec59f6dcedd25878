import FluentQuery.Proofs.Preview.Resuming

/-! Applying filters on their own, and applying them among other steps. If the other steps leave alone
what the predicates read, both fail alike, or restrict the query alike. -/

namespace FluentQuery

open Sql

/-- What a filter reads its condition by. -/
def Step.filtering? : Step → Option Projection
  | filter (.queryType _) p => some p
  | _ => none

theorem Step.exists_filter {step : Step} {p : Projection} (h : step.filtering? = some p) :
    ∃ t, step = filter (.queryType t) p := by
  unfold filtering? at h
  split at h
  · cases h
    exact ⟨_, rfl⟩
  · cases h

/-- A filter asks its predicate and nothing else. -/
theorem Step.exec_filter_congr {call call' : Call} {queryType builder query selection : Value}
    {p : Projection} {m : Machine}
    (h : exec (p.read call selection) m = exec (p.read call' selection) m) :
    exec ((filter queryType p).apply call builder query selection) m =
      exec ((filter queryType p).apply call' builder query selection) m := by
  unfold apply
  dsimp only
  rw [exec_bind, exec_bind, h]

/-- A filter leaves the selection. -/
theorem Step.filter_selection {call : Call} {queryType builder query v w : Value} {p : Projection}
    {m m' : Machine}
    (h : exec ((filter queryType p).apply call builder query v) m = (.ok w, m')) : w = v := by
  obtain ⟨_, _, -, h⟩ := exec_bind_eq_ok.mp h
  obtain ⟨_, _, -, h⟩ := exec_bind_eq_ok.mp h
  obtain ⟨_, _, -, h⟩ := exec_bind_eq_ok.mp h
  cases queryType with
  | queryType t =>
    obtain ⟨_, _, -, h⟩ := exec_bind_eq_ok.mp h
    exact (exec_pure_eq_ok.mp h).1.symm
  | _ => cases h

/-- From this selection and machine on, the predicates of the steps keep aloof from query contexts.
What the other steps do succeeds, and leaves the selection as it was, the restriction of the query at
`c`, and whatever the footprint covers. -/
def StandAside (F : Footprint) (depth : Nat) (builder : Value) (c : ContextId) (v : Value) :
    List Step → Machine → Prop
  | [], _ => True
  | step :: steps, m =>
    let call := callAny (eval depth)
    (match step.filtering? with
      | some p => exec (p.read call v) m = exec (p.read (aloofCall depth) v) m
      | none => ∃ m', exec (step.apply call builder (.context c) v) m = (.ok v, m') ∧
          m.Retains F m' ∧ SameRestriction c m m') ∧
    ∀ w m', exec (step.apply call builder (.context c) v) m = (.ok w, m') →
      StandAside F depth builder c w steps m'

/-- The run on `n` is one that the run on `l` has kept up with: the query at `c'` is restricted as that
at `c` is. Between the moment `W` and now the machine `n` has stored nothing that is not known. -/
structure Follows (F : Footprint) (b : Machine) (W : Moment) (c c' : ContextId)
    (builder builder' : Value) (l n : Machine) (ρ : Renaming) (w : Moment) : Prop extends
    Tracks true true Context.bare ρ F c c' l n where
  fixes : ρ.Fixes b.extent
  known : n.Known w
  since : W.Le w
  built : builder' = builder.rename ρ

variable {F : Footprint} {b l n : Machine} {W w : Moment} {c c' : ContextId} {builder builder' : Value}
  {ρ : Renaming}

/-- If more is done on the second machine that leaves alone what is followed, the first one has still
kept up with it. -/
theorem Follows.aside (h : Follows F b W c c' builder builder' l n ρ w) (covers : F.Covers b)
    (le : b.extent.Le W.extent) (hb : builder'.Known W) {x : Run Value} (sound : Sound w x) {v : Value}
    {o : Machine} (run : exec x n = (.ok v, o)) (retains : n.Retains F o)
    (stack : SameStack n o) (same : SameRestriction c' n o) :
    ∃ σ w', Follows F b W c c' builder builder' l o σ w' := by
  obtain ⟨w', later, known, -⟩ := sound n h.known
  rw [after_eq run] at known
  have fixed := Renaming.resume_fixes_known h.known retains.extent
  refine ⟨_, w', { h.toTracks.resumed covers h.fixes h.known retains stack same with
    fixes := h.fixes.comp fixed (le.trans h.since.extent)
    known := known
    since := h.since.trans later
    built := ?_ }⟩
  rw [Value.rename_comp, ← h.built]
  exact ((hb.mono h.since).fixed fixed).symm

section Steps

variable {depth : Nat} {v : Value}

/-- What a build starts from is known from the moment `W` on, and what its filters read was made
before. -/
structure Prepared (F : Footprint) (b : Machine) (W : Moment) (c' : ContextId) (builder' v : Value)
    (steps : List Step) : Prop where
  le : b.extent.Le W.extent
  builder : builder'.Known W
  query : (Value.context c').Known W
  selection : v.Known W
  known : ∀ step ∈ steps, step.Known W
  made : Made b.extent v
  within : v.Within F
  predicates : ∀ p ∈ steps.filterMap Step.filtering?, Made b.extent p ∧ p.Within F

theorem Prepared.tail {step : Step} {steps : List Step}
    (h : Prepared F b W c' builder' v (step :: steps)) : Prepared F b W c' builder' v steps where
  le := h.le
  builder := h.builder
  query := h.query
  selection := h.selection
  known s hs := h.known s (List.mem_cons_of_mem _ hs)
  made := h.made
  within := h.within
  predicates p hp := h.predicates p (by
    rw [List.filterMap_cons]
    split
    · exact hp
    · exact List.mem_cons_of_mem _ hp)

theorem Prepared.apply_sound {step : Step} {steps : List Step}
    (h : Prepared F b W c' builder' v (step :: steps)) (since : W.Le w) :
    Sound w (step.apply (callAny (eval depth)) builder' (.context c') v) :=
  step.apply_sound (callAny_eval_sound depth) (h.builder.mono since) (h.query.mono since)
    (h.selection.mono since) ((h.known step List.mem_cons_self).mono since)

/-- A filter does the same in both runs. -/
theorem Follows.filter (h : Follows F b W c c' builder builder' l n ρ w) (apart : ¬F.Contextual)
    {t : QueryType} {p : Projection} {steps : List Step}
    (ready : Prepared F b W c' builder' v (.filter (.queryType t) p :: steps)) (blank : QueryType)
    (reads : exec (p.read (callAny (eval depth)) v) n = exec (p.read (aloofCall depth) v) n) :
    let left := Step.apply (aloofCall depth) builder (.context c) v (.filter (.queryType blank) p)
    let right := Step.apply (callAny (eval depth)) builder' (.context c') v (.filter (.queryType t) p)
    (exec right n).1 = (exec left l).1.map (Value.rename ρ) ∧
      ∃ w', Follows F b W c c' builder builder' (after left l) (after right n) ρ w' := by
  intro left right
  obtain ⟨made, within⟩ := ready.predicates p (by simp [Step.filtering?])
  have calls {f : Value} {args : List Value} (hf : f.Within F) (ha : ∀ v ∈ args, v.Within F) :
      MirrorOn (Tracks true true Context.bare ρ F c c') ρ F (aloofCall depth f args)
        (aloofCall depth (f.rename ρ) (args.map (Value.rename ρ))) :=
    call_tracked (aloofCall_discreet depth) (aloofCall_mirror apart depth) hf ha
  have mirrored := Step.filter_handled (Tracks.handles apart) Context.restriction_bare
    Context.restrict_through_bare calls builder (.context ⟨rfl, rfl⟩) ready.within
    (.queryType blank) (.queryType t) (by simp) within
  obtain ⟨result, tracks⟩ := mirrored h.toTracks
  rw [show p.rename ρ = p from made ρ h.fixes, show v.rename ρ = v from ready.made ρ h.fixes,
    ← h.built] at result tracks
  have same : exec right n = exec (Step.apply (aloofCall depth) builder' (.context c') v
      (.filter (.queryType t) p)) n := Step.exec_filter_congr reads
  unfold after at tracks ⊢
  rw [← same] at result tracks
  have sound : Sound w right := ready.apply_sound h.since
  obtain ⟨w', later, known, -⟩ := sound n h.known
  exact ⟨result.eq, w', { tracks with
    fixes := h.fixes
    known := known
    since := h.since.trans later
    built := h.built }⟩

/-- However other steps stand between filters, the run fails as the filters on their own do, or
restricts its query as they do. -/
theorem Follows.applyAll (covers : F.Covers b) (blank : QueryType) {steps : List Step}
    (h : Follows F b W c c' builder builder' l n ρ w) (ready : Prepared F b W c' builder' v steps)
    (aside : StandAside F depth builder' c' v steps n) :
    let filters := (steps.filterMap Step.filtering?).map (Step.filter (.queryType blank))
    let left := Step.applyAll (aloofCall depth) builder (.context c) v filters
    let right := Step.applyAll (callAny (eval depth)) builder' (.context c') v steps
    (∀ e l', exec left l = (.error e, l') → ∃ n', exec right n = (.error e, n')) ∧
      ∀ u l', exec left l = (.ok u, l') →
        ∃ n' σ w', exec right n = (.ok v, n') ∧ Follows F b W c c' builder builder' l' n' σ w' := by
  induction steps generalizing l n ρ w with
  | nil =>
    refine ⟨fun e l' failed => (by cases failed), fun u l' ran => ?_⟩
    obtain ⟨-, rfl⟩ := exec_pure_eq_ok.mp ran
    exact ⟨n, ρ, w, rfl, h⟩
  | cons step steps ih =>
    obtain ⟨first, rest⟩ := aside
    cases hp : step.filtering? with
    | some p =>
      rw [hp] at first
      obtain ⟨t, rfl⟩ := Step.exists_filter hp
      obtain ⟨result, w', follows⟩ := h.filter covers.apart ready blank first
      rw [List.filterMap_cons_some hp, List.map_cons]
      rcases hl : exec (Step.apply (aloofCall depth) builder (.context c) v
        (.filter (.queryType blank) p)) l with ⟨e | u, l₁⟩
      all_goals
        rcases hr : exec (Step.apply (callAny (eval depth)) builder' (.context c') v
          (.filter (.queryType t) p)) n with ⟨r, n₁⟩
        rw [hl, hr] at result
      · obtain rfl : r = .error e := result
        refine ⟨fun e' l' failed => ?_, fun u l' ran => ?_⟩
        · obtain ⟨same, -⟩ := Prod.mk.inj ((exec_bind_of_error hl _).symm.trans failed)
          obtain rfl := Except.error.inj same
          exact ⟨n₁, exec_bind_of_error hr _⟩
        · cases (exec_bind_of_error hl _).symm.trans ran
      · obtain rfl := Step.filter_selection hl
        obtain rfl : r = .ok u := result.trans (congrArg Except.ok (ready.made ρ h.fixes))
        rw [after_eq hl, after_eq hr] at follows
        obtain ⟨fails, goes⟩ := ih follows ready.tail (rest _ _ hr)
        refine ⟨fun e l' failed => ?_, fun w l' ran => ?_⟩
        · obtain ⟨n', failed⟩ := fails e l' ((exec_bind_of_ok hl _).symm.trans failed)
          exact ⟨n', (exec_bind_of_ok hr _).trans failed⟩
        · obtain ⟨n', σ, w', went, last⟩ := goes w l' ((exec_bind_of_ok hl _).symm.trans ran)
          exact ⟨n', σ, w', (exec_bind_of_ok hr _).trans went, last⟩
    | none =>
      rw [hp] at first
      obtain ⟨o, ran, retains, same⟩ := first
      have stack : SameStack n o :=
        (Step.apply_keeps (callAny_eval_keeps depth) _ _ _ _).of_exec ran
      obtain ⟨σ, w', follows⟩ := h.aside covers ready.le ready.builder (ready.apply_sound h.since) ran
        retains stack same
      rw [List.filterMap_cons_none hp]
      obtain ⟨fails, goes⟩ := ih follows ready.tail (rest _ _ ran)
      refine ⟨fun e l' failed => ?_, fun u l' left => ?_⟩
      · obtain ⟨n', failed⟩ := fails e l' failed
        exact ⟨n', (exec_bind_of_ok ran _).trans failed⟩
      · obtain ⟨n', σ', w'', went, last⟩ := goes u l' left
        exact ⟨n', σ', w'', (exec_bind_of_ok ran _).trans went, last⟩

end Steps

end FluentQuery
