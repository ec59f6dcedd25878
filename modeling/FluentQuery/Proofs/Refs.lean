import FluentQuery.Proofs.Laziness
import FluentQuery.Proofs.Refs.Builds

/-! The law of Refs. At every moment a Ref holds what was last written to it, whoever wrote it: a
program, or a step of a build. Making a step that binds writes nothing; building it binds, once. -/

namespace FluentQuery

/-! ### Reading and writing -/

/-- What can be read off the Refs of a machine is what was last written to them, and a write is
recorded behind the others. A bound Ref refuses a value and stays as it is. -/
structure Machine.ObeysHistory (m : Machine) : Prop where
  isBound : ∀ r : RefId, exec r.isBound m = (.ok (lastWritten (m.history r)).isSome, m)
  get : ∀ (r : RefId) v, exec r.read m = (.ok v, m) ↔ (m.history r).getLast? = some (some v)
  unbound : ∀ r : RefId, lastWritten (m.history r) = none → exec r.read m = (.error .unbound, m)
  refused : ∀ (r : RefId) v, (lastWritten (m.history r)).isSome →
    exec (r.bind v) m = (.error .alreadyBound, m)
  bound : ∀ (r : RefId) v, r.index < m.refs.length → lastWritten (m.history r) = none →
    ∃ m', exec (r.bind v) m = (.ok (), m') ∧ m'.history r = m.history r ++ [some v] ∧
      ∀ r' ≠ r, m'.history r' = m.history r'
  unbind : ∀ r : RefId, r.index < m.refs.length →
    ∃ m', exec r.unbind m = (.ok (), m') ∧ m'.history r = m.history r ++ [none] ∧
      ∀ r' ≠ r, m'.history r' = m.history r'

theorem Machine.Recorded.obeysHistory {m : Machine} (h : m.Recorded) : m.ObeysHistory where
  isBound r := by rw [exec_isBound, h.ref? r]
  get r v := by
    rw [← lastWritten_eq_some, ← h.ref? r]
    constructor
    · intro read
      cases held : m.ref? r with
      | none =>
        rw [RefId.exec_read_unbound held] at read
        cases read
      | some w =>
        rw [RefId.exec_read_bound held] at read
        rw [Except.ok.inj (Prod.mk.inj read).1]
    · exact RefId.exec_read_bound
  unbound r free := by
    rw [← h.ref? r] at free
    exact RefId.exec_read_unbound free
  refused r v held := by
    rw [← h.ref? r] at held
    rw [exec_bindRef, if_pos held]
  bound r v there free := by
    rw [← h.ref? r] at free
    refine ⟨m.write r (some v), exec_bindRef_eq_ok.mpr ⟨free, rfl⟩, ?_, fun r' differ => ?_⟩
    · exact history_write (h.length ▸ there) _
    · exact history_write_of_ne differ _ _
  unbind r there :=
    ⟨m.write r none, rfl, history_write (h.length ▸ there) _,
      fun _ differ => history_write_of_ne differ _ _⟩

theorem runSteps_recording (steps : List ProgramStep) (m : Machine) :
    Recording m (runSteps steps m).2 := by
  induction steps generalizing m with
  | nil => exact Inert.refl m
  | cons step steps ih =>
    rw [runSteps_cons]
    have cleared : Recording m { m with trace := [], log := [] } := .of_eq rfl rfl
    exact (cleared.trans (step.run_keeps _)).trans (ih _)

/-! ### Making steps that bind -/

theorem Configurer.configured_extend {v v' : Value} {step : Step} {m m' : Machine}
    (h : exec (Configurer.extend v step) m = (.ok v', m')) :
    v'.configured = v.configured ++ [step] := by
  unfold Configurer.extend at h
  rw [exec_bind_of_ok (exec_fresh m)] at h
  split at h
  · obtain ⟨rfl, -⟩ := exec_pure_eq_ok.mp h
    rfl
  · rename_i f notConfigurer
    obtain ⟨rfl, -⟩ := exec_pure_eq_ok.mp h
    cases v with
    | configurer c => exact (notConfigurer c rfl).elim
    | _ => rfl

namespace Stream

theorem binds_extend {s t : Stream} {step : Step} {m m' : Machine}
    (h : exec (s.extend step) m = (.ok t, m')) : t.binds = s.binds ++ step.ref?.toList := by
  obtain ⟨v, m₁, hv, h⟩ := exec_bind_eq_ok.mp h
  obtain ⟨id, m₂, -, h⟩ := exec_bind_eq_ok.mp h
  obtain ⟨rfl, rfl⟩ := exec_pure_eq_ok.mp h
  unfold binds
  rw [Configurer.configured_extend hv, Step.binds, Step.binds, List.filterMap_append,
    ← Step.binds, ← Step.binds, Step.binds_cons]
  simp [Step.binds]

end Stream

theorem exec_selector_of_ok {what : String} {target : Value} {m m' : Machine} {p : Projection}
    (h : exec (selector what target) m = (.ok p, m')) : m' = m := by
  obtain ⟨-, h⟩ := exec_guarded_eq_ok.mp h
  split at h
  · exact (exec_pure_eq_ok.mp h).2.symm
  · exact (exec_pure_eq_ok.mp h).2.symm
  · split at h
    · exact (exec_pure_eq_ok.mp h).2.symm
    · obtain ⟨c, m₁, -, h⟩ := exec_bind_eq_ok.mp h
      cases h

theorem exec_requireUnbound_eq (r : RefId) (m : Machine) : exec (requireUnbound (.ref r)) m =
    if (m.ref? r).isSome then (.error .alreadyBound, m) else (.ok r, m) := by
  unfold requireUnbound
  rw [exec_bind_of_ok (exec_isBound r m)]
  split <;> rfl

/-- A function that reads off a selection what is bound, or null for the selection itself. -/
def Value.SelectsAt (m : Machine) (f : Value) : Prop :=
  f.isNull = true ∨ ∃ p, exec (selector "ref function" f) m = (.ok p, m)

/-- Making a step that binds `r` leaves every Ref as it is. It is refused if `r` is bound already,
unless its other arguments are refused. -/
structure MakesBinding (s : Stream) (r : RefId) (m : Machine) : Prop where
  bind_untouched : ∀ f, Untouched m (after (s.bind (.ref r) f) m)
  addRoot_untouched : ∀ entity, Untouched m (after (s.addRoot (.ref r) entity) m)
  bind_refused : (m.ref? r).isSome → ∀ f : Value, f.SelectsAt m →
    exec (s.bind (.ref r) f) m = (.error .alreadyBound, m)
  addRoot_refused : (m.ref? r).isSome → ∀ entity : Value, entity.isNull = false →
    exec (s.addRoot (.ref r) entity) m = (.error .alreadyBound, m)
  bind_accepted : ∀ f t m', exec (s.bind (.ref r) f) m = (.ok t, m') →
    m.ref? r = none ∧ t.binds = s.binds ++ [r]
  addRoot_accepted : ∀ entity t m', exec (s.addRoot (.ref r) entity) m = (.ok t, m') →
    m.ref? r = none ∧ t.binds = s.binds ++ [r]

theorem makesBinding (s : Stream) (r : RefId) (m : Machine) : MakesBinding s r m := by
  have given : ¬(Value.ref r).isNull = true := Bool.false_ne_true
  have refuses (held : (m.ref? r).isSome) :
      exec (requireUnbound (.ref r)) m = (.error .alreadyBound, m) := by
    rw [exec_requireUnbound_eq, if_pos held]
  have accepts {r' : RefId} {m₁ : Machine}
      (h : exec (requireUnbound (.ref r)) m = (.ok r', m₁)) : m.ref? r = none ∧ r' = r := by
    rw [exec_requireUnbound_eq] at h
    split at h
    · cases h
    · rename_i free
      obtain ⟨hr, -⟩ := Prod.mk.inj h
      exact ⟨by simpa using free, (Except.ok.inj hr).symm⟩
  constructor
  · exact fun f => s.bind_keeps (.ref r) f m
  · exact fun entity => s.addRoot_keeps (.ref r) entity m
  · intro held f selects
    unfold Stream.bind
    rw [if_neg given]
    by_cases null : f.isNull = true
    · rw [if_pos null, exec_bind_of_ok (exec_pure _ m), exec_bind_of_error (refuses held)]
    · obtain ⟨p, hp⟩ := selects.resolve_left null
      rw [if_neg null, exec_bind_of_ok hp, exec_bind_of_error (refuses held)]
  · intro held entity there
    unfold Stream.addRoot
    rw [if_neg given, if_neg (by rw [there]; exact Bool.false_ne_true),
      exec_bind_of_error (refuses held)]
  · intro f t m' accepted
    unfold Stream.bind at accepted
    rw [if_neg given] at accepted
    have goes {p : Projection} (h : exec (do s.extend (.bind (← requireUnbound (.ref r)) p)) m =
        (.ok t, m')) : m.ref? r = none ∧ t.binds = s.binds ++ [r] := by
      obtain ⟨r', m₁, hr, rest⟩ := exec_bind_eq_ok.mp h
      obtain ⟨free, rfl⟩ := accepts hr
      exact ⟨free, Stream.binds_extend rest⟩
    by_cases null : f.isNull = true
    · rw [if_pos null] at accepted
      exact goes accepted
    · rw [if_neg null] at accepted
      obtain ⟨p, m₁, hp, h⟩ := exec_bind_eq_ok.mp accepted
      obtain rfl := exec_selector_of_ok hp
      exact goes h
  · intro entity t m' accepted
    unfold Stream.addRoot at accepted
    rw [if_neg given] at accepted
    obtain ⟨-, accepted⟩ := exec_guarded_eq_ok.mp accepted
    obtain ⟨r', m₁, hr, frozen⟩ := exec_bind_eq_ok.mp accepted
    obtain ⟨free, rfl⟩ := accepts hr
    obtain ⟨_, m₂, -, rest⟩ := exec_bind_eq_ok.mp frozen
    exact ⟨free, Stream.binds_extend rest⟩

/-! ### Builds -/

/-- What a build with these events does to Refs, if the functions it calls return and leave the
Refs there are alone. -/
structure BindsLawfully (call : Call) (T : Terminal) (s : Stream) (m : Machine) (es : List Event)
    (r : Except Error Value) (m' : Machine) : Prop where
  /-- A Ref that holds something keeps it, and so does every Ref the chain does not bind. -/
  kept : ∀ ref w, m.ref? ref = some w → m'.ref? ref = some w
  others : ∀ ref, ref.index < m.refs.length → ref ∉ s.binds → m'.ref? ref = m.ref? ref
  /-- A chain that was built bound each of its Refs once, which held nothing before. -/
  built : ∀ v, r = .ok v → s.binds.Nodup ∧ ∀ ref ∈ s.binds, m.ref? ref = none ∧
    ∃ e ∈ es, e.request = .bind ref ∧ ∃ w, e.result = .ok w ∧ m'.ref? ref = some w
  /-- A chain that binds a bound Ref, or one Ref twice, is not built. -/
  blocked : (∃ ref ∈ s.binds, (m.ref? ref).isSome) ∨ ¬s.binds.Nodup → ∃ e, r = .error e
  /-- The step that finds its Ref bound raises that error, if nothing before it fails. -/
  refused : ∀ before step o v n, Reaches call T s m before step o v n → ∀ ref u n',
    step.ref? = some ref → exec (step.work call o.builder m.nextQuery v) n = (.ok u, n') →
    (m.ref? ref).isSome ∨ ref ∈ Step.binds before → r = .error .alreadyBound
  /-- A step reads what an earlier step bound, or else what the Ref held before the build. -/
  read : ∀ before step o v n, Reaches call T s m before step o v n → ∀ ref,
    ref.index < m.refs.length →
    (ref ∉ Step.binds before → n.ref? ref = m.ref? ref) ∧
    (ref ∈ Step.binds before → ∃ e ∈ es, e.request = .bind ref ∧ ∃ w, e.result = .ok w ∧
      n.ref? ref = some w)
  /-- In a search of its own, sorting or grouping by a Ref is by what it holds at that moment, and
  fails if that is nothing. -/
  arranged : ∀ t, s.queryType = .queryType t → t.purpose = .search → T = .criteria ∨ T = .query →
    ∀ before step o v n, Reaches call T s m before step o v n → ∀ ref, step.ArrangesBy ref →
    (n.ref? ref = none → r = .error .unbound) ∧
    ∀ w, n.ref? ref = some w →
      exec (step.apply call o.builder m.nextQuery v) n = exec (do
        let _ ← step.bySelection.apply call o.builder m.nextQuery w
        return v) n

/-- A build that cannot begin is quiet. -/
theorem BindsLawfully.of_error {call : Call} {T : Terminal} {s : Stream} {m m' : Machine} {e : Error}
    (opening : T.opening s m = .error e) (quiet : Silent m m') :
    BindsLawfully call T s m [] (.error e) m' where
  kept ref w h := by rwa [Machine.ref?, quiet.refs]
  others ref _ _ := by rw [Machine.ref?, quiet.refs, Machine.ref?]
  built v h := by cases h
  blocked _ := ⟨e, rfl⟩
  refused before step o v n h := by
    cases opening.symm.trans h.opens
  read before step o v n h := by
    cases opening.symm.trans h.opens
  arranged t _ _ _ before step o v n h := by
    cases opening.symm.trans h.opens

section Builds

variable {depth : Nat} {T : Terminal} {s : Stream} {m m₁ m' : Machine} {o : Opening}
  {es : List Event} {r r₁ : Except Error Value}

theorem bindsLawfully (opens : T.opening s m = .ok o)
    (run : Configures Idle (callAny (eval depth)) o.builder m.nextQuery s.configurer.origin
      s.configurer.configured (o.inside m) es r₁ m₁)
    (makes : Makes Silent (callAny (eval depth)) (fun k => T.run k s) m es r m')
    (fails : ∀ e, r₁ = .error e → r = .error e)
    (known : ∀ ref ∈ s.binds, ref.index < m.refs.length) (harmless : ∀ e ∈ es, e.IsHarmless) :
    BindsLawfully (callAny (eval depth)) T s m es r m' := by
  have binds : Binds m es m' := makes.linked.binds makes.happens harmless fun ref hr =>
    known ref (run.bound_prefix.subset hr)
  have success {v : Value} (hv : r = .ok v) : bound es = s.binds := by
    rcases r₁ with e | w
    · cases hv.symm.trans (fails e rfl)
    · exact run.bound_eq_of_ok
  have built {v : Value} (hv : r = .ok v) : s.binds.Nodup ∧ ∀ ref ∈ s.binds, m.ref? ref = none ∧
      ∃ e ∈ es, e.request = .bind ref ∧ ∃ w, e.result = .ok w ∧ m'.ref? ref = some w := by
    rw [← success hv]
    refine ⟨binds.once, fun ref hr => ?_⟩
    obtain ⟨e, he, hb⟩ := mem_bound.mp hr
    obtain ⟨free, w, hw, held⟩ := binds.news e he ref hb
    exact ⟨free, e, he, hb, w, hw, held⟩
  have result {e : Error} (h : (exec (T.run (callAny (eval depth)) s) m).1 = .error e) :
      r = .error e := by
    rwa [makes.exec_eq] at h
  constructor
  · exact fun ref w h => binds.kept h
  · exact fun ref there outside =>
      binds.others there fun h => outside (run.bound_prefix.subset h)
  · exact fun v hv => built hv
  · intro blocked
    rcases r with e | v
    · exact ⟨e, rfl⟩
    · obtain ⟨once, free⟩ := built rfl
      rcases blocked with ⟨ref, hr, held⟩ | twice
      · rw [(free ref hr).1] at held
        cases held
      · exact absurd once twice
  · intro before step o' v n reaches ref u n' hr work taken
    obtain rfl : o' = o := Except.ok.inj (reaches.opens.symm.trans opens)
    exact result (reaches.refused run harmless known hr work taken)
  · intro before step o' v n reaches ref there
    obtain rfl : o' = o := Except.ok.inj (reaches.opens.symm.trans opens)
    obtain ⟨other, earlier⟩ := reaches.holds run harmless known there
    refine ⟨other, fun h => ?_⟩
    obtain ⟨e, he, hb, -, held⟩ := earlier h
    exact ⟨e, he, hb, held⟩
  · intro t ht purpose hT before step o' v n reaches ref arranges
    obtain ⟨built, x, b, orders, hx, hk⟩ := reaches.search hT ht purpose
    rw [built]
    refine ⟨fun free => result (reaches.fails ?_), fun w held => ?_⟩
    · rw [built]
      exact congrArg Prod.fst (arranges.apply_unbound hx hk m.next v free)
    · exact arranges.apply_bound hx hk m.next v held

theorem harmless_of_uncalled {es : List Event} (h : called es = []) : ∀ e ∈ es, e.IsHarmless := by
  intro e he f hf
  have none := List.filterMap_eq_nil_iff.mp h e he
  rw [hf] at none
  cases none

end Builds

/-- At every moment of every program, and whenever a build calls a function, a Ref holds what was
last written to it, by the program or a step of a build, and reads as that; a bound Ref refuses a
value and keeps its own. What is bound stays so until it is unbound. Making a step that binds writes
nothing. A build by harmless functions binds the Refs of its chain in order, each once and only if
it holds nothing; else it fails, by the refused bind unless something before it fails. -/
theorem refs_follow_their_history (depth : Nat) :
    let call := callAny (eval depth)
    (∀ settings, (Machine.start settings).Recorded) ∧
    (∀ scope e m, Recording m (after (eval depth scope e) m)) ∧
    (∀ steps m, Recording m (runSteps steps m).2) ∧
    (∀ m : Machine, m.Recorded → m.ObeysHistory) ∧
    (∀ (m n : Machine) r v, m.Recorded → Recording m n → m.ref? r = some v →
      (∀ later, n.history r = m.history r ++ later → none ∉ later) → n.ref? r = some v) ∧
    (∀ s r m, MakesBinding s r m) ∧
    ∀ (T : Terminal) (s : Stream) (m : Machine), m.Recorded →
      (∀ ref ∈ s.binds, ref.index < m.refs.length) →
      ∃ es r m', exec (T.run call s) m = (r, m') ∧
        Makes Silent call (fun k => T.run k s) m es r m' ∧
        called es <+: s.configurer.origin.functions ++ s.configurer.configured.flatMap Step.functions ∧
        m'.Recorded ∧ (∀ e ∈ es, e.before.Recorded ∧ e.after.Recorded) ∧
        ((∀ e ∈ es, e.IsHarmless) → BindsLawfully call T s m es r m') := by
  intro call
  have tells (m : Machine) (scope : Scope) (e : Expr) : Recording m (after (eval depth scope e) m) :=
    eval_keeps depth scope e m
  refine ⟨.start, fun scope e m => tells m scope e, runSteps_recording,
    fun m h => h.obeysHistory, fun m n r v hm h bound kept => ?_, makesBinding,
    fun T s m recorded known => ?_⟩
  · obtain ⟨later, grown⟩ := h.grows r
    exact (h.held hm bound grown.symm (kept later grown.symm)).2
  · have kept {r : Except Error Value} {m' : Machine} (h : exec (T.run call s) m = (r, m')) :
        m'.Recorded :=
      ((T.run_keeps (R := Recording) (callAny_eval_keeps depth) s).of_exec h).recorded recorded
    rcases opening : T.opening s m with err | o
    · obtain ⟨m', makes⟩ := T.run_makes_of_error call opening
      refine ⟨[], _, m', makes.exec_eq, makes, List.nil_prefix, kept makes.exec_eq, by simp, fun _ => ?_⟩
      cases makes.linked with
      | nil quiet => exact .of_error opening quiet
    · obtain ⟨es, r₁, m₁, run⟩ := Configures.exists_run (L := Both Idle Recording) call o.builder
        m.nextQuery s.configurer.origin s.configurer.configured (o.inside m)
      have idle := run.mono fun _ _ => Both.left
      have inside := idle.makes
      simp only [← configure_eq] at inside
      obtain ⟨r, m', makes, fails, -⟩ := T.run_leads opening inside
      obtain ⟨silent, writes⟩ := Terminal.opening_inside opening
      have recording (e : Event) (he : e ∈ es) : Recording e.before e.after :=
        (inside.happens e he).keeps (callAny_eval_keeps depth)
      have upTo := run.makes.linked.to_before (R := Recording) (fun _ _ => Both.right) recording
      have begun : (o.inside m).Recorded := (Recording.of_eq silent.refs writes).recorded recorded
      refine ⟨es, r, m', makes.exec_eq, makes, run.called_prefix, kept makes.exec_eq, fun e he => ?_,
        bindsLawfully opening idle makes fails known⟩
      have before := (upTo e he).recorded begun
      exact ⟨before, (recording e he).recorded before⟩

/-- A chain that binds one Ref: its first build leaves the Ref bound, to the root, and every build
after that fails as long as the Ref is not unbound. -/
theorem refs_follow_their_history_rebuilt :
    let t : QueryType := ⟨1, .search, .mapped ⟨.product, none⟩⟩
    let s : Stream := ⟨3, .of .search, .null, .queryType t,
      .configurer ⟨2, .root (.mapped ⟨.product, none⟩), [.bind ⟨0⟩ .whole]⟩, .unset, .unset, [], []⟩
    let call := callAny (eval 0)
    let m : Machine := after RefId.new { Machine.initial ⟨false, false, false⟩ with next := 4 }
    ∃ m', exec (s.toContext call) m = (.ok (.context ⟨0⟩), m') ∧
      m'.ref? ⟨0⟩ = some (.mapped ⟨.product, none⟩) ∧
      ∀ (n : Machine) (T : Terminal), Recording m' n →
        (∀ later, n.history ⟨0⟩ = m'.history ⟨0⟩ ++ later → none ∉ later) →
        n.ref? ⟨0⟩ = m'.ref? ⟨0⟩ ∧ ∃ e, (exec (T.run call s) n).1 = .error e := by
  intro t s call m
  have recorded : m.Recorded := Machine.Recorded.newRef ⟨rfl, fun _ h => by cases h⟩
  obtain ⟨-, -, -, -, stays, -, builds⟩ := refs_follow_their_history 0
  have uncalled : s.configurer.origin.functions ++ s.configurer.configured.flatMap Step.functions = [] :=
    rfl
  have known {n : Machine} (h : 0 < n.refs.length) : ∀ ref ∈ s.binds, ref.index < n.refs.length := by
    intro ref hr
    obtain rfl := List.mem_singleton.mp (show ref ∈ [⟨0⟩] from hr)
    exact h
  have lawful {n : Machine} {T : Terminal} (h : n.Recorded) (there : 0 < n.refs.length) :
      ∃ es r n', exec (T.run call s) n = (r, n') ∧ n'.Recorded ∧
        BindsLawfully call T s n es r n' := by
    obtain ⟨es, r, n', run, -, calls, recorded', -, lawful⟩ := builds T s n h (known there)
    rw [uncalled] at calls
    exact ⟨es, r, n', run, recorded', lawful (harmless_of_uncalled (List.prefix_nil.mp calls))⟩
  obtain ⟨es, r, m', run, recorded', -⟩ := lawful (T := .criteria) recorded (by decide)
  have built : exec (s.toContext call) m = (.ok (.context ⟨0⟩), m') := by
    have first : (exec (s.toContext call) m).1 = .ok (.context ⟨0⟩) := rfl
    have last : after (s.toContext call) m = m' := after_eq run
    exact Prod.ext first last
  have bound : m'.ref? ⟨0⟩ = some (.mapped ⟨.product, none⟩) := by
    rw [← after_eq built]
    rfl
  refine ⟨m', built, bound, fun n T later kept => ?_⟩
  have held := stays m' n ⟨0⟩ _ recorded' later bound kept
  refine ⟨held.trans bound.symm, ?_⟩
  have there : 0 < n.refs.length := by
    by_contra outside
    simp [Machine.ref?, outside] at held
  obtain ⟨es', r', n', again, -, law⟩ := lawful (T := T) (later.recorded recorded') there
  obtain ⟨e, failed⟩ := law.blocked (.inl ⟨⟨0⟩, by decide, by rw [held]; rfl⟩)
  exact ⟨e, by rw [again, failed]⟩

/-- A chain sorted by `key` that binds `r`. Rebuilding it while `r` is bound, but `key` no more, fails
by the earlier step: no bind is refused. And a subquery sorted by the Ref it binds later fails
because subqueries cannot be sorted, not because that Ref is unbound. -/
theorem rebuild_fails_before_refused_bind :
    let call (e : Expr) (method : String) (args : List Expr) : Expr := .call e method ⟨args, []⟩
    let stream (e : Entity) : Expr := call (.variable "qb") "stream" [.entity e]
    let step (name? : Option String) (e : Expr) : ProgramStep := ⟨name?, .block [e, .literal .null]⟩
    let build : ProgramStep := step none (call (.variable "s") "to_criteria_query" [])
    let rebuilt : List ProgramStep :=
      [⟨some "r", .construct "Ref" ⟨[], []⟩⟩, ⟨some "key", .construct "Ref" ⟨[], []⟩⟩,
        step none (call (.variable "key") "bind" [.get (.entity .product) "name"]),
        step none (.assign "s" (call (call (stream .product) "order_by" [.variable "key"]) "bind"
          [.variable "r"])),
        build, step none (call (.variable "key") "unbind" []), build]
    let nested : List ProgramStep :=
      [⟨some "r", .construct "Ref" ⟨[], []⟩⟩,
        step none (.assign "t" (call (call (stream .review) "order_by" [.variable "r"]) "bind"
          [.variable "r"])),
        step none (.assign "s" (call (stream .product) "filter"
          [.function ["p"] (call (.variable "t") "exists" [])])),
        build]
    let run (steps : List ProgramStep) := runSteps steps (.start ⟨false, false, false⟩)
    let failures (steps : List ProgramStep) := (run steps).1.map fun a => failure? a.outcome
    failures rebuilt = [none, none, none, none, none, none, some .unbound] ∧
      ((run rebuilt).2.history ⟨0⟩).map Option.isSome = [true] ∧
      failures nested = [none, none, none, some (.arrangedSubquery .sort)] := by
  decide +kernel

end FluentQuery
