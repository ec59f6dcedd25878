import FluentQuery.Proofs.Laziness
import FluentQuery.Proofs.Provenance.Programs

/-! Streams are lazy and never change. A fluent operation calls nothing and leaves every store as it
was; and the stream that was made with a number is the only one that ever has it, so that whoever
holds the stream finds it as it was made. -/

namespace FluentQuery

/-- The stream that a value is, if it is one. -/
def Value.asStream? : Value → Option Stream
  | stream s => some s
  | _ => none

theorem Value.lookup_of_asStream? {globals : List (String × Value)} {name : String} {s : Stream}
    (h : (globals.lookup name).bind asStream? = some s) : globals.lookup name = some (stream s) := by
  obtain ⟨v, held, hv⟩ := Option.bind_eq_some_iff.mp h
  cases v with
  | stream => exact held.trans (congrArg (some ∘ stream) (Option.some.inj hv))
  | _ => cases hv

/-- Two known streams with one number are one stream. -/
theorem Stream.Known.unique {w : Moment} {s t : Stream} (hs : s.Known w) (ht : t.Known w)
    (h : t.id = s.id) : t = s := by
  have made := hs.stream?
  rw [← h, ht.stream?] at made
  exact Option.some.inj made

namespace Stream

/-- What a program reads off a stream by its properties is settled by the stream, and reading changes
nothing. The parameters and the execution options are read as new mappings of their own. -/
structure ReadsFixed (s : Stream) : Prop where
  params : ∀ m, exec (s.property? "params") m =
    (.ok (some (.mapping ⟨m.mappings.length⟩)), { m with mappings := m.mappings ++ [s.params] })
  options : ∀ m, exec (s.property? "execution_options") m =
    (.ok (some (.mapping ⟨m.mappings.length⟩)), { m with mappings := m.mappings ++ [s.options] })
  other : ∀ name, name ≠ "params" → name ≠ "execution_options" →
    ∃ v?, ∀ m, exec (s.property? name) m = (.ok v?, m)

theorem readsFixed (s : Stream) : s.ReadsFixed where
  params _ := rfl
  options _ := rfl
  other name params options := by
    unfold property?
    split
    case h_6 => exact absurd rfl params
    case h_7 => exact absurd rfl options
    all_goals exact ⟨_, fun _ => rfl⟩

end Stream

/-- A fluent operation, accepted or refused, comes to the same whatever calling a function would do,
and leaves every store as it was. At every moment of a program whatever is stored or computed is
known, and two streams with one number, known at whatever moments, are one: no step of a program
changes a stream. What is read off it is settled by it alone. -/
theorem streams_lazy_immutable (depth : Nat) :
    (∀ call call' s method a m, method ∈ Stream.fluentMethods →
      exec (invoke call (.stream s) method a) m = exec (invoke call' (.stream s) method a) m ∧
        Untouched m (after (invoke call (.stream s) method a) m)) ∧
    (∀ settings, (Machine.start settings).Known (.start settings)) ∧
    (∀ w scope e, Known w scope → Sound w (eval depth scope e)) ∧
    (∀ w m steps, m.Known w → ∃ w', w.Le w' ∧ (runSteps steps m).2.Known w') ∧
    (∀ (w w' : Moment) (s t : Stream), s.Known w → w.Le w' → t.Known w' → t.id = s.id → t = s) ∧
    ∀ s : Stream, s.ReadsFixed := by
  refine ⟨fun call call' s method a m h => ⟨?_, ?_⟩, Machine.start_known,
    fun w scope e hs => eval_sound depth hs e, fun w m steps hm => runSteps_known steps hm,
    fun w w' s t hs le ht same => (hs.mono le).unique ht same, Stream.readsFixed⟩
  · rw [Stream.exec_invoke_fluent call s h, Stream.exec_invoke_fluent call' s h,
      Stream.invoke_uncalled call call' s h]
  · unfold after
    rw [Stream.exec_invoke_fluent call s h]
    exact Stream.invoke_fluent_keeps call s h a m

/-- A stream that was filtered, asked for its parameters, which are then written to, and made into a
query whose bound and parameters are written to: the variable that still holds it holds what it
held. -/
theorem streams_lazy_immutable_written :
    let call (e : Expr) (method : String) (args : List Expr) (fields : List (String × Expr)) : Expr :=
      .call e method ⟨args, fields⟩
    let step (e : Expr) : ProgramStep := ⟨none, .block [e, .literal .null]⟩
    let s : Expr := .variable "s"
    let x : List (String × Expr) := [("x", .literal (.int 1))]
    let before : List ProgramStep := [step (.assign "s"
      (call (call (.variable "qb") "stream" [.entity .product] []) "with_params" [] x))]
    let later : List ProgramStep :=
      [step (call s "filter" [.function ["p"] (.get (.variable "p") "active")] []),
        step (call (.get s "params") "update" [] [("x", .literal (.int 2))]),
        step (.assign "q" (call s "to_query" [] [])),
        step (.set (.variable "q") "max_results" (.literal (.int 3))),
        step (call (.get (.variable "q") "params") "update" [] [("x", .literal (.int 4))]),
        step (.assign "same" s)]
    let m : Machine := (runSteps before (.start ⟨false, false, false⟩)).2
    let n : Machine := (runSteps later m).2
    ∃ u v, m.globals.lookup "s" = some (.stream u) ∧ n.globals.lookup "same" = some (.stream v) ∧
      u.params.isEmpty = false ∧ v = u := by
  intro call step s x before later m n
  obtain ⟨-, start, -, runs, unique, -⟩ := streams_lazy_immutable 0
  have held : (((m.globals.lookup "s").bind Value.asStream?).any fun u =>
      ((n.globals.lookup "same").bind Value.asStream?).any fun v =>
        !u.params.isEmpty && v.id == u.id) = true := by decide +kernel
  obtain ⟨u, hu, held⟩ := (Option.any_eq_true _ _).mp held
  obtain ⟨v, hv, held⟩ := (Option.any_eq_true _ _).mp held
  replace hu := Value.lookup_of_asStream? hu
  replace hv := Value.lookup_of_asStream? hv
  obtain ⟨given, number⟩ := (Bool.and_eq_true _ _).mp held
  obtain ⟨w, -, known⟩ := runs _ _ before (start ⟨false, false, false⟩)
  obtain ⟨w', le, known'⟩ := runs w m later known
  have hs : (Value.stream u).Known w := known_of_lookup (fun x hx => (known.globals x hx).2) hu
  have ht : (Value.stream v).Known w' := known_of_lookup (fun x hx => (known'.globals x hx).2) hv
  refine ⟨u, v, hu, hv, by simpa using given, ?_⟩
  exact unique w w' u v hs le ht (by simpa using number)

end FluentQuery
