import FluentQuery.Database
import Mathlib.Data.List.Induction

/-! The one connection of a process, over any sequence of calls. The engine and the session factory
are set together and unset together, and they are those of the last connect that succeeded, unless
the connection was closed since. -/

namespace FluentQuery.Database

/-- What the calls rely on: only making an engine may fail. -/
structure Toolkit.Reliable (toolkit : Toolkit) : Prop where
  makesFactories : ∀ i, toolkit.factoryFailure? i = none
  disposes : ∀ i, toolkit.disposalFailure? i = none

inductive Call where
  | connect (defaults : Defaults) (url : Datum) (options : List (String × Datum))
  | engine
  | factory
  | close

inductive Reply where
  | connected (engine : EngineOptions)
  | engine (i : Nat)
  | factory (f : SessionFactory)
  | closed

/-- What a call gives: a reply, or a failure. -/
abbrev Result := Except Fault Reply

def Call.run (toolkit : Toolkit) (s : State) : Call → Result × State
  | connect defaults url options =>
    let (r, s) := connectWith toolkit defaults url options s
    (r.map .connected, s)
  | engine => ((currentEngine s).map .engine, s)
  | factory => ((currentFactory s).map .factory, s)
  | close =>
    let (r, s) := closeWith toolkit s
    (r.map fun _ => .closed, s)

namespace Result

def connects : Result → Bool
  | .ok (.connected _) => true
  | _ => false

def closes : Result → Bool
  | .ok .closed => true
  | _ => false

theorem not_closes_of_connects {r : Result} (h : r.connects) : ¬r.closes := by
  cases r with
  | error e => cases h
  | ok reply => cases reply <;> simp_all [connects, closes]

end Result

/-- Engine `i`, counted by the connects that succeeded, is that of the last one, and there was no
close since. -/
def MadeLast (results : List Result) (i : Nat) : Prop :=
  ∃ before r after, results = before ++ r :: after ∧ r.connects ∧
    (∀ x ∈ after, ¬x.connects ∧ ¬x.closes) ∧ before.countP Result.connects = i

/-- An item of a list with one more is the last one, or one of the list before. -/
theorem concat_eq_append_cons {α : Type} {xs before after : List α} {last x : α} :
    xs ++ [last] = before ++ x :: after ↔
      before = xs ∧ x = last ∧ after = [] ∨
        ∃ init, after = init ++ [last] ∧ xs = before ++ x :: init := by
  constructor
  · intro split
    rcases List.eq_nil_or_concat after with rfl | ⟨init, y, rfl⟩
    · obtain ⟨rfl, same⟩ := List.append_inj' split rfl
      exact .inl ⟨rfl, (List.singleton_inj.mp same).symm, rfl⟩
    · rw [List.concat_eq_append, ← List.cons_append, ← List.append_assoc] at split
      obtain ⟨rfl, same⟩ := List.append_inj' split rfl
      obtain rfl := List.singleton_inj.mp same
      exact .inr ⟨init, List.concat_eq_append, rfl⟩
  · rintro (⟨rfl, rfl, rfl⟩ | ⟨init, rfl, rfl⟩)
    · rfl
    · simp

section MadeLast

variable {results : List Result} {r : Result} {i : Nat}

theorem madeLast_concat_of_connects (h : r.connects) :
    MadeLast (results ++ [r]) i ↔ results.countP Result.connects = i := by
  constructor
  · rintro ⟨before, x, after, split, -, later, count⟩
    rcases concat_eq_append_cons.mp split with ⟨rfl, -, -⟩ | ⟨init, rfl, -⟩
    · exact count
    · exact absurd h (later r (by simp)).1
  · intro count
    exact ⟨results, r, [], rfl, h, by simp, count⟩

theorem not_madeLast_concat_of_closes (h : r.closes) : ¬MadeLast (results ++ [r]) i := by
  rintro ⟨before, x, after, split, connects, later, -⟩
  rcases concat_eq_append_cons.mp split with ⟨-, rfl, -⟩ | ⟨init, rfl, -⟩
  · exact Result.not_closes_of_connects connects h
  · exact (later r (by simp)).2 h

theorem madeLast_concat_of_other (hc : ¬r.connects) (hd : ¬r.closes) :
    MadeLast (results ++ [r]) i ↔ MadeLast results i := by
  constructor
  · rintro ⟨before, x, after, split, connects, later, count⟩
    rcases concat_eq_append_cons.mp split with ⟨-, rfl, -⟩ | ⟨init, rfl, rfl⟩
    · exact absurd connects hc
    · exact ⟨before, x, init, rfl, connects, fun y hy => later y (by simp [hy]), count⟩
  · rintro ⟨before, x, after, rfl, connects, later, count⟩
    refine ⟨before, x, after ++ [r], by simp, connects, fun y hy => ?_, count⟩
    rcases List.mem_append.mp hy with hy | hy
    · exact later y hy
    · obtain rfl := List.mem_singleton.mp hy
      exact ⟨hc, hd⟩

end MadeLast

/-! ### Single calls -/

/-- The engine and the factory are both unset, or both set, the factory over that engine. -/
def State.InStep (s : State) : Prop :=
  s.engine = none ∧ s.factory = none ∨ ∃ f, s.factory = some f ∧ s.engine = some f.engine

section Calls

variable {toolkit : Toolkit} (reliable : toolkit.Reliable) (s : State)

include reliable

/-- A connect is refused and changes nothing, or sets both. -/
theorem connectWith_cases (defaults : Defaults) (url : Datum) (options : List (String × Datum)) :
    (∃ e, connectWith toolkit defaults url options s = (.error e, s)) ∨
      ∃ engine, connectWith toolkit defaults url options s =
        (.ok engine, ⟨s.made + 1, some s.made, some ⟨s.made, false, false⟩⟩) := by
  unfold connectWith
  split
  · exact .inl ⟨_, rfl⟩
  split
  · exact .inl ⟨_, rfl⟩
  dsimp only
  split
  · exact .inl ⟨_, rfl⟩
  · rw [reliable.makesFactories]
    exact .inr ⟨_, rfl⟩

theorem closeWith_eq : closeWith toolkit s = (.ok (), close s) := by
  have disposed : s.engine.bind toolkit.disposalFailure? = none := by
    cases h : s.engine with
    | none => rfl
    | some i => exact reliable.disposes i
  unfold closeWith
  rw [disposed]

/-- A call either connects, closes, or leaves the state as it was. -/
theorem Call.run_cases (call : Call) {r : Result} {t : State}
    (h : call.run toolkit s = (r, t)) :
    r.connects ∧ t = ⟨s.made + 1, some s.made, some ⟨s.made, false, false⟩⟩ ∨
      r.closes ∧ t = Database.close s ∨ ¬r.connects ∧ ¬r.closes ∧ t = s := by
  cases call with
  | connect defaults url options =>
    unfold run at h
    dsimp only at h
    rcases connectWith_cases reliable s defaults url options with ⟨e, he⟩ | ⟨engine, he⟩
    all_goals
      rw [he] at h
      obtain ⟨rfl, rfl⟩ := Prod.mk.inj h
    · exact .inr (.inr ⟨nofun, nofun, rfl⟩)
    · exact .inl ⟨rfl, rfl⟩
  | engine =>
    obtain ⟨rfl, rfl⟩ := Prod.mk.inj h
    refine .inr (.inr ?_)
    cases currentEngine s <;> exact ⟨nofun, nofun, rfl⟩
  | factory =>
    obtain ⟨rfl, rfl⟩ := Prod.mk.inj h
    refine .inr (.inr ?_)
    cases currentFactory s <;> exact ⟨nofun, nofun, rfl⟩
  | close =>
    unfold run at h
    dsimp only at h
    rw [closeWith_eq reliable] at h
    obtain ⟨rfl, rfl⟩ := Prod.mk.inj h
    exact .inr (.inl ⟨rfl, rfl⟩)

end Calls

/-! ### Sequences of calls -/

/-- What holds after any calls: the state knows how many connects succeeded, and which engine is that
of the last. -/
structure Follows (results : List Result) (s : State) : Prop where
  made : s.made = results.countP Result.connects
  inStep : s.InStep
  engine : ∀ i, s.engine = some i ↔ MadeLast results i

theorem Follows.closed : Follows [] closed where
  made := rfl
  inStep := .inl ⟨rfl, rfl⟩
  engine i := by
    constructor
    · nofun
    · rintro ⟨before, r, after, split, -⟩
      simp at split

theorem Follows.run {results : List Result} {s t : State} {toolkit : Toolkit} {call : Call}
    {r : Result} (h : Follows results s) (reliable : toolkit.Reliable)
    (run : call.run toolkit s = (r, t)) : Follows (results ++ [r]) t := by
  rcases Call.run_cases reliable s call run with
    ⟨connects, rfl⟩ | ⟨closes, rfl⟩ | ⟨hc, hd, rfl⟩
  · refine ⟨by simp [connects, h.made], .inr ⟨_, rfl, rfl⟩, fun i => ?_⟩
    rw [madeLast_concat_of_connects connects, ← h.made]
    exact Option.some_inj
  · have unconnected : ¬r.connects := fun connects => Result.not_closes_of_connects connects closes
    refine ⟨by simp [unconnected, h.made, close], .inl ⟨rfl, rfl⟩, fun i => ?_⟩
    exact iff_of_false nofun (not_madeLast_concat_of_closes closes)
  · refine ⟨by simp [hc, h.made], h.inStep, fun i => ?_⟩
    rw [madeLast_concat_of_other hc hd]
    exact h.engine i

end FluentQuery.Database
