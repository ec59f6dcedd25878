import FluentQuery.Settings
import Mathlib.Data.List.Basic

/-! Settings that were loaded load again from themselves, whatever else is around. Their address is
the one given by the source of highest precedence, with the asynchronous driver in place of a plain
PostgreSQL scheme. -/

namespace FluentQuery.Settings

/-! ### Addresses -/

section Addresses

theorem toList_plainScheme_append (rest : String) :
    ("postgresql://" ++ rest).toList = plainScheme ++ rest.toList := by
  rw [String.toList_append]
  rfl

/-- What a plain PostgreSQL address looks like. -/
theorem isPrefixOf_plainScheme_iff {url : String} :
    plainScheme.isPrefixOf url.toList ↔ ∃ rest, url = "postgresql://" ++ rest := by
  rw [List.isPrefixOf_iff_prefix]
  constructor
  · rintro ⟨rest, split⟩
    refine ⟨String.ofList rest, String.toList_inj.mp ?_⟩
    rw [toList_plainScheme_append, String.toList_ofList, split]
  · rintro ⟨rest, rfl⟩
    exact ⟨rest.toList, (toList_plainScheme_append rest).symm⟩

theorem normalizeUrl_plain (rest : String) :
    normalizeUrl ("postgresql://" ++ rest) = "postgresql+asyncpg://" ++ rest := by
  rw [normalizeUrl, if_pos (isPrefixOf_plainScheme_iff.mpr ⟨rest, rfl⟩),
    toList_plainScheme_append, List.drop_left, String.ofList_append, String.ofList_toList]
  rfl

theorem normalizeUrl_of_ne {url : String} (other : ∀ rest, url ≠ "postgresql://" ++ rest) :
    normalizeUrl url = url := by
  refine if_neg fun plain => ?_
  obtain ⟨rest, same⟩ := isPrefixOf_plainScheme_iff.mp plain
  exact other rest same

/-- The asynchronous scheme does not begin with the plain one, whatever follows. -/
theorem asyncScheme_append_ne (rest rest' : String) :
    "postgresql+asyncpg://" ++ rest ≠ "postgresql://" ++ rest' := by
  intro same
  have tenth := congrArg (·.toList[10]?) same
  simp only [String.toList_append] at tenth
  rw [List.getElem?_append_left (by decide), List.getElem?_append_left (by decide)] at tenth
  exact absurd tenth (by decide)

theorem normalizeUrl_ne_plain (url rest : String) : normalizeUrl url ≠ "postgresql://" ++ rest := by
  by_cases plain : ∃ rest, url = "postgresql://" ++ rest
  · obtain ⟨rest', rfl⟩ := plain
    rw [normalizeUrl_plain]
    exact asyncScheme_append_ne rest' rest
  · rw [normalizeUrl_of_ne fun rest same => plain ⟨rest, same⟩]
    exact fun same => plain ⟨rest, same⟩

end Addresses

/-! ### Precedence -/

/-- `v` is the value of the last entry of a name in any case. -/
def LastNamed {α : Type} (name : String) (entries : List (String × α)) (v : α) : Prop :=
  ∃ before k after, entries = before ++ (k, v) :: after ∧ Text.lower k = Text.lower name ∧
    ∀ x ∈ after, Text.lower x.1 ≠ Text.lower name

/-- The first of several sources that give anything gives `d`. -/
inductive FirstGives : List (Datum → Prop) → Datum → Prop
  | here {source : Datum → Prop} {sources : List (Datum → Prop)} {d : Datum} :
      source d → FirstGives (source :: sources) d
  | later {source : Datum → Prop} {sources : List (Datum → Prop)} {d : Datum} :
      (∀ v, ¬source v) → FirstGives sources d → FirstGives (source :: sources) d

/-- What gives a value to a field, the highest precedence first: the initial values under its very
name, or else in any case; the environment; the file, where an entry may be without a value. -/
def Sources.tiers (s : Sources) (f : Field) : List (Datum → Prop) :=
  [fun d => ∃ before after, s.initial = before ++ (f.name, d) :: after ∧
      ∀ x ∈ before, x.1 ≠ f.name,
    fun d => LastNamed f.name s.initial d,
    fun d => ∃ text, LastNamed (namespaceName ++ f.name) s.environment text ∧ d = .text text,
    fun d => ∃ file text, s.file = some file ∧
      LastNamed (namespaceName ++ f.name) (VariableFile.readText s.environment file) (some text) ∧
      d = .text text]

/-- `d` is the value of a field in the source of highest precedence that has one. -/
def Sources.Gives (s : Sources) (f : Field) (d : Datum) : Prop :=
  FirstGives (s.tiers f) d

theorem lastNamed_eq_some_iff {α : Type} {name : String} {entries : List (String × α)} {v : α} :
    lastNamed name entries = some v ↔ LastNamed name entries v := by
  rw [lastNamed, Option.map_eq_some_iff]
  constructor
  · rintro ⟨⟨k, v⟩, found, rfl⟩
    obtain ⟨same, after, before, split, none⟩ := List.find?_eq_some_iff_append.mp found
    refine ⟨before.reverse, k, after.reverse, ?_, by simpa using same, fun x inside => ?_⟩
    · simpa using congrArg List.reverse split
    · simpa using none x (List.mem_reverse.mp inside)
  · rintro ⟨before, k, after, rfl, same, none⟩
    refine ⟨(k, v), List.find?_eq_some_iff_append.mpr ⟨by simpa using same, after.reverse,
      before.reverse, by simp, fun x inside => ?_⟩, rfl⟩
    simpa using none x (List.mem_reverse.mp inside)

/-- Asking one source after another finds what the first that gives anything gives. -/
theorem firstGives_iff {sources : List (Datum → Prop)} {answers : List (Option Datum)} {d : Datum}
    (each : List.Forall₂ (fun source answer => ∀ v, source v ↔ answer = some v) sources answers) :
    FirstGives sources d ↔ answers.foldr Option.or none = some d := by
  induction each with
  | nil => exact ⟨nofun, nofun⟩
  | @cons source answer sources answers first _ ih =>
    cases answer with
    | none =>
      have silent : ∀ v, ¬source v := fun v gives => nomatch (first v).mp gives
      rw [List.foldr_cons, Option.none_or, ← ih]
      constructor
      · rintro (gives | ⟨-, gives⟩)
        · exact absurd gives (silent d)
        · exact gives
      · exact .later silent
    | some v =>
      rw [List.foldr_cons, Option.some_or]
      constructor
      · rintro (gives | ⟨silent, -⟩)
        · exact (first d).mp gives
        · exact absurd ((first v).mpr rfl) (silent v)
      · exact fun same => .here ((first d).mpr same)

theorem gives_iff {s : Sources} {f : Field} {d : Datum} :
    s.Gives f d ↔ s.value? f = some d := by
  let answers : List (Option Datum) :=
    [s.initial.lookup f.name, lastNamed f.name s.initial,
      (lastNamed (namespaceName ++ f.name) s.environment).map .text,
      ((lastNamed (namespaceName ++ f.name)
        ((s.file.map (VariableFile.readText s.environment)).getD [])).bind id).map .text]
  suffices each : List.Forall₂ (fun source answer => ∀ v, source v ↔ answer = some v) (s.tiers f)
      answers by
    rw [Sources.Gives, firstGives_iff each, Sources.value?]
    simp [answers]
  refine .cons (fun v => ?_) <| .cons (fun v => ?_) <| .cons (fun v => ?_) <|
    .cons (fun v => ?_) .nil
  · simp [List.lookup_eq_some_iff, ne_comm]
  · exact lastNamed_eq_some_iff.symm
  · simp [← lastNamed_eq_some_iff, eq_comm (a := v)]
  · cases s.file with
    | none => simp [lastNamed]
    | some file => simp [Option.bind_eq_some_iff, ← lastNamed_eq_some_iff, eq_comm (a := v)]

/-! ### Loading again -/

variable {s : Sources} {t : Settings}

/-- The value of a field that was loaded. -/
def get (t : Settings) : Field → Datum
  | .databaseUrl => t.databaseUrl.elim .null .text
  | .echo => .bool t.echo
  | .logCompiledSql => .bool t.logCompiledSql
  | .allowUnfilteredBulk => .bool t.allowUnfilteredBulk

/-- The four fields as initial values. -/
def initial (t : Settings) : List (String × Datum) :=
  [Field.databaseUrl, .echo, .logCompiledSql, .allowUnfilteredBulk].map fun f => (f.name, t.get f)

theorem value?_initial (t : Settings) (environment : List (String × String))
    (file : Option String) (f : Field) :
    Sources.value? ⟨t.initial, environment, file⟩ f = some (t.get f) := by
  have found : t.initial.lookup f.name = some (t.get f) := by cases f <;> rfl
  rw [Sources.value?, found]
  rfl

theorem load_eq_ok_iff :
    load s = .ok t ↔ readUrl s = .ok t.databaseUrl ∧ readBool s .echo = .ok t.echo ∧
      readBool s .logCompiledSql = .ok t.logCompiledSql ∧
      readBool s .allowUnfilteredBulk = .ok t.allowUnfilteredBulk := by
  cases t
  rw [load]
  split
  · simp_all
  · rename_i failed
    simp only [reduceCtorEq, false_iff]
    exact fun ⟨url, echo, log, bulk⟩ => failed _ _ _ _ url echo log bulk

/-- A loaded address is one that was made from the given one, and none if none was given. -/
theorem readUrl_eq_ok_iff {url : Option String} :
    readUrl s = .ok url ↔
      ((∀ d, ¬s.Gives .databaseUrl d) ∧ url = none) ∨
      (s.Gives .databaseUrl .null ∧ url = none) ∨
      ∃ u, s.Gives .databaseUrl (.text u) ∧ url = some (normalizeUrl u) := by
  simp only [gives_iff, readUrl]
  cases s.value? .databaseUrl with
  | none => simp [eq_comm]
  | some d => cases d <;> simp [toText, Except.map, eq_comm]

theorem ne_plain_of_load (h : load s = .ok t) (rest : String) :
    t.databaseUrl ≠ some ("postgresql://" ++ rest) := by
  rcases readUrl_eq_ok_iff.mp (load_eq_ok_iff.mp h).1 with ⟨-, none⟩ | ⟨-, none⟩ | ⟨u, -, same⟩
  · rw [none]; nofun
  · rw [none]; nofun
  · rw [same]
    exact fun plain => normalizeUrl_ne_plain u rest (Option.some.inj plain)

theorem load_initial (other : ∀ rest, t.databaseUrl ≠ some ("postgresql://" ++ rest))
    (environment : List (String × String)) (file : Option String) :
    load ⟨t.initial, environment, file⟩ = .ok t := by
  have given := value?_initial t environment file
  have url : readUrl ⟨t.initial, environment, file⟩ = .ok t.databaseUrl := by
    rw [readUrl, given]
    cases same : t.databaseUrl with
    | none => simp [get, same, toText, Except.map]
    | some u =>
      have kept := normalizeUrl_of_ne fun rest plain => other rest (plain ▸ same)
      simp [get, same, toText, Except.map, kept]
  refine load_eq_ok_iff.mpr ⟨url, ?_, ?_, ?_⟩ <;> · rw [readBool, given]; rfl

/-- Loaded settings load again from their own four fields. Their address is none where no source
gives one or the one that counts gives null; else it is the text of that source, only that a plain
PostgreSQL scheme at its beginning names the asynchronous driver; so it never begins with a plain
one. -/
theorem load_stable (h : load s = .ok t) :
    (∀ environment file, load ⟨t.initial, environment, file⟩ = .ok t) ∧
    (∀ rest, t.databaseUrl ≠ some ("postgresql://" ++ rest)) ∧
    ((∀ d, ¬s.Gives .databaseUrl d) → t.databaseUrl = none) ∧
    ∀ d, s.Gives .databaseUrl d →
      (d = .null ∧ t.databaseUrl = none) ∨
      (∃ rest, d = .text ("postgresql://" ++ rest) ∧
        t.databaseUrl = some ("postgresql+asyncpg://" ++ rest)) ∨
      ∃ url, d = .text url ∧ (∀ rest, url ≠ "postgresql://" ++ rest) ∧
        t.databaseUrl = some url := by
  have other := ne_plain_of_load h
  refine ⟨load_initial other, other, ?_, ?_⟩
  · intro silent
    rcases readUrl_eq_ok_iff.mp (load_eq_ok_iff.mp h).1 with
      ⟨-, none⟩ | ⟨given, -⟩ | ⟨u, given, -⟩
    · exact none
    · exact absurd given (silent _)
    · exact absurd given (silent _)
  · intro d given
    have only {d' : Datum} (given' : s.Gives .databaseUrl d') : d = d' :=
      Option.some.inj ((gives_iff.mp given).symm.trans (gives_iff.mp given'))
    rcases readUrl_eq_ok_iff.mp (load_eq_ok_iff.mp h).1 with
      ⟨silent, -⟩ | ⟨given', none⟩ | ⟨u, given', same⟩
    · exact absurd given (silent d)
    · exact .inl ⟨only given', none⟩
    · by_cases plain : ∃ rest, u = "postgresql://" ++ rest
      · obtain ⟨rest, rfl⟩ := plain
        exact .inr (.inl ⟨rest, only given', same.trans (by rw [normalizeUrl_plain])⟩)
      · have kept := fun rest equal => plain ⟨rest, equal⟩
        exact .inr (.inr ⟨u, only given', kept, same.trans (by rw [normalizeUrl_of_ne kept])⟩)

/-- Initial values count more than all others, and an address changes only where it begins. -/
theorem load_stable_nested_scheme :
    load ⟨[("DATABASE_URL", .text "postgresql://h/x?next=postgresql://k"), ("ECHO", .int 1),
          ("LOG_COMPILED_SQL", .bool false), ("ALLOW_UNFILTERED_BULK", .bool true)],
        [("QUERYSTREAM_DATABASE_URL", "sqlite://")], some "QUERYSTREAM_ECHO=no"⟩ =
      .ok ⟨some "postgresql+asyncpg://h/x?next=postgresql://k", true, false, true⟩ ∧
    ∀ environment file,
      load ⟨initial ⟨some "postgresql+asyncpg://h/x?next=postgresql://k", true, false, true⟩,
        environment, file⟩ =
        .ok ⟨some "postgresql+asyncpg://h/x?next=postgresql://k", true, false, true⟩ := by
  have loaded : load ⟨[("DATABASE_URL", .text "postgresql://h/x?next=postgresql://k"),
        ("ECHO", .int 1), ("LOG_COMPILED_SQL", .bool false), ("ALLOW_UNFILTERED_BULK", .bool true)],
      [("QUERYSTREAM_DATABASE_URL", "sqlite://")], some "QUERYSTREAM_ECHO=no"⟩ =
      .ok ⟨some "postgresql+asyncpg://h/x?next=postgresql://k", true, false, true⟩ := by
    decide +kernel
  exact ⟨loaded, (load_stable loaded).1⟩

end FluentQuery.Settings
