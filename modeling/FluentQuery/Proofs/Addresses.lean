import FluentQuery.Database
import FluentQuery.Proofs.Loading

/-! A database address can be given in a call, or in the settings that calls without one fall back
on. Only loading settings puts the asynchronous driver into a plain PostgreSQL address, so this is
where the two ways differ; they agree on every other address, on the options of the engine, and on
what fails. -/

namespace FluentQuery

/-- What connections fall back on where these settings are in force. -/
def Settings.defaults (t : Settings) : Database.Defaults := ⟨t.get .databaseUrl, t.get .echo⟩

/-- The settings as they would be if no source gave an address. -/
def Settings.withoutUrl (t : Settings) : Settings := { t with databaseUrl := none }

namespace Database

/-! ### Engine options -/

theorem lookup_withDefault (key name : String) (v : Datum) (fields : List (String × Datum)) :
    (withDefault key v fields).lookup name =
      (fields.lookup name).or (if name = key then some v else none) := by
  unfold withDefault
  split
  · rename_i there
    by_cases same : name = key
    · subst same
      obtain ⟨x, inside, is⟩ := List.any_eq_true.mp there
      have named : x.1 = name := by simpa using is
      have found : fields.lookup name ≠ none := fun missing => by
        simpa [named] using List.lookup_eq_none_iff.mp missing x inside
      obtain ⟨w, found⟩ := Option.ne_none_iff_exists'.mp found
      rw [found, Option.some_or]
    · simp [same]
  · rw [List.lookup_append, lookup_cons_eq_ite, List.lookup_nil]

theorem lookup_filter_ne {name key : String} (other : name ≠ key)
    (fields : List (String × Datum)) :
    (fields.filter (·.1 != key)).lookup name = fields.lookup name := by
  induction fields with
  | nil => rfl
  | cons x fields ih =>
    obtain ⟨k, v⟩ := x
    rw [List.filter_cons]
    split
    · rw [List.lookup_cons, List.lookup_cons, ih]
    · rename_i dropped
      have same : k = key := by simpa using dropped
      have unlike : (name == k) = false := by simpa [same] using other
      rw [List.lookup_cons, unlike, ih]

/-- Every option is the caller's. Only two have defaults: `echo`, which null leaves to the settings,
and the arguments of an SQLite connection. -/
theorem lookup_engineOptions (defaults : Defaults) (url : String)
    (options : List (String × Datum)) (key : String) :
    (engineOptions defaults url options).lookup key =
      if key = "echo" then
        some (match options.lookup "echo" with
          | none | some .null => defaults.echo
          | some v => v)
      else if key = "connect_args" ∧ "sqlite".toList.isPrefixOf url.toList then
        some ((options.lookup key).getD (.mapping [("check_same_thread", .bool false)]))
      else options.lookup key := by
  unfold engineOptions
  dsimp only
  by_cases echo : key = "echo"
  · subst echo
    rw [if_pos rfl]
    split
    · rw [lookup_withDefault, List.lookup_cons_self]
      cases options.lookup "echo" with
      | none => rfl
      | some v => cases v <;> rfl
    · refine List.lookup_cons_self.trans ?_
      cases options.lookup "echo" with
      | none => rfl
      | some v => cases v <;> rfl
  · have unlike : (key == "echo") = false := by simpa using echo
    rw [if_neg echo]
    by_cases sqlite : "sqlite".toList.isPrefixOf url.toList
    · rw [if_pos sqlite, lookup_withDefault, List.lookup_cons, unlike, lookup_filter_ne echo]
      by_cases args : key = "connect_args"
      · rw [if_pos args, if_pos ⟨args, sqlite⟩]
        cases options.lookup key <;> rfl
      · rw [if_neg args, if_neg fun both => args both.1, Option.or_none]
    · rw [if_neg sqlite, if_neg fun both => sqlite both.2, List.lookup_cons, unlike,
        lookup_filter_ne echo]

/-- An address has a say in the options only by being one of SQLite. -/
theorem engineOptions_congr {defaults defaults' : Defaults} {url url' : String}
    (options : List (String × Datum)) (echo : defaults.echo = defaults'.echo)
    (sqlite : "sqlite".toList.isPrefixOf url.toList = "sqlite".toList.isPrefixOf url'.toList) :
    engineOptions defaults url options = engineOptions defaults' url' options := by
  unfold engineOptions
  rw [echo, sqlite]

/-! ### Two ways to give an address -/

section Ways

variable {options : List (String × Datum)} (accepted : ∀ x ∈ options, x.1 ≠ "database_url")

include accepted

theorem connectWith_of_no_url {toolkit : Toolkit} {defaults : Defaults} {url : Datum}
    (missing : chooseUrl defaults url = .error .noUrl) (state : State) :
    connectWith toolkit defaults url options state = (.error .noUrl, state) := by
  have absent : options.any (·.1 == "database_url") = false := by simpa using accepted
  simp [connectWith, absent, missing]

theorem connect_of_url {defaults : Defaults} {url : Datum} {chosen : String}
    (choice : chooseUrl defaults url = .ok chosen) (state : State) :
    (connect defaults url options state).1 =
      .ok ⟨chosen, engineOptions defaults chosen options⟩ := by
  have absent : options.any (·.1 == "database_url") = false := by simpa using accepted
  simp [connect, connectWith, absent, choice, Toolkit.unfailing]

end Ways

theorem connectWith_congr {defaults defaults' : Defaults} {url url' : Datum}
    (choice : chooseUrl defaults url = chooseUrl defaults' url')
    (echo : defaults.echo = defaults'.echo) (toolkit : Toolkit) (options : List (String × Datum))
    (state : State) :
    connectWith toolkit defaults url options state =
      connectWith toolkit defaults' url' options state := by
  have same (u : String) : engineOptions defaults u options = engineOptions defaults' u options :=
    engineOptions_congr options echo rfl
  simp only [connectWith, choice, same]

theorem chooseUrl_text {defaults : Defaults} {u : String} (h : u ≠ "") :
    chooseUrl defaults (.text u) = .ok u := by
  have full : u.isEmpty = false := by simpa using h
  simp [chooseUrl, Datum.truthy, full]

theorem chooseUrl_empty {defaults : Defaults}
    (empty : defaults.url = .null ∨ defaults.url = .text "") :
    chooseUrl defaults (.text "") = .error .noUrl := by
  rcases empty with url | url <;> simp [chooseUrl, Datum.truthy, url]

theorem chooseUrl_null (defaults : Defaults) :
    chooseUrl defaults .null = chooseUrl defaults defaults.url := by
  simp only [chooseUrl, ite_self]
  rfl

end Database

namespace Settings

open Database

variable {s : Sources} {t : Settings} {u : String}

theorem databaseUrl_of_gives (loaded : load s = .ok t) (given : s.Gives .databaseUrl (.text u)) :
    t.databaseUrl = some (normalizeUrl u) := by
  have read := (load_eq_ok_iff.mp loaded).1
  rw [readUrl, gives_iff.mp given] at read
  exact (Except.ok.inj read).symm

theorem normalizeUrl_ne_empty (h : u ≠ "") : normalizeUrl u ≠ "" := by
  by_cases plain : ∃ rest, u = "postgresql://" ++ rest
  · obtain ⟨rest, rfl⟩ := plain
    rw [normalizeUrl_plain]
    intro empty
    simpa using congrArg String.toList empty
  · rwa [normalizeUrl_of_ne fun rest same => plain ⟨rest, same⟩]

/-- No address of PostgreSQL is one of SQLite, under either scheme. -/
theorem isPrefixOf_sqlite_normalizeUrl (u : String) :
    "sqlite".toList.isPrefixOf (normalizeUrl u).toList = "sqlite".toList.isPrefixOf u.toList := by
  by_cases plain : ∃ rest, u = "postgresql://" ++ rest
  · obtain ⟨rest, rfl⟩ := plain
    rw [normalizeUrl_plain, String.toList_append, String.toList_append]
    rfl
  · rw [normalizeUrl_of_ne fun rest same => plain ⟨rest, same⟩]

/-- Settings that were loaded with the address `u`, beside the same ones without an address and a
call that gives `u`: all connections come out alike exactly if `u` is no plain PostgreSQL address.
An empty address is none either way. Any other one makes an engine with the same options either way;
the address is `u` in a call, and has the asynchronous driver from settings. -/
theorem explicit_url_agrees_iff (loaded : load s = .ok t)
    (given : s.Gives .databaseUrl (.text u)) {options : List (String × Datum)}
    (accepted : ∀ x ∈ options, x.1 ≠ "database_url") :
    ((∀ toolkit state, connectWith toolkit t.withoutUrl.defaults (.text u) options state =
        connectWith toolkit t.defaults .null options state) ↔
      ∀ rest, u ≠ "postgresql://" ++ rest) ∧
    (u = "" → ∀ toolkit state,
      connectWith toolkit t.withoutUrl.defaults (.text u) options state = (.error .noUrl, state) ∧
      connectWith toolkit t.defaults .null options state = (.error .noUrl, state)) ∧
    (u ≠ "" → ∃ made : List (String × Datum), (∀ state,
        (connect t.withoutUrl.defaults (.text u) options state).1 = .ok ⟨u, made⟩ ∧
        (connect t.defaults .null options state).1 = .ok ⟨normalizeUrl u, made⟩) ∧
      ∀ key, made.lookup key =
        if key = "echo" then
          some (match options.lookup "echo" with
            | none | some .null => .bool t.echo
            | some v => v)
        else if key = "connect_args" ∧ "sqlite".toList.isPrefixOf u.toList then
          some ((options.lookup key).getD (.mapping [("check_same_thread", .bool false)]))
        else options.lookup key) := by
  have url : t.defaults.url = .text (normalizeUrl u) := by
    rw [defaults, get, databaseUrl_of_gives loaded given]
    rfl
  have kept : normalizeUrl "" = "" := by decide
  have fallback : chooseUrl t.defaults .null = chooseUrl t.defaults (.text (normalizeUrl u)) := by
    rw [chooseUrl_null, url]
  have full (h : u ≠ "") :
      (∀ state, (connect t.withoutUrl.defaults (.text u) options state).1 =
        .ok ⟨u, engineOptions t.defaults u options⟩) ∧
      ∀ state, (connect t.defaults .null options state).1 =
        .ok ⟨normalizeUrl u, engineOptions t.defaults u options⟩ := by
    have chosen : chooseUrl t.defaults .null = .ok (normalizeUrl u) :=
      fallback.trans (chooseUrl_text (normalizeUrl_ne_empty h))
    refine ⟨fun state => ?_, fun state => ?_⟩
    · exact connect_of_url accepted (chooseUrl_text h) state
    · rw [connect_of_url accepted chosen, engineOptions_congr options rfl
        (isPrefixOf_sqlite_normalizeUrl u)]
  refine ⟨⟨fun agree rest plain => ?_, fun other toolkit state => ?_⟩, ?_, fun h => ?_⟩
  · have h : u ≠ "" := by
      intro empty
      simpa [plain] using congrArg String.toList empty
    have results := congrArg Prod.fst (agree .unfailing closed)
    rw [← connect, ← connect, (full h).1, (full h).2] at results
    have same : u = normalizeUrl u := congrArg EngineOptions.url (Except.ok.inj results)
    exact normalizeUrl_ne_plain u rest (same.symm.trans plain)
  · have echo : t.withoutUrl.defaults.echo = t.defaults.echo := rfl
    refine connectWith_congr ?_ echo toolkit options state
    rw [fallback]
    by_cases h : u = ""
    · subst h
      rw [chooseUrl_empty (.inl rfl), kept, chooseUrl_empty (.inr (url.trans (by rw [kept])))]
    · rw [normalizeUrl_of_ne other, chooseUrl_text h, chooseUrl_text h]
  · rintro rfl toolkit state
    refine ⟨connectWith_of_no_url accepted (chooseUrl_empty (.inl rfl)) state,
      connectWith_of_no_url accepted ?_ state⟩
    rw [fallback, kept, chooseUrl_empty (.inr (url.trans (by rw [kept])))]
  · exact ⟨engineOptions t.defaults u options, fun state => ⟨(full h).1 state, (full h).2 state⟩,
      fun key => lookup_engineOptions t.defaults u options key⟩

/-- A plain PostgreSQL address keeps its scheme in a call, where the engine is an asynchronous one
too. -/
theorem explicit_url_agrees_iff_postgresql :
    let s : Sources := ⟨[("DATABASE_URL", .text "postgresql://u@h/shop"), ("ECHO", .bool false),
      ("LOG_COMPILED_SQL", .bool false), ("ALLOW_UNFILTERED_BULK", .bool false)], [], none⟩
    let t : Settings := ⟨some "postgresql+asyncpg://u@h/shop", false, false, false⟩
    load s = .ok t ∧ s.Gives .databaseUrl (.text "postgresql://u@h/shop") ∧
      ¬∀ toolkit state,
        connectWith toolkit t.withoutUrl.defaults (.text "postgresql://u@h/shop") [] state =
          connectWith toolkit t.defaults .null [] state := by
  intro s t
  have loaded : load s = .ok t := by decide +kernel
  have given : s.Gives .databaseUrl (.text "postgresql://u@h/shop") := gives_iff.mpr rfl
  refine ⟨loaded, given, fun agree => ?_⟩
  have plain : "postgresql://u@h/shop" = "postgresql://" ++ "u@h/shop" := by decide
  have closed : ∀ x ∈ ([] : List (String × Datum)), x.1 ≠ "database_url" := nofun
  exact (explicit_url_agrees_iff loaded given closed).1.mp agree "u@h/shop" plain

end Settings

end FluentQuery
