/-
  What settings are loaded.

  What an environment says is read off it variable by variable (`cleanerVars`,
  `runtimeVars`), and can always be used (`validate_cleanerVars`). A settings file has
  a part for each group (`partsOf`); the parts are put on top of the environment, and a group
  that cannot be used is all defaults, whatever becomes of the other one
  (`run_loadSettings`). Reading a file may be given up, which is told by its bytes alone.
-/
import ConsoleSweep.Proofs.Calm
import ConsoleSweep.Proofs.Json.RoundTrip
import ConsoleSweep.Proofs.Parts
import ConsoleSweep.Proofs.Settings
import ConsoleSweep.Proofs.Text.Utf8

namespace ConsoleSweep

open Sweep Settings Text

/-- The settings on what is swept, or the defaults if they cannot be used. -/
def CleanerSettings.orDefaults (raw : Raw) : CleanerSettings :=
  match validate raw with
  | .ok s => s
  | .error _ => {}

/-- The settings on the files of a run, or the defaults if they cannot be used. -/
def RuntimeSettings.orDefaults (raw : Raw) : RuntimeSettings :=
  match validate raw with
  | .ok s => s
  | .error _ => {}

theorem CleanerSettings.valid_orDefaults (raw : Raw) : (orDefaults raw).Valid := by
  unfold orDefaults
  split
  · next h => exact valid_of_validate h
  · exact valid_default

theorem RuntimeSettings.valid_orDefaults (raw : Raw) : (orDefaults raw).Valid := by
  unfold orDefaults
  split
  · next h => exact valid_of_validate h
  · exact valid_default

namespace Config

variable {w w' : World} {c c' : Config} {raw : Raw} {env : List (String × String)} {k : String}

/-! ## The environment -/

/-- A variable that is set and not empty. -/
def filledIn (env : List (String × String)) (name : String) : Option String :=
  (env.lookup name).filter (· ≠ "")

/-- The items of a variable, divided by commas; none if it is blank. -/
def listIn (env : List (String × String)) (name : String) : Option (List String) :=
  let value := ((env.lookup name).getD "").toList
  if (trim value).isEmpty then none
  else some (((pieces ',' value).map trim).filter (!·.isEmpty) |>.map String.ofList)

/-- What an environment says on what is swept. -/
def cleanerVars (env : List (String × String)) : Raw :=
  fieldOf "console_methods" listJson ((listIn env "CONSOLE_CLEANER_METHODS").filter (!·.isEmpty)) ++
    fieldOf "file_extensions" listJson
      ((listIn env "CONSOLE_CLEANER_EXTENSIONS").filter (!·.isEmpty)) ++
    fieldOf "ignore_folders" listJson (listIn env "CONSOLE_CLEANER_IGNORE") ++
    fieldOf "confirm_before_cleaning" (fun word => .bool (isYes word))
      (filledIn env "CONSOLE_CLEANER_CONFIRM")

/-- What an environment says on the files of a run. -/
def runtimeVars (env : List (String × String)) : Raw :=
  fieldOf "log_level" .str
      ((filledIn env "LOG_LEVEL").map fun word => String.ofList (upper word.toList)) ++
    fieldOf "store_path" .str (filledIn env "CONSOLE_CLEANER_STORE") ++
    fieldOf "report_path" .str (filledIn env "CONSOLE_CLEANER_REPORT") ++
    fieldOf "metrics_path" .str (filledIn env "CONSOLE_CLEANER_METRICS")

theorem run_listVariable (name : String) (w : World) :
    (listVariable name).run.run w = (.ok (listIn w.env name), w) := by
  have hv : (lookupVar name).run.run w = (.ok (w.env.lookup name), w) := rfl
  unfold listVariable listIn
  rw [run_bind_eq hv]
  dsimp only
  split <;> rfl

theorem run_filledVar (name : String) (w : World) :
    (filledVar name).run.run w = (.ok (filledIn w.env name), w) := by
  have hv : (lookupVar name).run.run w = (.ok (w.env.lookup name), w) := rfl
  unfold filledVar filledIn
  rw [run_bind_eq hv]
  cases w.env.lookup name with
  | none => rfl
  | some value =>
    by_cases h : value = ""
    · subst h
      rfl
    · simp only [Option.filter, h, ne_eq, not_false_eq_true, decide_true, if_true]
      split
      · next he => exact absurd (Option.some.inj he) h
      · rfl

theorem run_cleanerFromEnv (w : World) :
    cleanerFromEnv.run.run w = (.ok (cleanerVars w.env), w) := by
  unfold cleanerFromEnv
  rw [run_bind_eq (run_listVariable _ w), run_bind_eq (run_listVariable _ w),
    run_bind_eq (run_listVariable _ w), run_bind_eq (run_filledVar _ w)]
  rfl

theorem run_runtimeFromEnv (w : World) :
    runtimeFromEnv.run.run w = (.ok (runtimeVars w.env), w) := by
  unfold runtimeFromEnv
  rw [run_bind_eq (run_filledVar _ w), run_bind_eq (run_filledVar _ w),
    run_bind_eq (run_filledVar _ w), run_bind_eq (run_filledVar _ w)]
  rfl

theorem lookup_fieldOf {α : Type} (key : String) (toJson : α → Json) (value : Option α)
    (k : String) : (fieldOf key toJson value).lookup k = if k = key then value.map toJson else none := by
  cases value with
  | none => simp [fieldOf]
  | some v =>
    by_cases h : k = key
    · simp [fieldOf, h]
    · simp [fieldOf, h, List.lookup_cons, beq_false_of_ne h]

theorem eq_key_of_mem_fieldOf {α : Type} {key : String} {toJson : α → Json} {value : Option α}
    {f : String × Json} (h : f ∈ fieldOf key toJson value) : f.1 = key := by
  cases value with
  | none => simp [fieldOf] at h
  | some v =>
    obtain rfl := List.mem_singleton.1 h
    rfl

theorem known_of_mem_cleanerVars {f : String × Json} (h : f ∈ cleanerVars env) :
    f.1 ∈ CleanerSettings.known := by
  unfold cleanerVars at h
  simp only [List.mem_append] at h
  rcases h with ((h | h) | h) | h <;> rw [eq_key_of_mem_fieldOf h] <;> decide

theorem known_of_mem_runtimeVars {f : String × Json} (h : f ∈ runtimeVars env) :
    f.1 ∈ RuntimeSettings.known := by
  unfold runtimeVars at h
  simp only [List.mem_append] at h
  rcases h with ((h | h) | h) | h <;> rw [eq_key_of_mem_fieldOf h] <;> decide

/-- Items of a variable are names that are not blank. -/
theorem methodNames_listIn {name field : String} {items : List String}
    (h : (listIn env name).filter (!·.isEmpty) = some items) :
    ∃ names, methodNames field (listJson items) = .ok names := by
  obtain ⟨hlist, hne⟩ := Option.filter_eq_some_iff.1 h
  obtain ⟨item, hitem⟩ : ∃ item, item ∈ items := by
    cases items with
    | nil => simp at hne
    | cons item _ => exact ⟨item, List.mem_cons_self⟩
  -- One of the items is left when they are tidied.
  have hmem : trimmed item ∈ normalizeNames items := by
    unfold listIn at hlist
    dsimp only at hlist
    split at hlist
    · simp at hlist
    · obtain rfl := Option.some.inj hlist
      obtain ⟨piece, hpiece, rfl⟩ := List.mem_map.1 hitem
      obtain ⟨hpiece, hfilled⟩ := List.mem_filter.1 hpiece
      obtain ⟨raw, -, rfl⟩ := List.mem_map.1 hpiece
      unfold normalizeNames
      rw [List.mem_eraseDups, List.mem_filter]
      refine ⟨List.mem_map_of_mem hitem, ?_⟩
      have hkept : trimmed (String.ofList (trim raw)) = String.ofList (trim raw) := by
        simp [trimmed, trim_trim]
      rw [hkept]
      have hne : trim raw ≠ [] := by simpa using hfilled
      simp only [decide_eq_true_eq, ne_eq]
      intro hempty
      exact hne (by simpa using congrArg String.toList hempty)
  refine ⟨normalizeNames items, ?_⟩
  unfold methodNames
  simp only [stringList_listJson, bind, Except.bind]
  split
  · next hnil =>
    rw [hnil] at hmem
    simp at hmem
  · rfl

/-- A field that is absent, or whose value keeps to the rule, has a value. -/
theorem exists_fieldOr {α β : Type} {key : String} {toJson : α → Json} {value : Option α}
    (rule : String → Json → Checked β) (default : β) (hl : raw.lookup key = value.map toJson)
    (hrule : ∀ v, value = some v → ∃ b, rule key (toJson v) = .ok b) :
    ∃ b, fieldOr raw key rule default = .ok b := by
  cases value with
  | none => exact ⟨default, fieldOr_of_none hl⟩
  | some v =>
    obtain ⟨b, hb⟩ := hrule v rfl
    exact ⟨b, (fieldOr_of_some hl).trans hb⟩

theorem lookup_cleanerVars (env : List (String × String)) :
    (cleanerVars env).lookup "console_methods" =
      ((listIn env "CONSOLE_CLEANER_METHODS").filter (!·.isEmpty)).map listJson ∧
    (cleanerVars env).lookup "ignore_folders" =
      (listIn env "CONSOLE_CLEANER_IGNORE").map listJson ∧
    (cleanerVars env).lookup "file_extensions" =
      ((listIn env "CONSOLE_CLEANER_EXTENSIONS").filter (!·.isEmpty)).map listJson ∧
    (cleanerVars env).lookup "auto_scan_on_startup" = none ∧
    (cleanerVars env).lookup "confirm_before_cleaning" =
      (filledIn env "CONSOLE_CLEANER_CONFIRM").map fun word => .bool (isYes word) := by
  simp [cleanerVars, List.lookup_append, lookup_fieldOf]

theorem lookup_runtimeVars (env : List (String × String)) :
    (runtimeVars env).lookup "log_level" =
      ((filledIn env "LOG_LEVEL").map fun word => String.ofList (upper word.toList)).map .str ∧
    (runtimeVars env).lookup "store_path" = (filledIn env "CONSOLE_CLEANER_STORE").map .str ∧
    (runtimeVars env).lookup "report_path" = (filledIn env "CONSOLE_CLEANER_REPORT").map .str ∧
    (runtimeVars env).lookup "metrics_path" = (filledIn env "CONSOLE_CLEANER_METRICS").map .str ∧
    (runtimeVars env).lookup "watch_interval" = none ∧
    (runtimeVars env).lookup "debounce_seconds" = none := by
  simp [runtimeVars, List.lookup_append, lookup_fieldOf]

/-- The environment can always be used. -/
theorem exists_validate_cleanerVars (env : List (String × String)) :
    ∃ s, CleanerSettings.validate (cleanerVars env) = .ok s := by
  obtain ⟨hm, hi, he, hs, hc⟩ := lookup_cleanerVars env
  have lists : ∀ (field : String) (items : List String),
      (∃ names, folderNames field (listJson items) = .ok names) ∧
        ∃ names, fileEndings field (listJson items) = .ok names := by
    intro field items
    unfold folderNames fileEndings
    rw [stringList_listJson]
    exact ⟨⟨_, rfl⟩, ⟨_, rfl⟩⟩
  obtain ⟨methods, hm⟩ := exists_fieldOr methodNames defaultMethods hm fun _ => methodNames_listIn
  obtain ⟨ignored, hi⟩ := exists_fieldOr folderNames defaultIgnored hi fun items _ =>
    (lists _ items).1
  obtain ⟨endings, he⟩ := exists_fieldOr fileEndings defaultEndings he fun items _ =>
    (lists _ items).2
  obtain ⟨confirm, hc⟩ := exists_fieldOr Settings.bool true hc fun word _ => ⟨isYes word, rfl⟩
  exact ⟨⟨methods, ignored, endings, true, confirm, _⟩,
    CleanerSettings.validate_eq_ok.2 ⟨hm, hi, he, fieldOr_of_none hs, hc, rfl⟩⟩

theorem exists_validate_runtimeVars (env : List (String × String)) :
    ∃ s, RuntimeSettings.validate (runtimeVars env) = .ok s := by
  obtain ⟨hl, hs, hr, hm, hw, hd⟩ := lookup_runtimeVars env
  obtain ⟨level, hl⟩ := exists_fieldOr Settings.string ({} : RuntimeSettings).logLevel hl
    fun word _ => ⟨word, rfl⟩
  obtain ⟨store, hs⟩ := exists_fieldOr Settings.string ({} : RuntimeSettings).storePath hs
    fun path _ => ⟨path, rfl⟩
  obtain ⟨report, hr⟩ := exists_fieldOr optionalString none hr fun path _ => ⟨some path, rfl⟩
  obtain ⟨metrics, hm⟩ := exists_fieldOr optionalString none hm fun path _ => ⟨some path, rfl⟩
  exact ⟨⟨level, store, report, metrics, _, _, _⟩, RuntimeSettings.validate_eq_ok.2
    ⟨hl, hs, hr, hm, fieldOr_of_none hw, fieldOr_of_none hd, rfl⟩⟩

theorem validate_cleanerVars (env : List (String × String)) :
    CleanerSettings.validate (cleanerVars env) =
      .ok (CleanerSettings.orDefaults (cleanerVars env)) := by
  obtain ⟨s, hs⟩ := exists_validate_cleanerVars env
  simp only [CleanerSettings.orDefaults, hs]

theorem validate_runtimeVars (env : List (String × String)) :
    RuntimeSettings.validate (runtimeVars env) =
      .ok (RuntimeSettings.orDefaults (runtimeVars env)) := by
  obtain ⟨s, hs⟩ := exists_validate_runtimeVars env
  simp only [RuntimeSettings.orDefaults, hs]

/-! ## Building a group -/

theorem run_buildCleaner_of_ok {s : CleanerSettings} (h : CleanerSettings.validate raw = .ok s)
    (source : String) (w : World) : (buildCleaner raw source).run.run w = (.ok s, w) := by
  unfold buildCleaner
  rw [h]
  rfl

theorem run_buildRuntime_of_ok {s : RuntimeSettings} (h : RuntimeSettings.validate raw = .ok s)
    (source : String) (w : World) : (buildRuntime raw source).run.run w = (.ok s, w) := by
  unfold buildRuntime
  rw [h]
  rfl

theorem run_buildCleaner (hs : w.Sound) (raw : Raw) (source : String) :
    ∃ w', (buildCleaner raw source).run.run w = (.ok (CleanerSettings.orDefaults raw), w') ∧
      w.Later Nowhere w' := by
  unfold CleanerSettings.orDefaults
  cases h : CleanerSettings.validate raw with
  | ok s => exact ⟨w, run_buildCleaner_of_ok h source w, .refl hs⟩
  | error issues =>
    obtain ⟨_, w', hr, hl⟩ := calm_log logger Log.warning ("Invalid " ++ CleanerSettings.group ++
      " from " ++ source ++ ": " ++ Settings.report CleanerSettings.group issues) w hs
    refine ⟨w', ?_, hl⟩
    unfold buildCleaner reportInvalid
    rw [h]
    exact run_bind_eq hr _

theorem run_buildRuntime (hs : w.Sound) (raw : Raw) (source : String) :
    ∃ w', (buildRuntime raw source).run.run w = (.ok (RuntimeSettings.orDefaults raw), w') ∧
      w.Later Nowhere w' := by
  unfold RuntimeSettings.orDefaults
  cases h : RuntimeSettings.validate raw with
  | ok s => exact ⟨w, run_buildRuntime_of_ok h source w, .refl hs⟩
  | error issues =>
    obtain ⟨_, w', hr, hl⟩ := calm_log logger Log.warning ("Invalid " ++ RuntimeSettings.group ++
      " from " ++ source ++ ": " ++ Settings.report RuntimeSettings.group issues) w hs
    refine ⟨w', ?_, hl⟩
    unfold buildRuntime reportInvalid
    rw [h]
    exact run_bind_eq hr _

/-! ## Taking over the environment -/

/-- The configuration with what an environment says. -/
def withVars (c : Config) (env : List (String × String)) : Config :=
  { c with
    cleanerEnv := cleanerVars env
    runtimeEnv := runtimeVars env
    cleaner := CleanerSettings.orDefaults (cleanerVars env)
    runtime := RuntimeSettings.orDefaults (runtimeVars env) }

/-- The variables are read without a report and without a change of the surroundings. -/
theorem run_readVars {α : Type} (next : Raw → Raw → CleanerSettings → RuntimeSettings → Sweep α)
    (w : World) : StateT.run (ExceptT.run do
      let cleanerEnv ← cleanerFromEnv
      let runtimeEnv ← runtimeFromEnv
      let cleaner ← buildCleaner cleanerEnv "environment"
      let runtime ← buildRuntime runtimeEnv "environment"
      next cleanerEnv runtimeEnv cleaner runtime) w =
    (next (cleanerVars w.env) (runtimeVars w.env) (CleanerSettings.orDefaults (cleanerVars w.env))
      (RuntimeSettings.orDefaults (runtimeVars w.env))).run.run w := by
  rw [run_bind_eq (run_cleanerFromEnv w), run_bind_eq (run_runtimeFromEnv w),
    run_bind_eq (run_buildCleaner_of_ok (validate_cleanerVars w.env) _ w),
    run_bind_eq (run_buildRuntime_of_ok (validate_runtimeVars w.env) _ w)]

/-- There is no file of variables where one is looked for. -/
structure NoEnvFiles (root : Path) (w : World) : Prop where
  exists_places : ∃ cwd home, Sweep.cwd.run.run w = (.ok cwd, w) ∧
    Config.home.run.run w = (.ok home, w) ∧
    ∀ p ∈ [root.child envName, (Path.ofString cwd).child ".env", home.child envName],
      (pathExists p).run.run w = (.ok false, w)

theorem run_firstExisting {paths : List Path}
    (h : ∀ p ∈ paths, (pathExists p).run.run w = (.ok false, w)) :
    (firstExisting paths).run.run w = (.ok none, w) := by
  induction paths with
  | nil => rfl
  | cons p paths ih =>
    obtain ⟨hp, hpaths⟩ := List.forall_mem_cons.1 h
    unfold firstExisting
    rw [run_bind_eq hp]
    exact ih hpaths

/-- Without files of variables, the environment is taken as it is. -/
theorem run_loadEnv (h : NoEnvFiles c.root w) (hc : c.loadedEnv = none) :
    c.loadEnv.run.run w = (.ok (c.withVars w.env), w) := by
  obtain ⟨cwd, home, hcwd, hhome, hplaces⟩ := h.exists_places
  have hnone : ∀ work : Path → Sweep PUnit, (none.forM work).run.run w = (.ok (), w) :=
    fun _ => rfl
  unfold loadEnv
  rw [run_bind_eq hcwd, run_bind_eq hhome, run_bind_eq (run_firstExisting hplaces), hc,
    run_bind_eq (hnone _)]
  dsimp only [Option.orElse_none]
  rw [run_bind_eq (hnone _), run_readVars, ← hc]
  rfl

/-- The first file of variables that there is adds its own to the environment. -/
theorem run_loadEnv_of_found {cwd : String} {home p : Path} {w₁ w₂ : World}
    (hcwd : Sweep.cwd.run.run w = (.ok cwd, w)) (hhome : Config.home.run.run w = (.ok home, w))
    (hfound : (firstExisting [c.root.child envName, (Path.ofString cwd).child ".env",
      home.child envName]).run.run w = (.ok (some p), w))
    (hload : (loadEnvFile p).run.run w = (.ok (), w₁))
    (hlog : (Sweep.log logger Log.debug ("Loaded environment from: " ++ p.text)).run.run w₁ =
      (.ok (), w₂)) :
    c.loadEnv.run.run w = (.ok ({ c with loadedEnv := some p }.withVars w₂.env), w₂) := by
  unfold loadEnv
  rw [run_bind_eq hcwd, run_bind_eq hhome, run_bind_eq hfound]
  change StateT.run (ExceptT.run (loadEnvFile p >>= _)) w = _
  rw [run_bind_eq hload]
  change StateT.run (ExceptT.run (Sweep.log logger Log.debug _ >>= _)) w₁ = _
  rw [run_bind_eq hlog, run_readVars]
  rfl

/-- What the environment was taken over as, with a file of variables or without. -/
theorem exists_of_run_loadEnv (h : c.loadEnv.run.run w = (.ok c', w')) :
    ∃ loadedEnv, c' = { c with loadedEnv }.withVars w'.env := by
  unfold loadEnv at h
  obtain ⟨cwd, w₁, -, h⟩ := exists_of_run_bind h
  obtain ⟨home, w₂, -, h⟩ := exists_of_run_bind h
  obtain ⟨found, w₃, -, h⟩ := exists_of_run_bind h
  obtain ⟨_, w₄, -, h⟩ := exists_of_run_bind h
  dsimp only at h
  obtain ⟨_, w₅, -, h⟩ := exists_of_run_bind h
  rw [run_readVars] at h
  obtain ⟨hc, rfl⟩ := Prod.mk.inj h
  exact ⟨found.orElse fun _ => c.loadedEnv, (Except.ok.inj hc).symm⟩

theorem steady_readText (path : String) : Steady (readText path) := by
  refine Steady.bind (Steady.bind ?_ fun _ => calm_world.steady.bind fun w => ?_) fun bytes => ?_
  · exact (steady_fail _).ite (calm_pure _).steady
  · cases w.disk.read path with
    | ok bytes => exact (calm_pure bytes).steady
    | error e => exact steady_fail _
  · split
    · exact (calm_pure _).steady
    · exact steady_fail _

theorem steady_pathExists (p : Path) : Steady (pathExists p) := by
  refine Steady.bind ?_ fun _ => (calm_pure _).steady
  refine (calm_pure _).steady.ite (calm_world.steady.bind fun w => ?_)
  split
  · exact (calm_pure _).steady
  · exact (calm_pure _).steady
  · exact (calm_pure _).steady
  · exact (calm_pure _).steady
  · exact steady_fail _

theorem steady_firstExisting (paths : List Path) : Steady (firstExisting paths) := by
  induction paths with
  | nil => exact (calm_pure _).steady
  | cons p paths ih => exact (steady_pathExists p).bind fun _ => (calm_pure _).steady.ite ih

theorem steady_setVar (name value : String) : Steady (setVar name value) := by
  have last : Steady (modify fun w : World =>
      { w with env := (name, value) :: w.env.filter (·.1 ≠ name) } : Sweep Unit) :=
    steady_of_same fun _ => rfl
  have middle : Steady (do
      if name.toList.contains '\x00' || value.toList.contains '\x00' ||
          name.toList.contains '=' then
        fail (.badValue "not allowed in the environment")
      modify fun w : World =>
        { w with env := (name, value) :: w.env.filter (·.1 ≠ name) } : Sweep Unit) :=
    Steady.ite ((steady_fail _).bind fun _ => last) last
  unfold setVar
  exact Steady.ite ((steady_fail _).bind fun _ => middle) middle

theorem steady_loadEnvFile (p : Path) : Steady (loadEnvFile p) := by
  have lookup : ∀ name, Steady (lookupVar name) := fun _ => steady_of_same fun _ => rfl
  unfold loadEnvFile
  refine Steady.bind ((lookup _).bind fun _ => (calm_pure _).steady) fun _ =>
    (calm_pure _).steady.ite ?_
  refine calm_world.steady.bind fun w => (calm_pure _).steady.ite ?_
  refine (steady_readText _).bind fun text => Steady.bind (steady_forM _ fun s => ?_) fun _ =>
    calm_world.steady.bind fun _ => steady_forM _ fun s => ?_
  · cases s with
    | broken line => exact (calm_log _ _ _).steady
    | _ => exact (calm_pure _).steady
  · obtain ⟨name, value⟩ := s
    cases value with
    | none => exact (calm_pure _).steady
    | some value =>
      exact (lookup name).bind fun _ => (steady_setVar name value).ite (calm_pure _).steady

theorem calm_buildCleaner (raw : Raw) (source : String) : Calm (buildCleaner raw source) :=
  fun _ hs => have ⟨w', hr, hl⟩ := run_buildCleaner hs raw source; ⟨_, w', hr, hl⟩

theorem calm_buildRuntime (raw : Raw) (source : String) : Calm (buildRuntime raw source) :=
  fun _ hs => have ⟨w', hr, hl⟩ := run_buildRuntime hs raw source; ⟨_, w', hr, hl⟩

theorem steady_loadEnv (c : Config) : Steady c.loadEnv := by
  have hcwd : Steady Sweep.cwd := by
    refine calm_world.steady.bind fun w => ?_
    split
    · exact (calm_pure _).steady
    · exact steady_fail _
  have hhome : Steady Config.home := by
    refine calm_world.steady.bind fun w => ?_
    dsimp only
    split
    · exact steady_fail _
    · exact Steady.ite ((steady_fail _).bind fun _ => (calm_pure _).steady) (calm_pure _).steady
  have hcleaner : Steady cleanerFromEnv :=
    steady_of_same fun w => by
      unfold after
      rw [run_cleanerFromEnv]
  have hruntime : Steady runtimeFromEnv :=
    steady_of_same fun w => by
      unfold after
      rw [run_runtimeFromEnv]
  refine hcwd.bind fun _ => hhome.bind fun _ => (steady_firstExisting _).bind fun found => ?_
  refine (steady_option_forM found fun p => steady_loadEnvFile p).bind fun _ => ?_
  refine (steady_option_forM _ fun p => (calm_log _ _ _).steady).bind fun _ => ?_
  exact hcleaner.bind fun _ => hruntime.bind fun _ => (calm_buildCleaner _ _).steady.bind fun _ =>
    (calm_buildRuntime _ _).steady.bind fun _ => (calm_pure _).steady

theorem sound_of_run_loadEnv (hs : w.Sound) (h : c.loadEnv.run.run w = (.ok c', w')) :
    w'.Sound := by
  have hafter := steady_loadEnv c w hs
  unfold after at hafter
  rwa [h] at hafter

/-! ## The settings file -/

/-- The fields in a settings file, or the fault with which its reading is given up. -/
def dataOf (bytes : Bytes) : Except Fault Raw :=
  match Text.decode bytes with
  | .error e => .error (.undecodable e)
  | .ok text =>
    match Json.parse (trim (unifyBreaks text)) with
    | .ok (.obj fields) => .ok fields
    | .ok _ => .ok []
    | .error e => if e.isMalformed then .ok [] else .error (.ofParse e)

/-- An object that can be read back is read back from a file. -/
theorem dataOf_indented {fs : Raw} (h : Json.Legible Json.depthLimit (.obj fs)) :
    dataOf (Text.encode (Json.obj fs).indented) = .ok fs := by
  unfold dataOf
  simp only [decode_encode, Json.trim_indented, Json.parse_indented h]

/-- The fields of one part of the data. -/
def partIn (data : Raw) (key : String) : Raw :=
  match data.lookup key with
  | some (.obj fs) => fs
  | _ => []

/-- The parts of a settings file for the two groups. -/
def partsOf (bytes : Bytes) : Except Fault (Raw × Raw) := do
  let data ← dataOf bytes
  return (← section_ data "cleaner", ← section_ data "runtime")

theorem partsOf_eq_ok {bytes : Bytes} {data cleanerTop runtimeTop : Raw}
    (h : dataOf bytes = .ok data) (hc : section_ data "cleaner" = .ok cleanerTop)
    (hr : section_ data "runtime" = .ok runtimeTop) :
    partsOf bytes = .ok (cleanerTop, runtimeTop) := by
  unfold partsOf
  simp only [h, bind, Except.bind, hc, hr]
  rfl

/-- The configuration with the parts of a settings file on top of the environment. -/
def withParts (c : Config) (parts : Raw × Raw) : Config :=
  { c with
    cleaner := CleanerSettings.orDefaults (Json.overlay c.cleanerEnv parts.1)
    runtime := RuntimeSettings.orDefaults (Json.overlay c.runtimeEnv parts.2) }

theorem isMalformed_of_parse_nil : ∃ e, Json.parse [] = .error e ∧ e.isMalformed = true :=
  ⟨_, rfl, rfl⟩

/-- What a file comes to; anything but an object is no data. -/
theorem run_loadJson_of_file {p : Path} {f : Disk.File} (hs : w.Sound) (hn : '\x00' ∉ p.text.toList)
    (hf : w.disk.file? p.text = some f) :
    ∃ r w', (loadJson p (.obj [])).run.run w = (r, w') ∧ w.Later Nowhere w' ∧
      dataOf f.bytes = r.map fun v => (v.fields?).getD [] := by
  unfold loadJson
  rw [run_bind_eq (run_pathExists_of_stat hn (stat_of_file? hf)), Bool.not_true,
    if_neg Bool.false_ne_true, run_bind_eq (run_attempt _ w)]
  unfold dataOf
  cases hd : Text.decode f.bytes with
  | error e =>
    have hread : (readText p.text).run.run w = (.error (.undecodable e), w) := by
      unfold readText
      have hb : (readBytes p.text).run.run w = (.ok f.bytes, w) := by
        rw [run_readBytes hn, Disk.read_of_file? hf]
        rfl
      rw [run_bind_eq hb, hd]
      rfl
    rw [hread]
    exact ⟨_, w, rfl, .refl hs, rfl⟩
  | ok text =>
    have htext : w.disk.text? p.text = some text := by
      unfold Disk.text?
      rw [hf, Option.bind_some, hd]
      rfl
    rw [run_readText hn htext]
    dsimp only
    split
    · next hblank =>
      obtain ⟨e, he, hm⟩ := isMalformed_of_parse_nil
      rw [hblank, he]
      exact ⟨_, w, rfl, .refl hs, by simp only [hm]; rfl⟩
    · cases hp : Json.parse (trim (unifyBreaks text)) with
      | ok v =>
        refine ⟨.ok v, w, rfl, .refl hs, ?_⟩
        cases v <;> rfl
      | error e =>
        dsimp only
        split
        · obtain ⟨_, w', hr, hl⟩ := calm_log logger Log.warning
            ("Error reading " ++ p.text ++ ": " ++ e.message ++ ". Using defaults.") w hs
          exact ⟨_, w', run_bind_eq hr _, hl, rfl⟩
        · exact ⟨_, w, rfl, .refl hs, rfl⟩

/-- Where there is no file, there is no data. -/
theorem run_loadJson_of_absent {p : Path} {default : Json}
    (h : (pathExists p).run.run w = (.ok false, w)) :
    (loadJson p default).run.run w = (.ok default, w) := by
  unfold loadJson
  rw [run_bind_eq h]
  rfl

/-- The parts of the data are put on top of the environment, unless one of them is no object. -/
theorem run_applyData (hs : w.Sound) (c : Config) (data : Raw) (source : String) :
    ∃ w', StateT.run (ExceptT.run do
        let cleanerTop ← Sweep.ofExcept (section_ data "cleaner")
        let runtimeTop ← Sweep.ofExcept (section_ data "runtime")
        let cleaner ← buildCleaner (Json.overlay c.cleanerEnv cleanerTop) source
        let runtime ← buildRuntime (Json.overlay c.runtimeEnv runtimeTop) source
        return { c with cleaner, runtime }) w =
      (Except.map c.withParts (do return (← section_ data "cleaner", ← section_ data "runtime")),
        w') ∧ w.Later Nowhere w' := by
  cases section_ data "cleaner" with
  | error e => exact ⟨w, rfl, .refl hs⟩
  | ok cleanerTop =>
    cases section_ data "runtime" with
    | error e => exact ⟨w, rfl, .refl hs⟩
    | ok runtimeTop =>
      obtain ⟨w₁, h₁, hl₁⟩ := run_buildCleaner hs (Json.overlay c.cleanerEnv cleanerTop) source
      obtain ⟨w₂, h₂, hl₂⟩ := run_buildRuntime hl₁.sound (Json.overlay c.runtimeEnv runtimeTop)
        source
      have hok : ∀ top : Raw, (Sweep.ofExcept (.ok top)).run.run w = (.ok top, w) := fun _ => rfl
      refine ⟨w₂, ?_, hl₁.trans hl₂⟩
      rw [run_bind_eq (hok _), run_bind_eq (hok _), run_bind_eq h₁, run_bind_eq h₂]
      rfl

/-- The settings file is put on top of the environment, or its reading is given up. -/
theorem run_loadSettings {f : Disk.File} (hs : w.Sound) (hn : '\x00' ∉ c.settingsFile.text.toList)
    (hf : w.disk.file? c.settingsFile.text = some f) :
    ∃ w', c.loadSettings.run.run w = ((partsOf f.bytes).map c.withParts, w') ∧
      w.Later Nowhere w' := by
  obtain ⟨r, w₁, hr, hl₁, hdata⟩ := run_loadJson_of_file hs hn hf
  unfold loadSettings partsOf
  rw [hdata]
  cases r with
  | error e => exact ⟨w₁, run_bind_fault hr _, hl₁⟩
  | ok v =>
    dsimp only
    rw [run_bind_eq hr]
    split
    · next fields =>
      obtain ⟨w₂, h₂, hl₂⟩ := run_applyData hl₁.sound c fields c.settingsFile.text
      exact ⟨w₂, h₂, hl₁.trans hl₂⟩
    · next hobj =>
      obtain ⟨_, w₂, h₂, hl₂⟩ := calm_log logger Log.warning
        ("Invalid format in " ++ c.settingsFile.text ++ ", using defaults") w₁ hl₁.sound
      obtain ⟨w₃, h₃, hl₃⟩ := run_applyData hl₂.sound c [] c.settingsFile.text
      have hnone : v.fields? = none := by
        unfold Json.fields?
        split
        · exact absurd rfl (hobj _)
        · rfl
      refine ⟨w₃, ?_, hl₁.trans (hl₂.trans hl₃)⟩
      rw [run_bind_eq h₂]
      dsimp only [Except.map]
      rw [hnone]
      exact h₃

/-- Without a settings file, what the environment said stays. -/
theorem run_loadSettings_of_absent {env : List (String × String)}
    (h : (pathExists c.settingsFile).run.run w = (.ok false, w)) :
    (c.withVars env).loadSettings.run.run w = (.ok (c.withVars env), w) := by
  have hfile : (loadJson (c.withVars env).settingsFile (.obj [])).run.run w = (.ok (.obj []), w) :=
    run_loadJson_of_absent h
  have htop : ∀ top : Raw, (Sweep.ofExcept (.ok top)).run.run w = (.ok top, w) := fun _ => rfl
  have hsection : ∀ key, section_ [] key = .ok [] := fun _ => rfl
  unfold loadSettings
  dsimp only
  rw [run_bind_eq hfile]
  dsimp only
  rw [run_bind_eq (run_pure _ _), hsection, hsection, run_bind_eq (htop []), run_bind_eq (htop [])]
  have hcleaner : Json.overlay (c.withVars env).cleanerEnv [] = cleanerVars env := rfl
  have hruntime : Json.overlay (c.withVars env).runtimeEnv [] = runtimeVars env := rfl
  rw [hcleaner, run_bind_eq (run_buildCleaner_of_ok (validate_cleanerVars env) _ w), hruntime,
    run_bind_eq (run_buildRuntime_of_ok (validate_runtimeVars env) _ w)]
  rfl

/-- Both are loaded one after the other. If the file cannot be read to its end, the environment
stays. -/
theorem run_loadAll {f : Disk.File} {w₁ : World} {c₁ : Config} (hs : w.Sound)
    (henv : c.loadEnv.run.run w = (.ok c₁, w₁)) (hn : '\x00' ∉ c₁.settingsFile.text.toList)
    (hf : w₁.disk.file? c₁.settingsFile.text = some f) :
    ∃ w', c.loadAll.run.run w = (.ok (match partsOf f.bytes with
        | .ok parts => (c₁.withParts parts, none)
        | .error e => (c₁, some e)), w') ∧ w₁.Later Nowhere w' := by
  obtain ⟨w₂, h₂, hl₂⟩ := run_loadSettings (sound_of_run_loadEnv hs henv) hn hf
  refine ⟨w₂, ?_, hl₂⟩
  unfold loadAll
  rw [run_bind_eq (run_attempt _ w), henv]
  dsimp only
  rw [run_bind_eq (run_attempt _ w₁), h₂]
  cases partsOf f.bytes <;> rfl

/-! ## A project with a settings file -/

/-- A project at the root of the tree, with the given bytes in its settings file. -/
def project (env : List (String × String)) (bytes : Bytes) (medium : Medium := {}) : World :=
  { disk := ⟨[([".console-cleaner"], .dir),
      ([".console-cleaner", "settings.json"], .file bytes (.at 0))], ⟨[], 0⟩, [], 0, medium⟩
    env, homes := [], now := .int 0, logTime := .int 0, logging := {}
    journal := [], metrics := none, out := "", err := "", input := [] }

section

variable {medium : Medium}

theorem sound_project (env : List (String × String)) (bytes : Bytes) :
    (project env bytes medium).Sound :=
  fun _ h => by simp [project] at h

theorem file?_project (env : List (String × String)) (bytes : Bytes) :
    (project env bytes medium).disk.file? "/.console-cleaner/settings.json" =
      some ⟨[".console-cleaner", "settings.json"], bytes, .at 0⟩ := by
  rw [Disk.file?_eq_some,
    Disk.locate_of_names [".console-cleaner", "settings.json"] (by decide +kernel),
    Disk.locateFrom_dir (by decide) (by decide +kernel) rfl]
  exact Disk.locateFrom_file (by decide) (by decide +kernel) rfl

theorem stat_project (env : List (String × String)) (bytes : Bytes) :
    (project env bytes medium).disk.stat "/.console-cleaner" = .ok .dir := by
  unfold Disk.stat
  rw [Disk.locate_of_names [".console-cleaner"] (by decide +kernel),
    Disk.locateFrom_dir (by decide) (by decide +kernel) rfl, Disk.locateFrom]
  rfl

end

theorem run_cwd_of_root (h : w.disk.cwd = ⟨[], 0⟩) : Sweep.cwd.run.run w = (.ok "/", w) := by
  unfold Sweep.cwd
  rw [run_bind_eq (run_world w), h]
  rfl

theorem run_home_of_root (h : w.env.lookup "HOME" = some "/") :
    Config.home.run.run w = (.ok ⟨"/", []⟩, w) := by
  change StateT.run (ExceptT.run (world >>= _)) _ = _
  rw [run_bind_eq (run_world _)]
  dsimp only
  rw [h]
  rfl

theorem run_envPath_of_free (h : w.disk.node? [envName] = none) :
    (pathExists ((Path.mk "/" []).child envName)).run.run w = (.ok false, w) :=
  run_pathExists (n := ".console-cleaner.env") (r := []) (by decide +kernel)
    ⟨by decide, by decide +kernel, h⟩

/-- The names of the files of variables are free at the root, which is the root of the project, the
working directory and the home directory. -/
theorem noEnvFiles_of_free (hcwd : w.disk.cwd = ⟨[], 0⟩) (hhome : w.env.lookup "HOME" = some "/")
    (hvars : w.disk.node? [envName] = none) (hplain : w.disk.node? [".env"] = none) :
    NoEnvFiles ⟨"/", []⟩ w := by
  have hplain : (pathExists ((Path.ofString "/").child ".env")).run.run w = (.ok false, w) :=
    run_pathExists (n := ".env") (r := []) (by decide +kernel)
      ⟨by decide, by decide +kernel, hplain⟩
  refine ⟨"/", ⟨"/", []⟩, run_cwd_of_root hcwd, run_home_of_root hhome, fun p hp => ?_⟩
  simp only [List.mem_cons, List.not_mem_nil, or_false] at hp
  rcases hp with rfl | rfl | rfl
  · exact run_envPath_of_free hvars
  · exact hplain
  · exact run_envPath_of_free hvars

theorem noEnvFiles_project {bytes : Bytes} (h : env.lookup "HOME" = some "/") :
    NoEnvFiles ⟨"/", []⟩ (project env bytes) :=
  noEnvFiles_of_free rfl h rfl rfl

end Config

end ConsoleSweep
