/-
  Saved settings are loaded again.

  Settings that came about by loading and overriding are in their normal form, and the fields
  that are not known have each key once (`Regular`). Then the settings file has all known
  fields, so it leaves nothing to the environment when it is put on top of it, and what is
  read from it is what was written.
-/
import ConsoleSweep.Proofs.Config.Load

namespace ConsoleSweep

open Sweep Settings Text

namespace Json

variable {base top raw : Raw}

theorem Distinct.overlay (hb : Distinct (.obj base)) (ht : Distinct (.obj top)) :
    Distinct (.obj (overlay base top)) := by
  refine ⟨hb.1.overlay top, distinctFields_iff.2 fun f hf => ?_⟩
  rcases mem_of_mem_overlay hf with hf | hf
  · exact distinctFields_iff.1 ht.2 f hf
  · exact distinctFields_iff.1 hb.2 f hf

theorem Distinct.extrasOf (h : Distinct (.obj raw)) (known : List String) :
    Distinct (.obj (extrasOf known raw)) :=
  ⟨h.1.filter _, distinctFields_iff.2 fun f hf =>
    distinctFields_iff.1 h.2 f (List.mem_filter.1 hf).1⟩

theorem distinct_nil : Distinct (.obj []) :=
  ⟨keyedOnce_nil, trivial⟩

theorem distinct_listJson (names : List String) : Distinct (listJson names) := by
  refine distinctItems_iff.2 fun v hv => ?_
  obtain ⟨n, -, rfl⟩ := List.mem_map.1 hv
  exact trivial

theorem distinct_optionalJson (s : Option String) : Distinct (optionalJson s) := by
  cases s <;> exact trivial

/-- Known fields and others make an object. -/
theorem distinct_append {fs : Raw} (hb : Distinct (.obj base)) (hf : Distinct (.obj fs))
    (hnew : ∀ f ∈ fs, ∀ b ∈ base, b.1 ≠ f.1) : Distinct (.obj (base ++ fs)) := by
  rw [← overlay_eq_append hf.1 hnew]
  exact hb.overlay hf

end Json

/-! ## Settings on top of variables -/

namespace CleanerSettings

variable {s : CleanerSettings} {vars raw : Raw}

theorem extras_orDefaults (raw : Raw) :
    (orDefaults raw).extras = extrasOf known raw ∨ (orDefaults raw).extras = [] := by
  unfold orDefaults
  split
  · next h => exact .inl (validate_eq_ok.1 h).2.2.2.2.2.symm
  · exact .inr rfl

theorem distinct_fields (h : s.Valid) (hx : Json.Distinct (.obj s.extras)) :
    Json.Distinct (.obj s.fields) := by
  have honce : known.Nodup := by decide
  refine Json.distinct_append ⟨honce, ?_⟩ hx fun f hf b hb he => ?_
  · exact ⟨Json.distinct_listJson _, Json.distinct_listJson _, Json.distinct_listJson _, trivial,
      trivial, trivial⟩
  · have hknown : b.1 ∈ known := List.mem_map_of_mem hb
    exact h.extras f hf (he ▸ hknown)

/-- Settings have all known fields, so nothing below them shows through. -/
theorem orDefaults_overlay (hv : s.Valid) (hx : Json.Distinct (.obj s.extras))
    (hvars : ∀ f ∈ vars, f.1 ∈ known) : orDefaults (Json.overlay vars s.fields) = s := by
  have hkeys := (distinct_fields hv hx).1
  have hsame : validate (Json.overlay vars s.fields) = .ok s := by
    rw [← validate_fields hv]
    refine validate_congr (fun k hk => ?_) (extrasOf_overlay_known hvars hkeys)
    obtain ⟨v, hl⟩ := Option.isSome_iff_exists.1 (isSome_lookup_fields s hk)
    rw [Json.lookup_overlay hkeys, hl]
    rfl
  simp only [orDefaults, hsame]

end CleanerSettings

namespace RuntimeSettings

variable {s : RuntimeSettings} {vars raw : Raw}

theorem extras_orDefaults (raw : Raw) :
    (orDefaults raw).extras = extrasOf known raw ∨ (orDefaults raw).extras = [] := by
  unfold orDefaults
  split
  · next h => exact .inl (validate_eq_ok.1 h).2.2.2.2.2.2.symm
  · exact .inr rfl

theorem distinct_fields (h : s.Valid) (hx : Json.Distinct (.obj s.extras)) :
    Json.Distinct (.obj s.fields) := by
  have honce : known.Nodup := by decide
  refine Json.distinct_append ⟨honce, ?_⟩ hx fun f hf b hb he => ?_
  · exact ⟨trivial, trivial, Json.distinct_optionalJson _, Json.distinct_optionalJson _, trivial,
      trivial, trivial⟩
  · have hknown : b.1 ∈ known := List.mem_map_of_mem hb
    exact h.extras f hf (he ▸ hknown)

/-- Settings have all known fields, so nothing below them shows through. -/
theorem orDefaults_overlay (hv : s.Valid) (hx : Json.Distinct (.obj s.extras))
    (hvars : ∀ f ∈ vars, f.1 ∈ known) : orDefaults (Json.overlay vars s.fields) = s := by
  have hkeys := (distinct_fields hv hx).1
  have hsame : validate (Json.overlay vars s.fields) = .ok s := by
    rw [← validate_fields hv]
    refine validate_congr (fun k hk => ?_) (extrasOf_overlay_known hvars hkeys)
    obtain ⟨v, hl⟩ := Option.isSome_iff_exists.1 (isSome_lookup_fields s hk)
    rw [Json.lookup_overlay hkeys, hl]
    rfl
  simp only [orDefaults, hsame]

end RuntimeSettings

/-! ## How settings come about -/

namespace Config

variable {root : Path} {c c' : Config} {w w' : World} {data top : Raw}

/-- The configurations that come about by loading and overriding, in any surroundings and in any
order. A refused override may have changed one of the groups. -/
inductive Reachable (root : Path) : Config → Prop where
  | new : Reachable root { root }
  | loadEnv {c c' : Config} {w w' : World} (h : Reachable root c)
      (hr : c.loadEnv.run.run w = (.ok c', w')) : Reachable root c'
  | loadSettings {c c' : Config} {w w' : World} (h : Reachable root c)
      (hr : c.loadSettings.run.run w = (.ok c', w')) : Reachable root c'
  | override {c : Config} {cleaner runtime : Raw} (h : Reachable root c)
      (hcleaner : Json.Distinct (.obj cleaner)) (hruntime : Json.Distinct (.obj runtime)) :
      Reachable root (c.override cleaner runtime).1

/-- What all configurations have that come about so. -/
structure Regular (c : Config) : Prop where
  cleaner : c.cleaner.Valid
  runtime : c.runtime.Valid
  cleanerExtras : Json.Distinct (.obj c.cleaner.extras)
  runtimeExtras : Json.Distinct (.obj c.runtime.extras)
  cleanerEnv : ∀ f ∈ c.cleanerEnv, f.1 ∈ CleanerSettings.known
  runtimeEnv : ∀ f ∈ c.runtimeEnv, f.1 ∈ RuntimeSettings.known

theorem regular_new (root : Path) : Regular { root } :=
  ⟨CleanerSettings.valid_default, RuntimeSettings.valid_default, Json.distinct_nil,
    Json.distinct_nil, by simp, by simp⟩

theorem regular_withVars (c : Config) (env : List (String × String)) : (c.withVars env).Regular := by
  refine ⟨CleanerSettings.valid_orDefaults _, RuntimeSettings.valid_orDefaults _, ?_, ?_,
    fun f => known_of_mem_cleanerVars, fun f => known_of_mem_runtimeVars⟩
  · change Json.Distinct (.obj (CleanerSettings.orDefaults (cleanerVars env)).extras)
    rcases CleanerSettings.extras_orDefaults (cleanerVars env) with h | h <;> rw [h]
    · rw [extrasOf_of_known fun f => known_of_mem_cleanerVars]
      exact Json.distinct_nil
    · exact Json.distinct_nil
  · change Json.Distinct (.obj (RuntimeSettings.orDefaults (runtimeVars env)).extras)
    rcases RuntimeSettings.extras_orDefaults (runtimeVars env) with h | h <;> rw [h]
    · rw [extrasOf_of_known fun f => known_of_mem_runtimeVars]
      exact Json.distinct_nil
    · exact Json.distinct_nil

theorem Regular.withParts {parts : Raw × Raw} (h : c.Regular)
    (hcleaner : Json.Distinct (.obj parts.1)) (hruntime : Json.Distinct (.obj parts.2)) :
    (c.withParts parts).Regular := by
  refine ⟨CleanerSettings.valid_orDefaults _, RuntimeSettings.valid_orDefaults _, ?_, ?_,
    h.cleanerEnv, h.runtimeEnv⟩
  · change Json.Distinct (.obj (CleanerSettings.orDefaults (Json.overlay c.cleanerEnv parts.1)).extras)
    rcases CleanerSettings.extras_orDefaults (Json.overlay c.cleanerEnv parts.1) with he | he <;>
      rw [he]
    · rw [extrasOf_overlay_known h.cleanerEnv hcleaner.1]
      exact hcleaner.extrasOf _
    · exact Json.distinct_nil
  · change Json.Distinct (.obj (RuntimeSettings.orDefaults (Json.overlay c.runtimeEnv parts.2)).extras)
    rcases RuntimeSettings.extras_orDefaults (Json.overlay c.runtimeEnv parts.2) with he | he <;>
      rw [he]
    · rw [extrasOf_overlay_known h.runtimeEnv hruntime.1]
      exact hruntime.extrasOf _
    · exact Json.distinct_nil

theorem Regular.overrideCleaner (h : c.Regular) (ht : Json.Distinct (.obj top))
    (ho : c.overrideCleaner top = .ok c') : c'.Regular ∧ c'.root = c.root := by
  unfold Config.overrideCleaner at ho
  split at ho
  · obtain rfl := Except.ok.inj ho
    exact ⟨h, rfl⟩
  · split at ho
    · next s hs =>
      obtain rfl := Except.ok.inj ho
      refine ⟨{ h with cleaner := CleanerSettings.valid_of_validate hs, cleanerExtras := ?_ }, rfl⟩
      have hx := (CleanerSettings.validate_eq_ok.1 hs).2.2.2.2.2
      rw [extrasOf_overlay, h.cleaner.extrasOf_fields] at hx
      exact hx ▸ h.cleanerExtras.overlay (ht.extrasOf _)
    · cases ho

theorem Regular.overrideRuntime (h : c.Regular) (ht : Json.Distinct (.obj top))
    (ho : c.overrideRuntime top = .ok c') : c'.Regular ∧ c'.root = c.root := by
  unfold Config.overrideRuntime at ho
  split at ho
  · obtain rfl := Except.ok.inj ho
    exact ⟨h, rfl⟩
  · split at ho
    · next s hs =>
      obtain rfl := Except.ok.inj ho
      refine ⟨{ h with runtime := RuntimeSettings.valid_of_validate hs, runtimeExtras := ?_ }, rfl⟩
      have hx := (RuntimeSettings.validate_eq_ok.1 hs).2.2.2.2.2.2
      rw [extrasOf_overlay, h.runtime.extrasOf_fields] at hx
      exact hx ▸ h.runtimeExtras.overlay (ht.extrasOf _)
    · cases ho

theorem Regular.override (h : c.Regular) {cleaner runtime : Raw}
    (hcleaner : Json.Distinct (.obj cleaner)) (hruntime : Json.Distinct (.obj runtime)) :
    (c.override cleaner runtime).1.Regular ∧ (c.override cleaner runtime).1.root = c.root := by
  unfold Config.override
  split
  · exact ⟨h, rfl⟩
  · next c₁ h₁ =>
    obtain ⟨hreg, hroot⟩ := h.overrideCleaner hcleaner h₁
    split
    · exact ⟨hreg, hroot⟩
    · next c₂ h₂ =>
      obtain ⟨hreg', hroot'⟩ := hreg.overrideRuntime hruntime h₂
      exact ⟨hreg', hroot'.trans hroot⟩

theorem distinct_of_run_loadJson {p : Path} {v : Json}
    (h : (loadJson p (.obj [])).run.run w = (.ok v, w')) : Json.Distinct v := by
  have hdefault : ∀ {w₁ : World}, (pure (.obj []) : Sweep Json).run.run w₁ = (.ok v, w') →
      Json.Distinct v := by
    intro w₁ h
    obtain rfl := Except.ok.inj (congrArg Prod.fst h)
    exact Json.distinct_nil
  unfold loadJson at h
  obtain ⟨found, w₁, -, h⟩ := exists_of_run_bind h
  split at h
  · exact hdefault h
  obtain ⟨read, w₂, -, h⟩ := exists_of_run_bind h
  split at h
  · split at h
    · obtain ⟨_, w₃, -, h⟩ := exists_of_run_bind h
      exact hdefault h
    · cases congrArg Prod.fst h
  · split at h
    · exact hdefault h
    · split at h
      · next hp =>
        obtain rfl := Except.ok.inj (congrArg Prod.fst h)
        exact Json.distinct_of_parse hp
      · split at h
        · obtain ⟨_, w₃, -, h⟩ := exists_of_run_bind h
          exact hdefault h
        · cases congrArg Prod.fst h

theorem distinct_of_section (hd : Json.Distinct (.obj data)) {key : String}
    (h : section_ data key = .ok top) : Json.Distinct (.obj top) := by
  unfold section_ at h
  split at h
  · obtain rfl := Except.ok.inj h
    exact Json.distinct_nil
  · next fs hl =>
    obtain rfl := Except.ok.inj h
    exact Json.distinctFields_iff.1 hd.2 _ (Json.mem_of_lookup hl)
  · split at h
    · cases h
    · obtain rfl := Except.ok.inj h
      exact Json.distinct_nil

theorem eq_of_run_buildCleaner {raw : Raw} {source : String} {s : CleanerSettings}
    (h : (buildCleaner raw source).run.run w = (.ok s, w')) : s = CleanerSettings.orDefaults raw := by
  unfold buildCleaner at h
  unfold CleanerSettings.orDefaults
  cases hv : CleanerSettings.validate raw with
  | ok s' =>
    rw [hv] at h
    exact (Except.ok.inj (congrArg Prod.fst h)).symm
  | error issues =>
    rw [hv] at h
    obtain ⟨_, w₁, -, h⟩ := exists_of_run_bind h
    exact (Except.ok.inj (congrArg Prod.fst h)).symm

theorem eq_of_run_buildRuntime {raw : Raw} {source : String} {s : RuntimeSettings}
    (h : (buildRuntime raw source).run.run w = (.ok s, w')) : s = RuntimeSettings.orDefaults raw := by
  unfold buildRuntime at h
  unfold RuntimeSettings.orDefaults
  cases hv : RuntimeSettings.validate raw with
  | ok s' =>
    rw [hv] at h
    exact (Except.ok.inj (congrArg Prod.fst h)).symm
  | error issues =>
    rw [hv] at h
    obtain ⟨_, w₁, -, h⟩ := exists_of_run_bind h
    exact (Except.ok.inj (congrArg Prod.fst h)).symm

/-- What is put on top of the environment are two parts of the data. -/
theorem exists_of_run_applyData (hd : Json.Distinct (.obj data)) {source : String}
    (h : StateT.run (ExceptT.run do
        let cleanerTop ← Sweep.ofExcept (section_ data "cleaner")
        let runtimeTop ← Sweep.ofExcept (section_ data "runtime")
        let cleaner ← buildCleaner (Json.overlay c.cleanerEnv cleanerTop) source
        let runtime ← buildRuntime (Json.overlay c.runtimeEnv runtimeTop) source
        return { c with cleaner, runtime }) w = (.ok c', w')) :
    ∃ parts, c' = c.withParts parts ∧ Json.Distinct (.obj parts.1) ∧
      Json.Distinct (.obj parts.2) := by
  obtain ⟨cleanerTop, w₁, h₁, h⟩ := exists_of_run_bind h
  obtain ⟨runtimeTop, w₂, h₂, h⟩ := exists_of_run_bind h
  obtain ⟨cleaner, w₃, h₃, h⟩ := exists_of_run_bind h
  obtain ⟨runtime, w₄, h₄, h⟩ := exists_of_run_bind h
  have hcleaner := distinct_of_section hd (outcome_ofExcept (congrArg Prod.fst h₁))
  have hruntime := distinct_of_section hd (outcome_ofExcept (congrArg Prod.fst h₂))
  obtain rfl := eq_of_run_buildCleaner h₃
  obtain rfl := eq_of_run_buildRuntime h₄
  exact ⟨(cleanerTop, runtimeTop), (Except.ok.inj (congrArg Prod.fst h)).symm, hcleaner, hruntime⟩

theorem exists_of_run_loadSettings (h : c.loadSettings.run.run w = (.ok c', w')) :
    ∃ parts, c' = c.withParts parts ∧ Json.Distinct (.obj parts.1) ∧
      Json.Distinct (.obj parts.2) := by
  unfold loadSettings at h
  obtain ⟨v, w₁, hv, h⟩ := exists_of_run_bind h
  have hd := distinct_of_run_loadJson hv
  dsimp only at h
  split at h
  · exact exists_of_run_applyData hd h
  · obtain ⟨_, w₂, -, h⟩ := exists_of_run_bind h
    exact exists_of_run_applyData Json.distinct_nil h

/-- Each way in which a configuration comes about leaves it regular, and its root as it was. -/
theorem Reachable.regular (h : Reachable root c) : c.Regular ∧ c.root = root := by
  induction h with
  | new => exact ⟨regular_new root, rfl⟩
  | loadEnv _ hr ih =>
    obtain ⟨loadedEnv, rfl⟩ := exists_of_run_loadEnv hr
    exact ⟨regular_withVars _ _, ih.2⟩
  | loadSettings _ hr ih =>
    obtain ⟨parts, rfl, hcleaner, hruntime⟩ := exists_of_run_loadSettings hr
    exact ⟨ih.1.withParts hcleaner hruntime, ih.2⟩
  | override _ hcleaner hruntime ih =>
    obtain ⟨hreg, hroot⟩ := ih.1.override hcleaner hruntime
    exact ⟨hreg, hroot.trans ih.2⟩

/-! ## Saving -/

theorem Regular.distinct_payload (h : c.Regular) : Json.Distinct c.payload :=
  ⟨(by decide : ["cleaner", "runtime"].Nodup), CleanerSettings.distinct_fields h.cleaner h.cleanerExtras,
    RuntimeSettings.distinct_fields h.runtime h.runtimeExtras, trivial⟩

/-- What was saved is in the settings file, unless that is a log file or a device. -/
theorem exists_file_of_save {p : Path} (hs : w.Sound) (h : c.save.run.run w = (.ok p, w'))
    (hopen : ∀ q, w'.disk.Targets c.settingsFile.text q → ¬ Disk.Open w'.disk q)
    (hkept : w'.disk.Retains c.settingsFile.text) :
    c.payload.isWritable = true ∧ c.payload.depth ≤ Json.depthLimit ∧
      '\x00' ∉ c.settingsFile.text.toList ∧
      ∃ f, w'.disk.file? c.settingsFile.text = some f ∧ f.bytes = encode c.payload.indented := by
  unfold save at h
  obtain ⟨_, w₁, hmade, h⟩ := exists_of_run_bind h
  have hs₁ : w₁.Sound := by
    have hafter := steady_makeDirs c.configDir w hs
    unfold after at hafter
    rwa [hmade] at hafter
  dsimp only at h
  have hwritable : c.payload.isWritable = true := by
    cases hw : c.payload.isWritable with
    | true => rfl
    | false =>
      rw [hw, Bool.not_false, if_pos rfl] at h
      cases congrArg Prod.fst h
  rw [hwritable, Bool.not_true, if_neg Bool.false_ne_true] at h
  have hdepth : ¬ Json.depthLimit < c.payload.depth := by
    intro hlt
    rw [if_pos hlt] at h
    cases congrArg Prod.fst h
  rw [if_neg hdepth] at h
  obtain ⟨_, w₂, hwrite, h⟩ := exists_of_run_bind h
  have hs₂ : w₂.Sound := by
    have hafter := steady_writeText c.settingsFile.text c.payload.indented w₁ hs₁
    unfold after at hafter
    rwa [hwrite] at hafter
  obtain ⟨_, w₃, hlog, h⟩ := exists_of_run_bind h
  obtain rfl : w₃ = w' := congrArg Prod.snd h
  obtain ⟨_, w₄, hlog', hlater⟩ := calm_log logger Log.info
    ("Saved config to: " ++ c.settingsFile.text) w₂ hs₂
  obtain rfl : w₄ = w₃ := congrArg Prod.snd (hlog'.symm.trans hlog)
  obtain ⟨hn, f, hf, hb⟩ := exists_file_of_writeText hwrite
    ((Disk.retains_iff_of_writes hlater.disk).1 hkept)
  refine ⟨hwritable, by omega, hn, f, ?_, hb⟩
  rw [← hf]
  refine Disk.file?_of_writes hlater.disk fun q hq => ?_
  rintro (ho | ho)
  · exact hopen q ((Disk.targets_iff_of_writes hlater.disk).2 hq) (hlater.disk.open_iff.2 ho)
  · exact ho

/-- Saved settings come back, whatever the environment says by then, as far as the texts of their
floating-point numbers do. The settings file has to be a file of its own: no log file that goes on
growing, and no device that keeps nothing. -/
theorem saved_settings_reload {p : Path} {w'' : World} (hc : Reachable root c) (hs : w.Sound)
    (hsave : c.save.run.run w = (.ok p, w'))
    (hopen : ∀ q, w'.disk.Targets c.settingsFile.text q → ¬ Disk.Open w'.disk q)
    (hkept : w'.disk.Retains c.settingsFile.text)
    (hreals : ∀ x ∈ c.payload.reals, Json.Returns x) (hs' : w''.Sound)
    (hfile : w''.disk.file? c.settingsFile.text = w'.disk.file? c.settingsFile.text)
    (henv : NoEnvFiles root w'') :
    ∃ c' w₃, (loadAll { root }).run.run w'' = (.ok (c', none), w₃) ∧
      c'.cleaner = c.cleaner ∧ c'.runtime = c.runtime := by
  obtain ⟨hreg, rfl⟩ := hc.regular
  obtain ⟨hwritable, hdepth, hn, f, hf, hb⟩ := exists_file_of_save hs hsave hopen hkept
  have hlegible := Json.legible_of_isWritable hreg.distinct_payload hwritable hdepth hreals
  have hdata : dataOf f.bytes =
      .ok [("cleaner", .obj c.cleaner.fields), ("runtime", .obj c.runtime.fields)] := by
    rw [hb]
    exact dataOf_indented hlegible
  have hparts : partsOf f.bytes = .ok (c.cleaner.fields, c.runtime.fields) :=
    partsOf_eq_ok hdata rfl rfl
  have hsettings : (withVars { root := c.root } w''.env).settingsFile = c.settingsFile := rfl
  obtain ⟨w₃, hload, -⟩ := run_loadAll (c := { root := c.root }) hs'
    (run_loadEnv henv rfl) (hsettings ▸ hn) (hsettings ▸ hfile.trans hf)
  rw [hparts] at hload
  refine ⟨_, w₃, hload, ?_, ?_⟩
  · exact CleanerSettings.orDefaults_overlay hreg.cleaner hreg.cleanerExtras
      fun f => known_of_mem_cleanerVars
  · exact RuntimeSettings.orDefaults_overlay hreg.runtime hreg.runtimeExtras
      fun f => known_of_mem_runtimeVars

/-- A configuration with a method and a field that is not known. -/
def noted : Config :=
  (override { root := ⟨"/", []⟩ } [("console_methods", listJson [" log "]), ("note", .bool true)] []).1

theorem reachable_noted : Reachable ⟨"/", []⟩ noted :=
  .override .new ⟨by decide, Json.distinct_listJson _, trivial, trivial⟩ Json.distinct_nil

/-- It can be saved in a project with nothing in its settings file, and no file is open. -/
theorem exists_run_save_noted {disk : Disk} (hs : w.Sound)
    (hmade : w.disk.stat "/.console-cleaner" = .ok .dir)
    (hwrite : w.disk.write "/.console-cleaner/settings.json" (encode noted.payload.indented) =
      .ok disk) (hheld : disk.held = []) :
    ∃ w', noted.save.run.run w = (.ok noted.settingsFile, w') ∧ w'.disk = disk := by
  have hdir : noted.configDir.text = "/.console-cleaner" := by decide +kernel
  have hfile : noted.settingsFile.text = "/.console-cleaner/settings.json" := by decide +kernel
  have hmade : (makeDirs noted.configDir).run.run w = (.ok (), w) :=
    run_makeDirs (by decide +kernel) (hdir ▸ hmade)
  have hwritable : noted.payload.isWritable = true := by decide +kernel
  have hdepth : ¬ Json.depthLimit < noted.payload.depth := by decide +kernel
  have hwrite : (writeText noted.settingsFile.text noted.payload.indented).run.run w =
      (.ok (), { w with disk }) :=
    run_writeText_of_write (by decide +kernel) (hfile ▸ hwrite)
  obtain ⟨_, w', hlog, hlater⟩ := calm_log logger Log.info
    ("Saved config to: " ++ noted.settingsFile.text) { w with disk } hs
  refine ⟨w', ?_, hlater.disk.eq_of_none fun p hp => hp.elim (Disk.not_open hheld) id⟩
  unfold save
  rw [run_bind_eq hmade, hwritable, Bool.not_true, if_neg Bool.false_ne_true]
  dsimp only
  rw [if_neg hdepth, run_bind_eq hwrite, run_bind_eq hlog]
  rfl

/-- An ordinary file holds them then. -/
theorem exists_run_save_project : ∃ w', noted.save.run.run (project [("HOME", "/")] []) =
      (.ok noted.settingsFile, w') ∧ w'.disk = (project [("HOME", "/")] []).disk.putFile
        [".console-cleaner", "settings.json"] (encode noted.payload.indented) :=
  exists_run_save_noted (sound_project _ _) (stat_project _ _)
    (Disk.update_eq_putFile (file?_project _ _) rfl (.inr List.not_mem_nil)) rfl

/-- They come back in an environment that names another method. -/
theorem noted_settings_reload : ∃ w', noted.save.run.run (project [("HOME", "/")] []) =
      (.ok noted.settingsFile, w') ∧ ∃ c w₃, (loadAll { root := ⟨"/", []⟩ }).run.run
        { w' with env := [("HOME", "/"), ("CONSOLE_CLEANER_METHODS", "warn")], metrics := none } =
          (.ok (c, none), w₃) ∧
      c.cleaner.methods = ["log"] ∧ c.cleaner.extras = [("note", .bool true)] := by
  obtain ⟨w', hsave, hdisk⟩ := exists_run_save_project
  have hreals : ∀ x ∈ noted.payload.reals, Json.Returns x := by
    have hlist : noted.payload.reals = [1.0, 2.0] := by with_unfolding_all rfl
    rw [hlist]
    simp only [List.forall_mem_cons, List.not_mem_nil, false_implies, implies_true, and_true]
    constructor <;> unfold Json.Returns <;> with_unfolding_all rfl
  have hsound : World.Sound { w' with
      env := [("HOME", "/"), ("CONSOLE_CLEANER_METHODS", "warn")], metrics := none } :=
    fun _ h => by simp at h
  obtain ⟨c, w₃, hload, hcleaner, -⟩ := saved_settings_reload reachable_noted (sound_project _ _)
    hsave (fun q _ => Disk.not_open (by rw [hdisk]; rfl))
    (fun q _ => by rw [hdisk]; exact List.not_mem_nil) hreals hsound rfl
    (noEnvFiles_of_free (by rw [hdisk]; rfl) rfl (by rw [hdisk]; rfl) (by rw [hdisk]; rfl))
  refine ⟨w', hsave, c, w₃, hload, ?_, ?_⟩
  · rw [hcleaner]
    with_unfolding_all rfl
  · rw [hcleaner]
    with_unfolding_all rfl

/-- A project whose settings file is a device. -/
def deviceProject : World :=
  project [("HOME", "/")] [] { sinks := [[".console-cleaner", "settings.json"]] }

/-- Nothing comes back from a device. -/
theorem exists_run_loadAll_device : ∃ w', noted.save.run.run deviceProject =
      (.ok noted.settingsFile, w') ∧ ∃ c w₃, (loadAll { root := ⟨"/", []⟩ }).run.run
        { w' with env := [("HOME", "/")], metrics := none } = (.ok (c, none), w₃) ∧
      c.cleaner.extras ≠ noted.cleaner.extras := by
  obtain ⟨w', hsave, hdisk⟩ := exists_run_save_noted (w := deviceProject) (sound_project _ _)
    (stat_project _ _) (Disk.update_of_sink (file?_project _ _) rfl rfl List.mem_cons_self) rfl
  have hsound : World.Sound { w' with env := [("HOME", "/")], metrics := none } :=
    fun _ h => by simp at h
  obtain ⟨w₃, hload, -⟩ := run_loadAll (c := { root := ⟨"/", []⟩ }) hsound
    (run_loadEnv (noEnvFiles_of_free (by rw [hdisk]; rfl) rfl (by rw [hdisk]; rfl)
      (by rw [hdisk]; rfl)) rfl)
    (show '\x00' ∉ (settingsFile { root := ⟨"/", []⟩ }).text.toList by decide +kernel)
    (by rw [hdisk]; exact file?_project _ _)
  refine ⟨w', hsave, _, w₃, hload, ?_⟩
  have hnoted : noted.cleaner.extras = [("note", .bool true)] := by with_unfolding_all rfl
  rw [hnoted]
  exact (List.cons_ne_nil _ _).symm

/-- They do not, if there is no telling where the home directory is, or if the settings file is a
device. -/
theorem noted_settings_lost :
    (∃ w', noted.save.run.run (project [("HOME", "/")] []) = (.ok noted.settingsFile, w') ∧
      ∃ c w₃, (loadAll { root := ⟨"/", []⟩ }).run.run { w' with env := [("HOME", "~x")] } =
        (.ok (c, some .unresolvable), w₃)) ∧
    ∃ w', noted.save.run.run deviceProject = (.ok noted.settingsFile, w') ∧
      ∃ c w₃, (loadAll { root := ⟨"/", []⟩ }).run.run
        { w' with env := [("HOME", "/")], metrics := none } = (.ok (c, none), w₃) ∧
          c.cleaner.extras ≠ noted.cleaner.extras := by
  refine ⟨?_, exists_run_loadAll_device⟩
  obtain ⟨w', hsave, hdisk⟩ := exists_run_save_project
  refine ⟨w', hsave, { root := ⟨"/", []⟩ }, { w' with env := [("HOME", "~x")] }, ?_⟩
  have hcwd : Sweep.cwd.run.run { w' with env := [("HOME", "~x")] } =
      (.ok "/", { w' with env := [("HOME", "~x")] }) := by
    unfold Sweep.cwd
    rw [run_bind_eq (run_world _), hdisk]
    rfl
  have hhome : home.run.run { w' with env := [("HOME", "~x")] } =
      (.error .unresolvable, { w' with env := [("HOME", "~x")] }) := rfl
  unfold loadAll loadEnv
  rw [run_bind_eq (run_attempt _ _), run_bind_eq hcwd, run_bind_fault hhome]
  rfl

end Config

end ConsoleSweep
