/-
  Which of the places that a setting can come from decides.

  An option of the command line goes before the settings file, the file before a variable of
  the environment, and the variable before the default, for each field on its own
  (`Source.Decides`). The rules of the fields are applied more than once on the way, which
  makes no difference, since settings come through their own validation. Fields that are not
  known are those of the file.
-/
import ConsoleSweep.Program
import ConsoleSweep.Proofs.Config.Load

namespace ConsoleSweep

open Sweep Settings Text

/-! ## Where a field can come from -/

/-- A field, and where its value can come from besides the settings file: an option of the command
line, and a variable of the environment. -/
structure Source where
  field : String
  option : Options → Option Json
  inEnv : List (String × String) → Option Json

namespace Source

/-- The option is given, and not empty. -/
def given (value : Option String) : Option String :=
  value.filter (· ≠ "")

def methods : Source where
  field := "console_methods"
  option o := (given o.methods).map fun v => listJson (splitAt ',' v)
  inEnv env := ((Config.listIn env "CONSOLE_CLEANER_METHODS").filter (!·.isEmpty)).map listJson

def ignored : Source where
  field := "ignore_folders"
  option _ := none
  inEnv env := (Config.listIn env "CONSOLE_CLEANER_IGNORE").map listJson

def endings : Source where
  field := "file_extensions"
  option _ := none
  inEnv env := ((Config.listIn env "CONSOLE_CLEANER_EXTENSIONS").filter (!·.isEmpty)).map listJson

def scanFirst : Source where
  field := "auto_scan_on_startup"
  option _ := none
  inEnv _ := none

def confirm : Source where
  field := "confirm_before_cleaning"
  option _ := none
  inEnv env := (Config.filledIn env "CONSOLE_CLEANER_CONFIRM").map fun word =>
    .bool (Config.isYes word)

def logLevel : Source where
  field := "log_level"
  option o := (given o.logLevel).map fun v => .str (String.ofList (upper v.toList))
  inEnv env := ((Config.filledIn env "LOG_LEVEL").map fun word =>
    String.ofList (upper word.toList)).map .str

def storePath : Source where
  field := "store_path"
  option o := (given o.store).map .str
  inEnv env := (Config.filledIn env "CONSOLE_CLEANER_STORE").map .str

def reportPath : Source where
  field := "report_path"
  option o := (given o.report).map .str
  inEnv env := (Config.filledIn env "CONSOLE_CLEANER_REPORT").map .str

def metricsPath : Source where
  field := "metrics_path"
  option o := (given o.metrics).map .str
  inEnv env := (Config.filledIn env "CONSOLE_CLEANER_METRICS").map .str

def watchInterval : Source where
  field := "watch_interval"
  option _ := none
  inEnv _ := none

def debounce : Source where
  field := "debounce_seconds"
  option _ := none
  inEnv _ := none

/-- The value of the field is read by its rule from the option, else from the settings file, else
from the variable; if there is none of them, it is the default. -/
def Decides {α : Type} (s : Source) (rule : String → Json → Checked α) (default : α) (o : Options)
    (file : Raw) (env : List (String × String)) (x : α) : Prop :=
  match (s.option o).or ((file.lookup s.field).or (s.inEnv env)) with
  | some v => rule s.field v = .ok x
  | none => x = default

/-- The settings are layered twice: the file on the environment, and the options on what was
validated then. -/
theorem decides_of_layers {α : Type} {s : Source} {rule : String → Json → Checked α}
    {default x y : α} {o : Options} {env : List (String × String)} {vars file fields top : Raw}
    (hfile : Json.KeyedOnce file) (htop : Json.KeyedOnce top)
    (hoption : top.lookup s.field = s.option o) (henv : vars.lookup s.field = s.inEnv env)
    (hx : fieldOr (Json.overlay vars file) s.field rule default = .ok x)
    (hfix : fieldOr fields s.field rule default = .ok x) (hhas : (fields.lookup s.field).isSome)
    (hy : fieldOr (Json.overlay fields top) s.field rule default = .ok y) :
    s.Decides rule default o file env y := by
  obtain ⟨old, hold⟩ := Option.isSome_iff_exists.1 hhas
  have hfix : rule s.field old = .ok x := (fieldOr_of_some hold).symm.trans hfix
  have hupper := Json.lookup_overlay htop fields s.field
  have hlower := Json.lookup_overlay hfile vars s.field
  rw [hoption, hold] at hupper
  rw [henv] at hlower
  unfold Decides
  cases hs : s.option o with
  | some v =>
    rw [hs] at hupper
    exact (fieldOr_of_some hupper).symm.trans hy
  | none =>
    -- The options say nothing, so the value is the one that was validated before.
    rw [hs] at hupper
    obtain rfl : x = y := Except.ok.inj (hfix.symm.trans ((fieldOr_of_some hupper).symm.trans hy))
    rw [Option.none_or, ← hlower]
    cases hl : (Json.overlay vars file).lookup s.field with
    | some v => exact (fieldOr_of_some hl).symm.trans hx
    | none => exact (Except.ok.inj ((fieldOr_of_none hl).symm.trans hx)).symm

end Source

/-! ## The options -/

namespace Program

variable {o : Options}

theorem lookup_overrideField (key : String) (toJson : String → Json) (value : Option String)
    (k : String) : (overrideField key toJson value).lookup k =
      if k = key then (Source.given value).map toJson else none := by
  unfold overrideField Source.given
  split
  · simp
  · simp [Option.filter]
  · next v hv =>
    have hne : v ≠ "" := fun e => hv (e ▸ rfl)
    by_cases h : k = key
    · simp [h, Option.filter, hne]
    · simp [h, List.lookup_cons, beq_false_of_ne h]

theorem keys_overrideField (key : String) (toJson : String → Json) (value : Option String) :
    ((overrideField key toJson value).map (·.1)).Sublist [key] := by
  unfold overrideField
  split
  · exact List.nil_sublist _
  · exact List.nil_sublist _
  · exact List.Sublist.refl _

theorem keys_cleanerOverrides (o : Options) :
    ((cleanerOverrides o).map (·.1)).Sublist ["console_methods"] :=
  keys_overrideField _ _ _

theorem keys_runtimeOverrides (o : Options) : ((runtimeOverrides o).map (·.1)).Sublist
    (((["store_path"] ++ ["report_path"]) ++ ["metrics_path"]) ++ ["log_level"]) := by
  unfold runtimeOverrides
  simp only [List.map_append]
  exact (((keys_overrideField _ _ _).append (keys_overrideField _ _ _)).append
    (keys_overrideField _ _ _)).append (keys_overrideField _ _ _)

theorem lookup_runtimeOverrides (o : Options) :
    (runtimeOverrides o).lookup "log_level" = Source.logLevel.option o ∧
    (runtimeOverrides o).lookup "store_path" = Source.storePath.option o ∧
    (runtimeOverrides o).lookup "report_path" = Source.reportPath.option o ∧
    (runtimeOverrides o).lookup "metrics_path" = Source.metricsPath.option o ∧
    (runtimeOverrides o).lookup "watch_interval" = none ∧
    (runtimeOverrides o).lookup "debounce_seconds" = none := by
  simp [runtimeOverrides, List.lookup_append, lookup_overrideField, Source.logLevel,
    Source.storePath, Source.reportPath, Source.metricsPath]

theorem keyedOnce_cleanerOverrides (o : Options) : Json.KeyedOnce (cleanerOverrides o) :=
  List.Nodup.sublist (keys_cleanerOverrides o) (by decide)

theorem keyedOnce_runtimeOverrides (o : Options) : Json.KeyedOnce (runtimeOverrides o) :=
  List.Nodup.sublist (keys_runtimeOverrides o) (by decide)

theorem known_of_mem_cleanerOverrides {f : String × Json} (h : f ∈ cleanerOverrides o) :
    f.1 ∈ CleanerSettings.known := by
  have hkey := (keys_cleanerOverrides o).subset (List.mem_map_of_mem h)
  have hknown : ∀ k ∈ ["console_methods"], k ∈ CleanerSettings.known := by decide
  exact hknown _ hkey

theorem known_of_mem_runtimeOverrides {f : String × Json} (h : f ∈ runtimeOverrides o) :
    f.1 ∈ RuntimeSettings.known := by
  have hkey := (keys_runtimeOverrides o).subset (List.mem_map_of_mem h)
  have hknown : ∀ k ∈ ((["store_path"] ++ ["report_path"]) ++ ["metrics_path"]) ++ ["log_level"],
      k ∈ RuntimeSettings.known := by decide
  exact hknown _ hkey

end Program

/-! ## Settings by precedence -/

open Program

/-- Each field of the settings on what is swept is decided by precedence. -/
structure CleanerSettings.Decided (o : Options) (file : Raw) (env : List (String × String))
    (s : CleanerSettings) : Prop where
  methods : Source.methods.Decides methodNames defaultMethods o file env s.methods
  ignored : Source.ignored.Decides folderNames defaultIgnored o file env s.ignored
  endings : Source.endings.Decides fileEndings defaultEndings o file env s.endings
  scanFirst : Source.scanFirst.Decides Settings.bool true o file env s.scanFirst
  confirm : Source.confirm.Decides Settings.bool true o file env s.confirm
  extras : s.extras = extrasOf known file

/-- Each field of the settings on the files of a run is decided by precedence. -/
structure RuntimeSettings.Decided (o : Options) (file : Raw) (env : List (String × String))
    (s : RuntimeSettings) : Prop where
  logLevel : Source.logLevel.Decides Settings.string "INFO" o file env s.logLevel
  storePath : Source.storePath.Decides Settings.string ".console-cleaner/scan_results.json" o file
    env s.storePath
  reportPath : Source.reportPath.Decides optionalString none o file env s.reportPath
  metricsPath : Source.metricsPath.Decides optionalString none o file env s.metricsPath
  watchInterval : Source.watchInterval.Decides positive 1.0 o file env s.watchInterval
  debounce : Source.debounce.Decides notNegative 2.0 o file env s.debounce
  extras : s.extras = extrasOf known file

theorem CleanerSettings.decided_of_validate {o : Options} {file : Raw}
    {env : List (String × String)} {s s' : CleanerSettings} (hfile : Json.KeyedOnce file)
    (h : validate (Json.overlay (Config.cleanerVars env) file) = .ok s)
    (h' : validate (Json.overlay s.fields (cleanerOverrides o)) = .ok s') : s'.Decided o file env := by
  have hvalid := valid_of_validate h
  obtain ⟨m₁, i₁, e₁, s₁, c₁, x₁⟩ := validate_eq_ok.1 h
  obtain ⟨m₂, i₂, e₂, s₂, c₂, -⟩ := validate_eq_ok.1 (validate_fields hvalid)
  obtain ⟨m₃, i₃, e₃, s₃, c₃, x₃⟩ := validate_eq_ok.1 h'
  obtain ⟨vm, vi, ve, vs, vc⟩ := Config.lookup_cleanerVars env
  have htop := keyedOnce_cleanerOverrides o
  have hhas : ∀ k ∈ known, (s.fields.lookup k).isSome := fun k => isSome_lookup_fields s
  have hoption : ∀ k, (cleanerOverrides o).lookup k =
      if k = "console_methods" then Source.methods.option o else none := fun k =>
    lookup_overrideField _ _ _ k
  refine ⟨?_, ?_, ?_, ?_, ?_, ?_⟩
  · exact Source.decides_of_layers hfile htop (hoption _) vm m₁ m₂ (hhas _ (by decide)) m₃
  · exact Source.decides_of_layers hfile htop (hoption _) vi i₁ i₂ (hhas _ (by decide)) i₃
  · exact Source.decides_of_layers hfile htop (hoption _) ve e₁ e₂ (hhas _ (by decide)) e₃
  · exact Source.decides_of_layers hfile htop (hoption _) vs s₁ s₂ (hhas _ (by decide)) s₃
  · exact Source.decides_of_layers hfile htop (hoption _) vc c₁ c₂ (hhas _ (by decide)) c₃
  · rw [← x₃, extrasOf_overlay_of_known fun f => known_of_mem_cleanerOverrides,
      hvalid.extrasOf_fields, ← x₁,
      extrasOf_overlay_known (fun f => Config.known_of_mem_cleanerVars) hfile]

theorem RuntimeSettings.decided_of_validate {o : Options} {file : Raw}
    {env : List (String × String)} {s s' : RuntimeSettings} (hfile : Json.KeyedOnce file)
    (h : validate (Json.overlay (Config.runtimeVars env) file) = .ok s)
    (h' : validate (Json.overlay s.fields (runtimeOverrides o)) = .ok s') : s'.Decided o file env := by
  have hvalid := valid_of_validate h
  obtain ⟨l₁, s₁, r₁, m₁, w₁, d₁, x₁⟩ := validate_eq_ok.1 h
  obtain ⟨l₂, s₂, r₂, m₂, w₂, d₂, -⟩ := validate_eq_ok.1 (validate_fields hvalid)
  obtain ⟨l₃, s₃, r₃, m₃, w₃, d₃, x₃⟩ := validate_eq_ok.1 h'
  obtain ⟨vl, vs, vr, vm, vw, vd⟩ := Config.lookup_runtimeVars env
  obtain ⟨ol, os, or, om, ow, od⟩ := lookup_runtimeOverrides o
  have htop := keyedOnce_runtimeOverrides o
  have hhas : ∀ k ∈ known, (s.fields.lookup k).isSome := fun k => isSome_lookup_fields s
  refine ⟨?_, ?_, ?_, ?_, ?_, ?_, ?_⟩
  · exact Source.decides_of_layers hfile htop ol vl l₁ l₂ (hhas _ (by decide)) l₃
  · exact Source.decides_of_layers hfile htop os vs s₁ s₂ (hhas _ (by decide)) s₃
  · exact Source.decides_of_layers hfile htop or vr r₁ r₂ (hhas _ (by decide)) r₃
  · exact Source.decides_of_layers hfile htop om vm m₁ m₂ (hhas _ (by decide)) m₃
  · exact Source.decides_of_layers hfile htop ow vw w₁ w₂ (hhas _ (by decide)) w₃
  · exact Source.decides_of_layers hfile htop od vd d₁ d₂ (hhas _ (by decide)) d₃
  · rw [← x₃, extrasOf_overlay_of_known fun f => known_of_mem_runtimeOverrides,
      hvalid.extrasOf_fields, ← x₁,
      extrasOf_overlay_known (fun f => Config.known_of_mem_runtimeVars) hfile]

/-! ## The whole -/

namespace Config

variable {c : Config} {top : Raw}

/-- Without fields to put on top, validation has nothing to change either. -/
theorem overrideCleaner_eq_ok {s : CleanerSettings} (hc : c.cleaner.Valid)
    (h : CleanerSettings.validate (Json.overlay c.cleaner.fields top) = .ok s) :
    c.overrideCleaner top = .ok { c with cleaner := s } := by
  unfold overrideCleaner
  split
  · next hempty =>
    obtain rfl : top = [] := List.isEmpty_iff.1 hempty
    rw [← Except.ok.inj ((CleanerSettings.validate_fields hc).symm.trans h)]
  · rw [h]

theorem overrideRuntime_eq_ok {s : RuntimeSettings} (hc : c.runtime.Valid)
    (h : RuntimeSettings.validate (Json.overlay c.runtime.fields top) = .ok s) :
    c.overrideRuntime top = .ok { c with runtime := s } := by
  unfold overrideRuntime
  split
  · next hempty =>
    obtain rfl : top = [] := List.isEmpty_iff.1 hempty
    rw [← Except.ok.inj ((RuntimeSettings.validate_fields hc).symm.trans h)]
  · rw [h]

theorem override_eq {cleanerTop runtimeTop : Raw} {a : CleanerSettings} {b : RuntimeSettings}
    (hc : c.cleaner.Valid) (hr : c.runtime.Valid)
    (ha : CleanerSettings.validate (Json.overlay c.cleaner.fields cleanerTop) = .ok a)
    (hb : RuntimeSettings.validate (Json.overlay c.runtime.fields runtimeTop) = .ok b) :
    c.override cleanerTop runtimeTop = ({ c with cleaner := a, runtime := b }, none) := by
  have hb' : overrideRuntime { c with cleaner := a } runtimeTop =
      .ok { c with cleaner := a, runtime := b } := overrideRuntime_eq_ok hr hb
  unfold override
  rw [overrideCleaner_eq_ok hc ha]
  dsimp only
  rw [hb']

/-- A part of the settings file that is an object, null or absent. -/
def Usable (data : Raw) (key : String) : Prop :=
  data.lookup key = none ∨ data.lookup key = some .null ∨ ∃ fs, data.lookup key = some (.obj fs)

theorem section_eq_ok {data : Raw} {key : String} (h : Usable data key) :
    section_ data key = .ok (partIn data key) := by
  unfold section_ partIn
  rcases h with h | h | ⟨fs, h⟩
  · rw [h]
  · rw [h]
    rfl
  · rw [h]

theorem keyedOnce_partIn {data : Raw} (h : Json.Distinct (.obj data)) (key : String) :
    Json.KeyedOnce (partIn data key) := by
  unfold partIn
  split
  · next fs hl => exact (Json.distinctFields_iff.1 h.2 _ (Json.mem_of_lookup hl)).1
  · exact Json.keyedOnce_nil

/-- The settings are those that the options ask for, then those of the settings file, then those of
the environment, then the defaults, each field on its own. Before the options are put on top, a
group that cannot be used is all defaults, and the other one is not affected. Fields that are not
known and differ in half a pair of units only are taken for one (`Json.codeChar`). -/
theorem settings_by_precedence {root : Path} {w w₁ : World} {c₁ : Config} {text : List Char}
    {data : Raw} (o : Options) (hs : w.Sound)
    (henv : (loadEnv { root }).run.run w = (.ok c₁, w₁))
    (htext : (readText c₁.settingsFile.text).outcome w₁ = .ok text)
    (hdata : Json.parse (trim (unifyBreaks text)) = .ok (.obj data))
    (hcleaner : Usable data "cleaner") (hruntime : Usable data "runtime") :
    let cleanerRaw := Json.overlay c₁.cleanerEnv (partIn data "cleaner")
    let runtimeRaw := Json.overlay c₁.runtimeEnv (partIn data "runtime")
    ∃ c₂ w₂, (loadAll { root }).run.run w = (.ok (c₂, none), w₂) ∧
      c₂.cleaner = CleanerSettings.orDefaults cleanerRaw ∧
      c₂.runtime = RuntimeSettings.orDefaults runtimeRaw ∧
      ∀ a b a' b', CleanerSettings.validate cleanerRaw = .ok a →
        RuntimeSettings.validate runtimeRaw = .ok b →
        CleanerSettings.validate (Json.overlay a.fields (cleanerOverrides o)) = .ok a' →
        RuntimeSettings.validate (Json.overlay b.fields (runtimeOverrides o)) = .ok b' →
        ∃ c₃, c₂.override (cleanerOverrides o) (runtimeOverrides o) = (c₃, none) ∧
          c₃.cleaner.Decided o (partIn data "cleaner") w₁.env ∧
          c₃.runtime.Decided o (partIn data "runtime") w₁.env := by
  intro cleanerRaw runtimeRaw
  obtain ⟨loadedEnv, rfl⟩ := exists_of_run_loadEnv henv
  obtain ⟨hn, f, hf, hdecode⟩ := exists_file_of_readText htext
  obtain ⟨w₂, hload, -⟩ := run_loadAll hs henv hn hf
  have hread : dataOf f.bytes = .ok data := by
    unfold dataOf
    simp only [hdecode, hdata]
  rw [partsOf_eq_ok hread (section_eq_ok hcleaner) (section_eq_ok hruntime)] at hload
  have hdistinct := Json.distinct_of_parse hdata
  refine ⟨_, w₂, hload, rfl, rfl, fun a b a' b' ha hb ha' hb' => ?_⟩
  have ha₂ : CleanerSettings.orDefaults cleanerRaw = a := by
    simp only [CleanerSettings.orDefaults, ha]
  have hb₂ : RuntimeSettings.orDefaults runtimeRaw = b := by
    simp only [RuntimeSettings.orDefaults, hb]
  refine ⟨_, override_eq (CleanerSettings.valid_orDefaults _) (RuntimeSettings.valid_orDefaults _)
    (ha₂ ▸ ha') (hb₂ ▸ hb'), ?_, ?_⟩
  · exact CleanerSettings.decided_of_validate (keyedOnce_partIn hdistinct _) ha ha'
  · exact RuntimeSettings.decided_of_validate (keyedOnce_partIn hdistinct _) hb hb'

/-- A settings file with one part, which has a field that is not known. -/
def layeredData : Raw :=
  [("cleaner", .obj [("console_methods", listJson ["error"]), ("ignore_folders", listJson [" x "]),
    ("note", .str "kept")]), ("runtime", .null)]

def layeredEnv : List (String × String) :=
  [("HOME", "/"), ("CONSOLE_CLEANER_METHODS", "log"), ("CONSOLE_CLEANER_IGNORE", "dist"),
    ("CONSOLE_CLEANER_STORE", "e.json"), ("LOG_LEVEL", "debug")]

/-- The methods are given; the store is given, but empty. -/
def layeredOptions : Options :=
  { configRoot := none, store := some "", report := none, metrics := none
    methods := some "info,warn", logLevel := none }

/-- Each place decides some field: the option the methods, the file the folders, a variable the
store, and the default the report. -/
theorem settings_of_layered : ∃ c₂ w₂ c₃,
    (loadAll { root := ⟨"/", []⟩ }).run.run
        (project layeredEnv (encode (Json.obj layeredData).indented)) = (.ok (c₂, none), w₂) ∧
      c₂.override (cleanerOverrides layeredOptions) (runtimeOverrides layeredOptions) = (c₃, none) ∧
      c₃.cleaner.methods = ["info", "warn"] ∧ c₃.cleaner.ignored = ["x"] ∧
      c₃.cleaner.extras = [("note", .str "kept")] ∧ c₃.runtime.storePath = "e.json" ∧
      c₃.runtime.logLevel = "DEBUG" ∧ c₃.runtime.reportPath = none := by
  have hlegible : Json.Legible Json.depthLimit (.obj layeredData) := by
    simp [layeredData, listJson, Json.Legible, Json.LegibleItems, Json.LegibleFields,
      Json.depthLimit]
  have hfile : (project layeredEnv (encode (Json.obj layeredData).indented)).disk.text?
      "/.console-cleaner/settings.json" = some (Json.obj layeredData).indented := by
    unfold Disk.text?
    rw [file?_project, Option.bind_some, decode_encode]
    rfl
  have htext := congrArg Prod.fst (run_readText (by decide +kernel) hfile)
  have hdata : Json.parse (trim (unifyBreaks (Json.obj layeredData).indented)) =
      .ok (.obj layeredData) := by
    rw [Json.trim_indented, Json.parse_indented hlegible]
  obtain ⟨c₂, w₂, hload, -, -, hdecided⟩ := settings_by_precedence layeredOptions
    (sound_project _ _) (run_loadEnv (noEnvFiles_project rfl) rfl) htext hdata
    (.inr (.inr ⟨_, rfl⟩)) (.inr (.inl rfl))
  obtain ⟨c₃, hoverride, hcleaner, hruntime⟩ := hdecided _ _ _ _
    (by with_unfolding_all rfl) (by with_unfolding_all rfl) (by with_unfolding_all rfl)
    (by with_unfolding_all rfl)
  refine ⟨c₂, w₂, c₃, hload, hoverride, ?_, ?_, hcleaner.extras, ?_, ?_, hruntime.reportPath⟩
  · exact (Except.ok.inj hcleaner.methods).symm
  · exact (Except.ok.inj hcleaner.ignored).symm
  · exact (Except.ok.inj hruntime.storePath).symm
  · exact (Except.ok.inj hruntime.logLevel).symm

end Config

end ConsoleSweep
