/-
  Frames of the parts of the program.

  Reading the configuration changes the environment, and no file. Scanning and watching
  change no file. A store is saved at the path it is given, and loggers open files at paths
  that the environment, the date and the working directory tell (`Logger.LogAt`). What is
  logged goes to files that are open. A log file that has grown long would be moved to a
  numbered name; those names count as names of log files too, though no step here makes one.
-/
import ConsoleSweep.Config
import ConsoleSweep.Log.Logger
import ConsoleSweep.Proofs.Frame
import ConsoleSweep.Store.Files
import ConsoleSweep.Watch

namespace ConsoleSweep

open Sweep

variable {I : View → Prop} {P : String → Prop}

/-! ## Loggers -/

namespace Logger

theorem frame_isOn (name default : String) : Frame I P (isOn name default) :=
  (frame_lookupVar name).bind fun _ => frame_pure _

theorem frame_addHandler (h : Log.Handler) : Frame I P (addHandler h) :=
  frame_of_same fun _ => ⟨rfl, rfl⟩

/-- The directory of the log files. -/
def logDir (v : View) : Path :=
  Path.ofString ((v.env.lookup "CONSOLE_CLEANER_LOG_DIR").getD "logs")

/-- The path is that of a log file whose name starts in a certain way, or of one of its
`backups` earlier parts, which are numbered from 1. -/
def LogNamed (w : World) (stem : String) (backups : Nat) (path : String) : Prop :=
  ∃ date base, Time.compactDate w.now = .ok date ∧
    (Sweep.absolute ((logDir w.view).child (stem ++ date ++ ".log")).text).outcome w = .ok base ∧
    (path = base ∨ ∃ n, 1 ≤ n ∧ n ≤ backups ∧ path = base ++ "." ++ Text.ofNat n)

/-- The path is that of a log file that the environment asks for. -/
def LogAt (w : World) (path : String) : Prop :=
  (isOn "LOG_TO_FILE" "1").outcome w = .ok true ∧
    (LogNamed w "console_cleaner_" 5 path ∨
      (isOn "ENABLE_JSON_LOGGING" "0").outcome w = .ok true ∧
        LogNamed w "console_cleaner_json_" 3 path)

theorem outcome_isOn {w w' : World} (h : w.view = w'.view) (name default : String) :
    (isOn name default).outcome w = (isOn name default).outcome w' := by
  have he : w.env = w'.env := congrArg View.env h
  change Except.ok _ = Except.ok _
  rw [he]

theorem frame_openFile {w : World} {stem date : String} {backups : Nat}
    (hP : ∀ path, LogNamed w stem backups path → P path)
    (hd : Time.compactDate w.now = .ok date) :
    Frame (· = w.view) P (openFile (logDir w.view) (stem ++ date ++ ".log")) := by
  refine (frame_absolute _).bind_of fun w' path hv ho => ?_
  rw [outcome_absolute hv] at ho
  exact frame_holdFile (hP path ⟨date, path, hd, ho, .inl rfl⟩)

theorem frame_prepare {w : World} (hP : ∀ path, LogAt w path → P path) (level : Log.Level) :
    Frame (· = w.view) P (prepare level) := by
  unfold prepare
  refine frame_world.bind fun _ => Frame.ite (frame_pure _) ?_
  refine (frame_lookupVar _).bind fun _ => (frame_ofExcept _).bind fun _ => ?_
  refine Frame.bind (frame_modify ?_) fun _ => ?_
  · intro w; exact ⟨rfl, rfl⟩
  have last : Frame (· = w.view) P (do
      if ← isOn "METRICS_ENABLED" "1" then addHandler ⟨0, .counters⟩) :=
    (frame_isOn _ _).bind fun _ => Frame.ite (frame_addHandler _) (frame_pure _)
  refine (frame_addHandler _).bind fun _ => (frame_isOn _ _).bind_of fun w₀ on hv₀ hon => ?_
  dsimp only
  split
  case isFalse => exact last
  case isTrue h =>
    -- The view is that of `w`: so are the switches, the directory and the date.
    rw [outcome_isOn hv₀, h] at hon
    refine (frame_lookupVar _).bind_of fun w₁ dir hv₁ hdir => (frame_makeDirs _).bind fun _ => ?_
    refine frame_world.bind_of fun w₂ w₂' hv₂ hw₂ => ?_
    refine (frame_ofExcept _).bind_of fun w₃ date _ hdate => ?_
    obtain rfl : w₁.env.lookup "CONSOLE_CLEANER_LOG_DIR" = dir := Except.ok.inj hdir
    obtain rfl : w₂ = w₂' := Except.ok.inj hw₂
    have he : w₁.env = w.view.env := congrArg View.env hv₁
    have hd : Time.compactDate w.now = .ok date := by
      have hn : w₂.now = w.now := congrArg View.now hv₂
      rw [hn] at hdate
      exact outcome_ofExcept hdate
    rw [he]
    have plain : ∀ path, LogNamed w "console_cleaner_" 5 path → P path := fun path hl =>
      hP path ⟨hon, .inl hl⟩
    refine (frame_openFile plain hd).bind fun _ => (frame_addHandler _).bind fun _ => ?_
    refine (frame_isOn _ _).bind_of fun w₄ json hv₄ hjson => ?_
    split
    case isFalse => exact last
    case isTrue h' =>
      rw [outcome_isOn hv₄, h'] at hjson
      have structured : ∀ path, LogNamed w "console_cleaner_json_" 3 path → P path :=
        fun path hl => hP path ⟨hon, .inr ⟨hjson, hl⟩⟩
      exact (frame_openFile structured hd).bind fun _ => (frame_addHandler _).bind fun _ => last

/-- A logger opens log files only. -/
theorem frame_create {w : World} (hP : ∀ path, LogAt w path → P path) (name : String)
    (level : Option String) : Frame (· = w.view) P (create name level) := by
  unfold create
  cases level
  case' some word => refine (frame_pure word).bind ?_
  case' none => refine (frame_lookupVar _).bind fun _ => (frame_pure _).bind ?_
  all_goals
    intro word
    refine Frame.bind (frame_modify ?_) fun _ => (frame_ofExcept _).bind fun level => ?_
    · intro w; exact ⟨rfl, rfl⟩
    refine Frame.bind (frame_modify ?_) fun _ => frame_world.bind fun _ => ?_
    · intro w; exact ⟨rfl, rfl⟩
    refine Frame.ite ((frame_prepare hP level).bind fun _ => ?_) (frame_pure _)
    refine Frame.bind (frame_modify ?_) fun _ => frame_pure _
    intro w; exact ⟨rfl, rfl⟩

theorem frame_log (l : Logger) (level : Log.Level) (message : String) :
    Frame I P (l.log level message) :=
  Sweep.frame_log _ _ _

theorem frame_messageLevel (word : String) (default : Log.Level) :
    Frame I P (messageLevel word default) := by
  unfold messageLevel
  split
  · exact frame_pure _
  · exact frame_fail _

theorem frame_activity (l : Logger) (action details : Json) (word : String) :
    Frame I P (l.activity action details word) :=
  (frame_messageLevel _ _).bind fun _ => (frame_logWith _ _ _ _ _).bind fun _ => frame_count _

theorem frame_performance (l : Logger) (operation : String) (duration : Number) :
    Frame I P (l.performance operation duration) := by
  unfold performance
  refine Frame.ite ?_ ?_
  · exact (frame_fail _).bind fun _ => l.frame_log _ _
  · exact l.frame_log _ _

theorem frame_timed {α : Type} {work : Sweep α} (l : Logger) (operation : String)
    (hw : Frame I P work) : Frame I P (l.timed operation work) :=
  frame_world.bind fun _ => hw.attempt.bind fun _ => frame_world.bind fun _ =>
    (frame_ofExcept _).bind fun _ => (l.frame_performance _ _).bind fun _ => frame_ofExcept _

theorem frame_trouble (l : Logger) (kind message : String) (context : Json) (word : String) :
    Frame I P (l.trouble kind message context word) := by
  refine frame_world.bind fun w => (frame_ofExcept _).bind fun _ => ?_
  exact (frame_messageLevel _ _).bind fun _ => (frame_logWith _ _ _ _ _).bind fun _ =>
    frame_count _

theorem frame_metricsSnapshot (l : Logger) : Frame I P l.metricsSnapshot :=
  frame_snapshot.bind fun _ => frame_logWith _ _ _ _ _

end Logger

/-! ## Configuration -/

namespace Config

theorem frame_envFilesOff : Frame I P envFilesOff :=
  (frame_lookupVar _).bind fun _ => frame_pure _

/-- A variable is set; what is preserved must not depend on it. -/
theorem frame_setVar (hI : ∀ v env, I v → I { v with env }) (name value : String) :
    Frame I P (setVar name value) := by
  have last : Frame I P (modify fun w : World =>
      { w with env := (name, value) :: w.env.filter (·.1 ≠ name) } : Sweep Unit) :=
    frame_iff.2 fun w hw => ⟨hI w.view _ hw, Disk.Keeps.refl P w.disk⟩
  have middle : Frame I P (do
      if name.toList.contains '\x00' || value.toList.contains '\x00' ||
          name.toList.contains '=' then
        fail (.badValue "not allowed in the environment")
      modify fun w : World =>
        { w with env := (name, value) :: w.env.filter (·.1 ≠ name) } : Sweep Unit) :=
    Frame.ite ((frame_fail _).bind fun _ => last) last
  unfold setVar
  exact Frame.ite ((frame_fail _).bind fun _ => middle) middle

theorem frame_loadEnvFile (hI : ∀ v env, I v → I { v with env }) (p : Path) :
    Frame I P (loadEnvFile p) := by
  unfold loadEnvFile
  refine frame_envFilesOff.bind fun _ => Frame.ite (frame_pure _) ?_
  refine frame_world.bind fun _ => Frame.ite (frame_pure _) ?_
  refine (frame_readText _).bind fun text => ?_
  refine (frame_forM _ fun s => ?_).bind fun _ => frame_world.bind fun _ => frame_forM _ fun s => ?_
  · cases s with
    | broken line => exact frame_log _ _ _
    | _ => exact frame_pure _
  · obtain ⟨name, value⟩ := s
    cases value with
    | none => exact frame_pure _
    | some value =>
      exact (frame_lookupVar _).bind fun _ => Frame.ite (frame_setVar hI _ _) (frame_pure _)

theorem frame_firstExisting (paths : List Path) : Frame I P (firstExisting paths) := by
  induction paths with
  | nil => exact frame_pure _
  | cons p rest ih => exact (frame_pathExists p).bind fun _ => Frame.ite (frame_pure _) ih

theorem frame_listVariable (name : String) : Frame I P (listVariable name) :=
  (frame_lookupVar _).bind fun _ => Frame.ite (frame_pure _) (frame_pure _)

theorem frame_filledVar (name : String) : Frame I P (filledVar name) := by
  refine (frame_lookupVar _).bind fun v => ?_
  split
  · exact frame_pure _
  · exact frame_pure _

theorem frame_cleanerFromEnv : Frame I P cleanerFromEnv :=
  (frame_listVariable _).bind fun _ => (frame_listVariable _).bind fun _ =>
    (frame_listVariable _).bind fun _ => (frame_filledVar _).bind fun _ => frame_pure _

theorem frame_runtimeFromEnv : Frame I P runtimeFromEnv :=
  (frame_filledVar _).bind fun _ => (frame_filledVar _).bind fun _ =>
    (frame_filledVar _).bind fun _ => (frame_filledVar _).bind fun _ => frame_pure _

theorem frame_buildCleaner (raw : Settings.Raw) (source : String) :
    Frame I P (buildCleaner raw source) := by
  unfold buildCleaner
  split
  · exact frame_pure _
  · exact (frame_log _ _ _).bind fun _ => frame_pure _

theorem frame_buildRuntime (raw : Settings.Raw) (source : String) :
    Frame I P (buildRuntime raw source) := by
  unfold buildRuntime
  split
  · exact frame_pure _
  · exact (frame_log _ _ _).bind fun _ => frame_pure _

theorem frame_loadEnv (hI : ∀ v env, I v → I { v with env }) (c : Config) :
    Frame I P c.loadEnv := by
  refine frame_cwd.bind fun _ => (frame_expandHome _).bind fun _ =>
    (frame_firstExisting _).bind fun found => ?_
  refine (frame_option_forM found fun p => frame_loadEnvFile hI p).bind fun _ => ?_
  refine (frame_option_forM _ fun p => frame_log _ _ _).bind fun _ => ?_
  exact frame_cleanerFromEnv.bind fun _ => frame_runtimeFromEnv.bind fun _ =>
    (frame_buildCleaner _ _).bind fun _ => (frame_buildRuntime _ _).bind fun _ => frame_pure _

theorem frame_loadJson (p : Path) (default : Json) : Frame I P (loadJson p default) := by
  unfold loadJson
  refine (frame_pathExists p).bind fun _ => Frame.ite (frame_pure _) ?_
  refine (frame_readText _).attempt.bind fun text => ?_
  split
  · exact Frame.ite ((frame_log _ _ _).bind fun _ => frame_pure _) (frame_fail _)
  · split
    · exact frame_pure _
    · split
      · exact frame_pure _
      · exact Frame.ite ((frame_log _ _ _).bind fun _ => frame_pure _) (frame_fail _)

theorem frame_loadSettings (c : Config) : Frame I P c.loadSettings := by
  refine (frame_loadJson _ _).bind fun v => ?_
  dsimp only
  split
  case' h_1 => refine (frame_pure _).bind ?_
  case' h_2 => refine (frame_log _ _ _).bind fun _ => (frame_pure _).bind ?_
  all_goals
    intro data
    refine (frame_ofExcept _).bind fun _ => (frame_ofExcept _).bind fun _ => ?_
    exact (frame_buildCleaner _ _).bind fun _ => (frame_buildRuntime _ _).bind fun _ =>
      frame_pure _

theorem frame_loadAll (hI : ∀ v env, I v → I { v with env }) (c : Config) :
    Frame I P c.loadAll := by
  refine (frame_loadEnv hI c).attempt.bind fun outcome => ?_
  split
  · exact frame_pure _
  · refine (frame_loadSettings _).attempt.bind fun outcome => ?_
    split
    · exact frame_pure _
    · exact frame_pure _

theorem frame_resolvePath (c : Config) (value : Option String) :
    Frame I P (c.resolvePath value) := by
  cases value with
  | none => exact frame_pure _
  | some v => exact Frame.ite (frame_pure _) ((frame_expandHome _).bind fun _ => frame_pure _)

theorem frame_printSummary (c : Config) : Frame I P c.printSummary := by
  unfold printSummary
  refine (frame_say _).bind fun _ => (frame_say _).bind fun _ => (frame_say _).bind fun _ => ?_
  refine (frame_say _).bind fun _ => (frame_say _).bind fun _ => (frame_say _).bind fun _ => ?_
  refine (frame_say _).bind fun _ => (c.frame_resolvePath _).bind fun _ =>
    (frame_say _).bind fun _ => ?_
  refine (c.frame_resolvePath _).bind fun _ => (frame_option_forM _ fun p => frame_say _).bind
    fun _ => ?_
  refine (c.frame_resolvePath _).bind fun _ => (frame_option_forM _ fun p => frame_say _).bind
    fun _ => ?_
  exact frame_say _

/-- A configured path depends on the environment and the home directories alone. -/
theorem outcome_resolvePath {w w' : World} (he : w.env = w'.env) (hh : w.homes = w'.homes)
    (c : Config) (value : Option String) :
    (c.resolvePath value).outcome w = (c.resolvePath value).outcome w' := by
  cases value with
  | none => rfl
  | some v =>
    unfold resolvePath
    rw [outcome_ite, outcome_ite]
    split
    · rfl
    · have h := outcome_expandHome he hh (Path.ofString v)
      cases ho : (expandHome (Path.ofString v)).outcome w with
      | error f => rw [outcome_bind_error ho, outcome_bind_error (h ▸ ho)]
      | ok p =>
        rw [outcome_bind_ok ho, outcome_bind_ok (h ▸ ho)]
        rfl

end Config

/-! ## Stores -/

namespace Store

theorem frame_save {p : Path} (hP : P p.text) (s : Store) : Frame I P (s.save p) := by
  refine (frame_makeDirs _).bind fun _ => ?_
  refine Frame.ite ?_ ?_
  · exact (frame_fail _).bind fun _ => frame_writeText hP _
  · exact frame_writeText hP _

theorem frame_readJson (path : String) : Frame I P (readJson path) := by
  refine (frame_readText _).bind fun text => ?_
  split
  · exact frame_pure _
  · exact frame_fail _

theorem frame_load (p : Path) : Frame I P (load p) := by
  unfold load
  refine (frame_pathExists p).bind fun _ => Frame.ite (frame_pure _) ?_
  refine (frame_readJson _).attempt.bind fun data => ?_
  split
  · exact frame_fail _
  · exact (frame_log _ _ _).bind fun _ => frame_pure _
  · split
    · exact (frame_log _ _ _).bind fun _ => frame_pure _
    · exact (frame_forM _ fun _ => frame_log _ _ _).bind fun _ => frame_ofExcept _

end Store

/-! ## Scans -/

namespace Scan

theorem frame_countIn (methods : List String) (path : String) : Frame I P (countIn methods path) :=
  (frame_readText _).bind fun _ => frame_pure _

theorem frame_sources (root : String) (endings ignored : List String) :
    Frame I P (sources root endings ignored) := by
  refine (frame_absolute _).bind fun _ => (frame_checkPath _).bind fun _ =>
    frame_world.bind fun _ => ?_
  split
  · exact frame_pure _
  · exact (frame_log _ _ _).bind fun _ => frame_pure _

theorem frame_scanFile (methods : List String) {progress : Nat → Sweep Unit}
    (hp : ∀ n, Frame I P (progress n)) (t : Tally) (path : String) :
    Frame I P (scanFile methods progress t path) := by
  unfold scanFile
  dsimp only
  split
  case' isTrue => refine (hp _).bind fun _ => ?_
  all_goals
    refine (frame_countIn _ _).attempt.bind fun found => ?_
    split
    · exact (frame_count _).bind fun _ => frame_pure _
    · refine Frame.ite ?_ (frame_fail _)
      exact (frame_log _ _ _).bind fun _ => (frame_count _).bind fun _ => frame_pure _

theorem frame_run (root : String) (settings : CleanerSettings) {progress : Nat → Sweep Unit}
    (hp : ∀ n, Frame I P (progress n)) : Frame I P (run root settings progress) := by
  refine (frame_resolve _).bind fun _ => (frame_isDirectory _).bind fun _ => ?_
  dsimp only
  split
  case' isTrue => refine (frame_fail _).bind fun _ => ?_
  all_goals
    refine frame_metrics.bind fun _ => (frame_sources _ _ _).bind fun files => ?_
    refine (frame_foldlM files (fun t path => frame_scanFile _ hp t path) _).bind fun t => ?_
    exact (frame_log _ _ _).bind fun _ => frame_pure _

end Scan

/-! ## Watching -/

namespace Watcher

theorem frame_snapshot (root : String) (settings : CleanerSettings) :
    Frame I P (snapshot root settings) :=
  (Scan.frame_sources _ _ _).bind fun _ => frame_world.bind fun _ => frame_pure _

theorem frame_new (root : String) (settings : CleanerSettings) (debounce : Option Number) :
    Frame I P (new root settings debounce) :=
  (frame_resolve _).bind fun _ => (frame_snapshot _ _).bind fun _ => frame_pure _

theorem frame_dropDeleted (store : Store) (paths : List String) :
    Frame I P (dropDeleted store paths) := by
  induction paths generalizing store with
  | nil => exact frame_pure _
  | cons path rest ih =>
    unfold dropDeleted
    dsimp only
    split
    · exact (frame_log _ _ _).bind fun _ => ih _
    · exact ih _

theorem frame_rescan (w : Watcher) : Frame I P w.rescan := by
  refine (Scan.frame_run _ _ fun _ => frame_pure _).attempt.bind fun found => ?_
  split
  · exact frame_pure _
  · exact Frame.ite ((frame_log _ _ _).bind fun _ => frame_pure _) (frame_fail _)

theorem frame_poll (w : Watcher) (store : Store) (now : Number) {onUpdate : Store → Sweep Unit}
    (hu : ∀ s, Frame I P (onUpdate s)) : Frame I P (w.poll store now onUpdate) := by
  refine (frame_snapshot _ _).bind fun seen => (frame_dropDeleted _ _).bind fun store => ?_
  dsimp only
  split
  · exact frame_pure _
  · refine (Frame.ite (frame_rescan _) (frame_pure _)).attempt.bind fun found => ?_
    split
    · exact frame_pure _
    · refine Frame.ite (frame_pure _) ((hu _).attempt.bind fun outcome => ?_)
      split
      · exact frame_pure _
      · exact frame_pure _

theorem frame_tick (w : Watcher) (store : Store) (now : Number) {onUpdate : Store → Sweep Unit}
    (hu : ∀ s, Frame I P (onUpdate s)) : Frame I P (w.tick store now onUpdate) := by
  refine (frame_poll w store now hu).bind fun r => ?_
  dsimp only
  split
  · exact frame_pure _
  · exact (frame_log _ _ _).bind fun _ => frame_pure _

end Watcher

end ConsoleSweep
