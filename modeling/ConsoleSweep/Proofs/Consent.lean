/-
  Nothing but the program's own files is written without consent.

  The files of the program are the store, the file for the counters and the log files, the
  numbered ones with them; where they are, the configuration says, in the surroundings in
  which it was read (`OwnPath`). Consent is withheld if no switch and no setting skips the question and the
  answer is not yes (`Withheld`); the commands that do not clean need none. Then all other
  files are kept, by every command and on every path through it. A watch keeps them from
  one change outside to the next (`Course`).
-/
import ConsoleSweep.Program
import ConsoleSweep.Proofs.Config.Load

namespace ConsoleSweep

open Sweep

/-! ## Where the program's own files are -/

/-- The path is that of the store, of the file for the counters, or of a log file. -/
def Config.Owns (c : Config) (w : World) (path : String) : Prop :=
  (∃ p, c.storePath.outcome w = .ok (some p) ∧ p.text = path) ∨
    (∃ p, c.metricsPath.outcome w = .ok (some p) ∧ p.text = path) ∨ Logger.LogAt w path

/-- The surroundings are those in which the configured paths were told. -/
def Settled (w : World) (v : View) : Prop :=
  v.env = w.env ∧ v.homes = w.homes

theorem settled_of_eq {w : World} {v : View} (h : v = w.view) : Settled w v := by
  rw [h]
  exact ⟨rfl, rfl⟩

/-- What is preserved fixes the configured paths, and `P` holds for them. -/
structure Config.Placed (c : Config) (w : World) (I : View → Prop) (P : String → Prop) : Prop where
  settled : ∀ v, I v → Settled w v
  owns : ∀ path, c.Owns w path → P path

namespace Program

variable {I : View → Prop} {P : String → Prop} {c : Config} {w : World} {α : Type}

/-! ## Commands that do not clean -/

theorem frame_printResults (s : Store) (root : Path) : Frame I P (printResults s root) :=
  (frame_say _).bind fun _ => frame_cwd.bind fun _ => frame_forM _ fun _ => frame_say _

theorem frame_storeFile : Frame I P (storeFile c) := by
  refine (c.frame_resolvePath _).bind fun p => ?_
  split
  · exact frame_pure _
  · exact frame_fail _

theorem owns_storeFile {w' : World} {p : Path} (hv : Settled w w'.view)
    (ho : (storeFile c).outcome w' = .ok p) : c.Owns w p.text := by
  obtain ⟨found, hs, hp⟩ := outcome_bind_eq_ok ho
  cases found with
  | none => cases hp
  | some q =>
    obtain rfl : q = p := Except.ok.inj hp
    have same := c.outcome_resolvePath hv.1 hv.2 (some c.runtime.storePath)
    exact .inl ⟨q, same ▸ hs, rfl⟩

/-- The store is saved in its place. -/
theorem frame_saveStore (h : c.Placed w I P) (s : Store) {next : Unit → Sweep α}
    (hn : ∀ u, Frame I P (next u)) :
    Frame I P (do
      let u ← s.save (← storeFile c)
      next u) := by
  refine frame_storeFile.bind_of fun w' p hI ho => ?_
  have hp : P p.text := h.owns _ (owns_storeFile (h.settled _ hI) ho)
  exact (s.frame_save hp).bind hn

theorem frame_workRoot (root : Option String) : Frame I P (workRoot c root) := by
  unfold workRoot
  split
  · exact frame_resolve _
  · exact frame_resolve _
  · exact frame_resolve _

theorem frame_scanAndSave (h : c.Placed w I P) (log : Logger) (root : Path) :
    Frame I P (scanAndSave c log root) := by
  unfold scanAndSave
  refine (log.frame_timed _ (Scan.frame_run _ _ fun _ => frame_warn _)).attempt.bind fun r => ?_
  split
  · dsimp only
    split
    case' isTrue => refine (log.frame_log _ _).bind fun _ => ?_
    all_goals exact frame_saveStore h _ fun _ => frame_pure _
  · refine Frame.ite ?_ (frame_fail _)
    exact (log.frame_trouble _ _ _ _).bind fun _ => (frame_say _).bind fun _ => frame_pure _

theorem frame_savedOrScanned (h : c.Placed w I P) (log : Logger) (root : Path) (rescan : Bool) :
    Frame I P (savedOrScanned c log root rescan) := by
  unfold savedOrScanned
  refine Frame.ite (frame_scanAndSave h log root) ?_
  refine frame_storeFile.bind fun file => (frame_pathExists _).bind fun _ => ?_
  refine Frame.ite ?_ (frame_scanAndSave h log root)
  exact (Store.frame_load _).bind fun _ => frame_pure _

theorem frame_reportClean (s : CleanSummary) : Frame I P (reportClean s) := by
  unfold reportClean
  refine Frame.ite ((frame_say _).bind fun _ => frame_pure _) ?_
  exact (frame_say _).bind fun _ => (frame_forM _ fun _ => frame_say _).bind fun _ => frame_pure _

theorem frame_scan (h : c.Placed w I P) (log : Logger) (root : Option String) :
    Frame I P (scan c log root) := by
  refine (frame_workRoot root).bind fun root => (frame_scanAndSave h log root).bind fun store => ?_
  split
  · exact frame_pure _
  · exact (frame_printResults _ _).bind fun _ => frame_pure _

theorem frame_showResults : Frame I P (showResults c) :=
  frame_storeFile.bind fun _ => (Store.frame_load _).bind fun _ => (frame_resolve _).bind fun _ =>
    (frame_printResults _ _).bind fun _ => frame_pure _

theorem frame_watch (h : c.Placed w I P) (log : Logger) (root : Option String) :
    Frame I P (watch c log root) := by
  refine (frame_workRoot root).bind fun root => ?_
  dsimp only
  split
  case' isTrue => refine (frame_scanAndSave h log root).bind ?_
  case' isFalse =>
    refine frame_storeFile.bind fun _ => (Store.frame_load _).bind fun _ => (frame_pure _).bind ?_
  all_goals
    intro start
    cases start with
    | none => exact frame_pure _
    | some store => ?_
  case' isTrue => refine (frame_say _).bind fun _ => ?_
  all_goals
    exact (Watcher.frame_new _ _ _).bind fun _ => (frame_say _).bind fun _ => frame_pure _

theorem frame_conclude_of (hs : ∀ v, I v → Settled w v)
    (hP : ∀ p, c.metricsPath.outcome w = .ok (some p) → P p.text) (log : Logger) (code : Nat) :
    Frame I P (conclude c log code) := by
  refine (c.frame_resolvePath _).bind_of fun w' p hI ho => ?_
  cases p with
  | none => exact frame_pure _
  | some p =>
    have hv := hs _ hI
    have same := c.outcome_resolvePath hv.1 hv.2 c.runtime.metricsPath
    have hp : P p.text := hP p (same ▸ ho)
    exact (frame_writeSnapshot hp).bind fun _ => (log.frame_log _ _).bind fun _ => frame_pure _

theorem frame_conclude (h : c.Placed w I P) (log : Logger) (code : Nat) :
    Frame I P (conclude c log code) :=
  frame_conclude_of h.settled (fun p hp => h.owns _ (.inr (.inl ⟨p, hp, rfl⟩))) log code

theorem frame_showUpdate (h : c.Placed w I P) (s : Store) : Frame I P (showUpdate c s) :=
  frame_saveStore h s fun _ => frame_say _

/-! ## The question -/

/-- The first line, trimmed and in lower case, means no. So does no line at all. -/
def Declines (input : List Char) : Prop :=
  Text.lower (Text.trim (input.takeWhile (· ≠ '\n'))) ∉ ["y".toList, "yes".toList]

theorem isYes_of_declines {input : List Char} (h : Declines input) :
    isYes (input.takeWhile (· ≠ '\n')) = false := by
  unfold Declines at h
  unfold isYes
  simpa using h

theorem outcome_ask (h : Declines w.input) (message : String) :
    (ask message).outcome w = .ok false := by
  unfold ask
  have hi : ((Sweep.print (message ++ " [y/N] ")).after w).input = w.input := rfl
  rw [outcome_bind_ok (a := ()) rfl, outcome_bind_ok (outcome_readLine _), hi]
  split
  · next answer ha =>
    split at ha
    · simp at ha
    · obtain rfl := Option.some.inj ha
      exact congrArg Except.ok (isYes_of_declines h)
  · rfl

theorem after_ask (w : World) (message : String) : (ask message).after w =
    { w with
      out := w.out ++ (message ++ " [y/N] ")
      input := (w.input.dropWhile (· ≠ '\n')).drop 1 } := by
  unfold ask
  rw [after_bind_ok (a := ()) rfl, after_bind_ok (outcome_readLine _), after_readLine]
  split
  · rfl
  · rfl

/-- If the question is declined, what would be done with consent is not done. -/
theorem turns_declined {settings : CleanerSettings} (hs : settings.confirm = true)
    (hw : Declines w.input) (message : String) {next : Bool → Sweep α}
    (hn : Frame (Settled w) P (next false)) :
    Turns (· = w.view) (Settled w) P
      (Clean.isConfirmed settings (consent false) message >>= next) := by
  have he : Clean.isConfirmed settings (consent false) message = ask message := by
    unfold Clean.isConfirmed
    rw [hs]
    rfl
  rw [he]
  refine turns_iff.2 fun w' hv => ?_
  have hd : Declines w'.input := by
    have hi : w'.input = w.input := congrArg View.input hv
    rw [hi]
    exact hw
  have hs' : Settled w w'.view := settled_of_eq hv
  have hs : Settled w ((ask message).after w').view := by
    rw [after_ask]
    exact hs'
  have hk : w'.disk = ((ask message).after w').disk := by rw [after_ask]
  rw [after_bind_ok (outcome_ask hd message), hk]
  exact frame_iff.1 hn _ hs

theorem turns_all {settings : CleanerSettings} (hs : settings.confirm = true)
    (hw : Declines w.input) (store : Store) (progress : Nat → Nat → String → Sweep Unit)
    (report : Option Path) :
    Turns (· = w.view) (Settled w) P
      (Clean.all store settings (consent false) progress report) := by
  unfold Clean.all
  dsimp only
  split
  · exact (frame_pure _).turns fun _ => settled_of_eq
  · exact turns_declined hs hw _ (frame_pure _)

theorem frame_keyOf (store : Store) (path : String) : Frame I P (Clean.keyOf store path) := by
  refine (frame_absolute _).bind fun key => Frame.ite (frame_pure _) ?_
  exact (frame_checkPath _).bind fun _ => frame_world.bind fun _ => frame_pure _

theorem turns_single {settings : CleanerSettings} (hs : settings.confirm = true)
    (hw : Declines w.input) (path : String) (store : Store) (report : Option Path) :
    Turns (· = w.view) (Settled w) P
      (Clean.single path store settings (consent false) report) := by
  refine (frame_keyOf store path).bind_turns (fun _ => settled_of_eq) fun key => ?_
  exact turns_declined hs hw _ (frame_pure _)

/-! ## Commands that clean -/

theorem turns_clean (hP : ∀ path, c.Owns w path → P path) (hs : c.cleaner.confirm = true)
    (hw : Declines w.input) (log : Logger) (root : Option String) (rescan : Bool) :
    Turns (· = w.view) (Settled w) P (clean c log root false rescan) := by
  have before : c.Placed w (· = w.view) P := ⟨fun _ => settled_of_eq, hP⟩
  have after : c.Placed w (Settled w) P := ⟨fun _ h => h, hP⟩
  refine (frame_workRoot root).bind_turns before.settled fun root => ?_
  refine (frame_savedOrScanned before log root rescan).bind_turns before.settled fun found => ?_
  cases found with
  | none => exact (frame_pure _).turns before.settled
  | some store =>
    dsimp only
    split
    · exact ((frame_say _).bind fun _ => frame_pure _).turns before.settled
    · refine (c.frame_resolvePath _).bind_turns before.settled fun report => ?_
      refine (turns_all hs hw store _ report).bind fun r => ?_
      refine (frame_ofExcept _).bind fun summary => frame_saveStore after _ fun _ => ?_
      refine Frame.ite ((frame_say _).bind fun _ => frame_pure _) ?_
      exact (log.frame_activity _ _ _).bind fun _ => log.frame_metricsSnapshot.bind fun _ =>
        frame_reportClean summary

theorem turns_cleanFile (hP : ∀ path, c.Owns w path → P path) (hs : c.cleaner.confirm = true)
    (hw : Declines w.input) (path : String) :
    Turns (· = w.view) (Settled w) P (cleanFile c path false) := by
  have after : c.Placed w (Settled w) P := ⟨fun _ h => h, hP⟩
  refine frame_storeFile.bind_turns (fun _ => settled_of_eq) fun file => ?_
  refine (Store.frame_load file).bind_turns (fun _ => settled_of_eq) fun store => ?_
  refine (c.frame_resolvePath _).bind_turns (fun _ => settled_of_eq) fun report => ?_
  refine (turns_single hs hw path store report).bind fun r => ?_
  refine (frame_ofExcept _).bind fun summary => ?_
  refine Frame.ite ((frame_say _).bind fun _ => frame_pure _) ?_
  refine frame_saveStore after _ fun _ => Frame.ite ?_ ?_
  · exact (frame_say _).bind fun _ => frame_pure _
  · exact (frame_say _).bind fun _ => frame_pure _

/-! ## A whole command line -/

/-- The configuration with the options on top of it, and the surroundings after it was read; none
if it cannot be read or the options are refused. -/
def effective (r : Request) (w : World) : Option (Config × World) :=
  match (loadConfig r.options).outcome w with
  | .error _ => none
  | .ok c =>
    match c.override (cleanerOverrides r.options) (runtimeOverrides r.options) with
    | (_, some _) => none
    | (c, none) => some (c, (loadConfig r.options).after w)

/-- The path is that of a file of the program: of the store, of the counters or of a log. -/
def OwnPath (r : Request) (w : World) (path : String) : Prop :=
  ∃ c w', effective r w = some (c, w') ∧ c.Owns w' path

/-- A command that cleans is declined: the switch is not given, the settings ask for the question,
and the answer is no. The other commands have no question. -/
def Declined (command : Command) (c : Config) (input : List Char) : Prop :=
  match command with
  | .clean _ yes _ | .cleanFile _ yes => yes = false ∧ c.cleaner.confirm = true ∧ Declines input
  | _ => True

/-- Consent is withheld. -/
def Withheld (r : Request) (w : World) : Prop :=
  ∀ c w', effective r w = some (c, w') → Declined r.command c w.input

theorem turns_perform (hP : ∀ path, c.Owns w path → P path) {command : Command}
    (hd : Declined command c w.input) (log : Logger) :
    Turns (· = w.view) (Settled w) P (perform c log command) := by
  have before : c.Placed w (· = w.view) P := ⟨fun _ => settled_of_eq, hP⟩
  have after : c.Placed w (Settled w) P := ⟨fun _ h => h, hP⟩
  have finish : ∀ {work : Sweep Nat}, Turns (· = w.view) (Settled w) P work →
      Turns (· = w.view) (Settled w) P
        (do return Stage.over (← conclude c log (← work)) : Sweep Stage) := by
    intro work hw
    exact hw.bind fun code => (frame_conclude after log code).bind fun _ => frame_pure _
  cases command with
  | scan root => exact finish ((frame_scan before log root).turns before.settled)
  | rescan root => exact finish ((frame_scan before log root).turns before.settled)
  | «show» => exact finish (frame_showResults.turns before.settled)
  | clean root yes rescan =>
    obtain ⟨rfl, hs, hw⟩ := hd
    exact finish (turns_clean hP hs hw log root rescan)
  | cleanFile path yes =>
    obtain ⟨rfl, hs, hw⟩ := hd
    exact finish (turns_cleanFile hP hs hw path)
  | watch root =>
    refine ((frame_watch before log root).turns before.settled).bind fun session => ?_
    cases session with
    | some session => exact frame_pure _
    | none => exact (frame_conclude after log 1).bind fun _ => frame_pure _
  | config =>
    exact finish (((c.frame_printSummary).bind fun _ => frame_pure 0).turns before.settled)

theorem frame_loadConfig (hI : ∀ v env, I v → I { v with env }) (o : Options) :
    Frame I P (loadConfig o) := by
  unfold loadConfig
  split
  · exact frame_fail _
  · refine (frame_resolve _).bind fun root => (Config.frame_loadAll hI _).bind fun r => ?_
    dsimp only
    split
    · exact frame_pure _
    · exact frame_fail _

theorem gives_watch (log : Logger) (root : Option String) :
    Gives (fun found => ∀ s, found = some s → s.config = c) (watch c log root) := by
  refine Gives.bind fun root => ?_
  dsimp only
  split
  case' isTrue => refine Gives.bind ?_
  case' isFalse => refine Gives.bind fun _ => Gives.bind fun _ => Gives.bind ?_
  all_goals
    intro start
    cases start with
    | none => exact gives_pure (by simp)
    | some store => ?_
  case' isTrue => refine Gives.bind fun _ => ?_
  all_goals
    refine Gives.bind fun watcher => Gives.bind fun _ => gives_pure ?_
    rintro s ⟨⟩
    rfl

/-- Only a watch goes on, with the configuration it was started with. -/
theorem gives_perform (log : Logger) (command : Command) :
    Gives (fun stage => ∀ s, stage = .watching s → s.config = c ∧ ∃ root, command = .watch root)
      (perform c log command) := by
  have finish : ∀ work : Sweep Nat,
      Gives (fun stage => ∀ s, stage = .watching s → s.config = c ∧ ∃ root, command = .watch root)
        (do return Stage.over (← conclude c log (← work)) : Sweep Stage) := fun work =>
    Gives.bind fun _ => Gives.bind fun _ => gives_pure (by simp)
  cases command with
  | watch root =>
    refine Gives.bind_of (gives_watch log root) fun found hf => ?_
    cases found with
    | none => exact finish (pure 1)
    | some session =>
      refine gives_pure ?_
      rintro s ⟨⟩
      exact ⟨hf session rfl, root, rfl⟩
  | _ => exact finish _

/-- The command is carried out with a configuration, in the surroundings in which it was read. -/
theorem turns_command (hP : ∀ path, c.Owns w path → P path) {command : Command}
    (hd : Declined command c w.input) :
    Turns (· = w.view) (Settled w) P (do
      let log ← Logger.create loggerName (some c.runtime.logLevel)
      log.log Log.debug ("Running " ++ command.name ++ " with root " ++ c.root.text)
      perform c log command) := by
  have opens := Logger.frame_create (fun path h => hP path (.inr (.inr h))) loggerName
    (some c.runtime.logLevel)
  refine opens.bind_turns (fun _ => settled_of_eq) fun log => ?_
  refine (log.frame_log _ _).bind_turns (fun _ => settled_of_eq) fun _ => ?_
  exact turns_perform hP hd log

/-- A command line is carried out as far as it goes by itself. If it goes on, it is a watch in the
surroundings in which its configuration was read. -/
theorem keeps_carryOut {r : Request} (hd : Withheld r w) :
    Disk.Keeps (OwnPath r w) w.disk ((carryOut r).after w).disk ∧
      ∀ s, (carryOut r).outcome w = .ok (.watching s) →
        (∃ root, r.command = .watch root) ∧
        ∃ w', effective r w = some (s.config, w') ∧ Settled w' ((carryOut r).after w).view := by
  have load : Frame (fun v => v.input = w.input) (OwnPath r w) (loadConfig r.options) :=
    frame_loadConfig (fun _ _ h => h) r.options
  obtain ⟨hi, hk⟩ := frame_iff.1 load w rfl
  unfold carryOut
  cases hc : (loadConfig r.options).outcome w with
  | error f =>
    rw [after_bind_error hc, outcome_bind_error hc]
    exact ⟨hk, by simp⟩
  | ok c₀ =>
    rw [after_bind_ok hc, outcome_bind_ok hc]
    generalize hw' : (loadConfig r.options).after w = w' at *
    split
    · refine ⟨hk, fun s hs => ?_⟩
      cases hs
    · next c ho =>
      have he : effective r w = some (c, w') := by
        unfold effective
        simp only [hc, ho, hw']
      have hP : ∀ path, c.Owns w' path → OwnPath r w path := fun path h => ⟨c, w', he, h⟩
      have hd' : Declined r.command c w'.input := by
        have hi' : w'.input = w.input := hi
        rw [hi']
        exact hd c w' he
      obtain ⟨hs, hk'⟩ := turns_iff.1 (turns_command hP hd') w' rfl
      refine ⟨hk.trans hk', fun s ho => ?_⟩
      obtain ⟨log, -, ho⟩ := outcome_bind_eq_ok ho
      obtain ⟨_, -, ho⟩ := outcome_bind_eq_ok ho
      obtain ⟨rfl, hr⟩ := gives_perform log r.command _ _ ho s rfl
      exact ⟨hr, w', he, hs⟩

/-! ## Watches -/

/-- The course of the files when they are changed from outside now and then: in between, they are
kept. What was started may be given up before the last change. -/
inductive Course (P : String → Prop) : Disk → List (Disk → Disk) → Disk → Prop where
  | rest {d d' : Disk} {events : List (Disk → Disk)} : Disk.Keeps P d d' → Course P d events d'
  | event {d d₁ d' : Disk} {change : Disk → Disk} {events : List (Disk → Disk)} :
    Disk.Keeps P d d₁ → Course P (change d₁) events d' → Course P d (change :: events) d'

theorem Course.after {d d₁ d' : Disk} {events : List (Disk → Disk)} (h : Disk.Keeps P d d₁)
    (hc : Course P d₁ events d') : Course P d events d' := by
  cases hc with
  | rest hk => exact .rest (h.trans hk)
  | event hk next => exact .event (h.trans hk) next

theorem frame_look {s : Session} (h : s.config.Placed w I P) : Frame I P s.look :=
  frame_world.bind fun _ => (s.watcher.frame_tick _ _ (frame_showUpdate h)).bind fun _ =>
    frame_pure _

theorem gives_look (s : Session) : Gives (fun s' => s'.config = s.config) s.look :=
  Gives.bind fun _ => Gives.bind fun _ => gives_pure rfl

/-- Look after look, the files are kept between the changes from outside. -/
theorem course_looks {s : Session} (hP : ∀ path, s.config.Owns w path → P path)
    (events : List (Disk → Disk)) {next : Session → Sweep α}
    (hn : ∀ s', s'.config = s.config → Frame (Settled w) P (next s')) {w' : World}
    (hs : Settled w w'.view) :
    Course P w'.disk events (Sweep.after (do
      let s ← events.foldlM (fun (s : Session) change => do
        modify fun w => { w with disk := change w.disk }
        s.look) s
      next s) w').disk := by
  induction events generalizing s w' with
  | nil =>
    have hk := (frame_iff.1 (hn s rfl) w' hs).2
    exact .rest hk
  | cons change events ih =>
    rw [List.foldlM_cons, bind_assoc, bind_assoc, after_bind_ok (a := ()) rfl]
    refine .event (Disk.Keeps.refl P _) ?_
    let w₁ : World := { w' with disk := change w'.disk }
    have hs₁ : Settled w w₁.view := hs
    obtain ⟨hs', hk⟩ := frame_iff.1 (frame_look ⟨fun _ h => h, hP⟩) w₁ hs₁
    change Course P w₁.disk events (Sweep.after (s.look >>= _) w₁).disk
    cases ho : s.look.outcome w₁ with
    | error f =>
      rw [after_bind_error ho]
      exact .rest hk
    | ok s' =>
      rw [after_bind_ok ho]
      have hc : s'.config = s.config := gives_look s w₁ s' ho
      refine Course.after hk (ih ?_ ?_ hs')
      · rw [hc]
        exact hP
      · rw [hc]
        exact hn

theorem start_eq {args : List String} {r : Request} (hr : Command.parse args = .ok r) :
    start args = carryOut r := by
  unfold start
  rw [hr]

/-- Without consent, the program's own files apart, no command changes, makes or removes a file; nor
does a watch, between the changes from outside. Files that were open at the start are left out as
well: they belong to the log, and a new process has none. -/
theorem files_kept_without_consent {args : List String} {r : Request} {w : World}
    (hr : Command.parse args = .ok r) (hd : Withheld r w) (events : List (Disk → Disk)) :
    Course (OwnPath r w) w.disk events ((run args events).after w).disk ∧
      ((∀ root, r.command ≠ .watch root) →
        Disk.Spares (OwnPath r w) w.disk ((run args events).after w).disk) := by
  obtain ⟨hk, hw⟩ := keeps_carryOut hd
  unfold run
  rw [start_eq hr]
  cases ho : (carryOut r).outcome w with
  | error f =>
    rw [after_bind_error ho]
    exact ⟨.rest hk, fun _ => hk.spares⟩
  | ok stage =>
    rw [after_bind_ok ho]
    cases stage with
    | unparsed code => exact ⟨.rest hk, fun _ => hk.spares⟩
    | «over» code => exact ⟨.rest hk, fun _ => hk.spares⟩
    | watching s =>
      obtain ⟨⟨root, hroot⟩, w', he, hs⟩ := hw s ho
      refine ⟨?_, fun h => absurd hroot (h root)⟩
      have hP : ∀ path, s.config.Owns w' path → OwnPath r w path := fun path h =>
        ⟨s.config, w', he, h⟩
      refine Course.after hk (course_looks hP events ?_ hs)
      intro s' hc
      have placed : s'.config.Placed w' (Settled w') (OwnPath r w) := by
        rw [hc]
        exact ⟨fun _ h => h, hP⟩
      exact (frame_conclude placed s'.log 0).bind fun _ => frame_pure _

/-! ## A project at the root

The root of the tree is the root of the project, the working directory and the home directory. -/

/-- The options of a command for the project in the working directory. -/
def here : Options :=
  ⟨some ".", none, none, none, none, none⟩

theorem run_loadConfig_here {w' : World} (hcwd : w.disk.cwd = ⟨[], 0⟩) (hroot : c.root = ⟨"/", []⟩)
    (hload : (Config.loadEnv { root := ⟨"/", []⟩ }).run.run w = (.ok (c.withVars w'.env), w'))
    (hfree : w'.disk.node? [".console-cleaner"] = none) :
    (loadConfig here).run.run w = (.ok (c.withVars w'.env), w') := by
  have hreal := resolve_of_root (w := w) (p := Path.ofString ".") (by decide)
    (Disk.realPath?_here hcwd)
  have hfile : (pathExists c.settingsFile).run.run w' = (.ok false, w') := by
    unfold Config.settingsFile Config.configDir
    rw [hroot]
    exact run_pathExists (n := ".console-cleaner") (r := ["settings.json"]) (by decide +kernel)
      ⟨by decide, by decide +kernel, hfree⟩
  have hall : (Config.loadAll { root := ⟨"/", []⟩ }).run.run w =
      (.ok (c.withVars w'.env, none), w') := by
    unfold Config.loadAll
    rw [run_bind_eq (run_attempt _ w), hload]
    dsimp only
    rw [run_bind_eq (run_attempt _ w'), Config.run_loadSettings_of_absent hfile]
    rfl
  unfold loadConfig here
  dsimp only
  rw [run_bind_eq hreal, run_bind_eq hall]
  rfl

/-- Without files of variables and a settings file, the configuration is what the environment
says. -/
theorem effective_here (hcwd : w.disk.cwd = ⟨[], 0⟩) (hhome : w.env.lookup "HOME" = some "/")
    (hfree : ∀ n ∈ [".console-cleaner", ".console-cleaner.env", ".env"], w.disk.node? [n] = none)
    (command : Command) : effective ⟨here, command⟩ w =
      some (Config.withVars { root := ⟨"/", []⟩ } w.env, w) := by
  have hload := Config.run_loadEnv (c := { root := ⟨"/", []⟩ })
    (Config.noEnvFiles_of_free hcwd hhome (hfree _ (by simp [Config.envName]))
      (hfree _ (by simp))) rfl
  unfold effective outcome after
  rw [run_loadConfig_here hcwd rfl hload (hfree _ (by simp))]
  rfl

/-- One file, no settings, and the answer no. -/
def reluctant : World :=
  { disk := ⟨[(["a.js"], .file (Text.encode "console.log(1);\n".toList) (.at 0))], ⟨[], 0⟩, [], 0, {}⟩
    env := [("HOME", "/")], homes := [], now := .int 0, logTime := .int 0, logging := {}
    journal := [], metrics := none, out := "", err := "", input := "n\n".toList }

/-- All files are to be cleaned. -/
def cleanAll : Request :=
  ⟨⟨some ".", none, none, none, none, none⟩, .clean none false false⟩

theorem effective_cleanAll :
    effective cleanAll reluctant = some ({ root := ⟨"/", []⟩ }, reluctant) :=
  effective_here rfl rfl (by decide) _

/-- The answer to the question is no. -/
theorem files_kept_at_no :
    Command.parse ["clean"] = .ok cleanAll ∧ (effective cleanAll reluctant).isSome ∧
      Withheld cleanAll reluctant ∧
      Disk.Spares (OwnPath cleanAll reluctant) reluctant.disk
        ((run ["clean"] []).after reluctant).disk := by
  have hr : Command.parse ["clean"] = .ok cleanAll := by with_unfolding_all rfl
  have hd : Withheld cleanAll reluctant := by
    intro c w' h
    rw [effective_cleanAll] at h
    obtain ⟨rfl, rfl⟩ := Prod.mk.inj (Option.some.inj h)
    have no : Declines reluctant.input := by
      unfold Declines
      decide +kernel
    exact ⟨rfl, rfl, no⟩
  refine ⟨hr, ?_, hd, (files_kept_without_consent hr hd []).2 (by simp [cleanAll])⟩
  rw [effective_cleanAll]
  rfl

end Program

end ConsoleSweep
