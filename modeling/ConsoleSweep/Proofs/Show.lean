/-
  What a scan has printed is shown again.

  A scan that ends well has saved its store and printed it (`exists_of_scan`). The text of the
  store is still in its file when the results are shown: the log and the counters go to other
  files. The command that shows them begins as the scan began (`Opened.again`), so its
  configuration names the same file, and the results are printed as seen from the same
  directory (`show_repeats_scan`).

  A store can stand in the way of the command that shows it. If a directory that is made for
  it has the name of the project's file of variables, that directory is taken for the file,
  and the one that was read before is not read again (`show_fails_after_scan`).
-/
import ConsoleSweep.Proofs.Begin
import ConsoleSweep.Proofs.Command
import ConsoleSweep.Proofs.Scan

namespace ConsoleSweep

open Sweep

/-- The path is that of the file for the counters, or of a log file. -/
def Config.Records (c : Config) (w : World) (path : String) : Prop :=
  (∃ p, c.metricsPath.outcome w = .ok (some p) ∧ p.text = path) ∨ Logger.LogAt w path

namespace Program

variable {r : Request} {o : Options} {command : Command} {c : Config} {log : Logger} {s : Store}
  {root : Path} {cwd : String} {w w' w₁ w₂ w₃ : World}

/-! ## What a scan leaves -/

/-- A scan that ended well has saved a store and printed it, as seen from the real path of the
root. -/
theorem exists_of_scan (h : (perform c log (.scan none)).run.run w₂ = (.ok (.over 0), w₃)) :
    ∃ root s w' cwd, (resolve c.root).outcome w₂ = .ok root ∧ Saved c root s w₂ w' ∧
      Sweep.cwd.outcome w' = .ok cwd ∧
      (conclude c log 0).run.run { w' with out := w'.out ++ resultsText s cwd root.text } =
        (.ok 0, w₃) := by
  obtain ⟨code, w', hscan, h⟩ := exists_of_run_bind h
  obtain ⟨code', w'', hconclude, h⟩ := exists_of_run_bind h
  obtain rfl : 0 = code' := (Stage.over.inj (Except.ok.inj (congrArg Prod.fst h))).symm
  obtain rfl : w'' = w₃ := congrArg Prod.snd h
  obtain rfl := gives_conclude log code _ _ (congrArg Prod.fst hconclude)
  obtain ⟨root, wr, hroot, hscan⟩ := exists_of_run_bind hscan
  obtain rfl : w₂ = wr := (looks_resolve _ w₂).symm.trans (congrArg Prod.snd hroot)
  obtain ⟨found, ws, hsaved, hscan⟩ := exists_of_run_bind hscan
  cases found with
  | none => cases congrArg Prod.fst hscan
  | some s =>
    obtain ⟨u, wp, hprinted, hscan⟩ := exists_of_run_bind hscan
    obtain rfl : wp = w' := congrArg Prod.snd hscan
    obtain ⟨cwd, hcwd, rfl⟩ := exists_of_run_printResults hprinted
    exact ⟨root, s, ws, cwd, congrArg Prod.fst hroot, saved_of_scanAndSave hsaved, hcwd, hconclude⟩

/-- A command line for a scan that ended well: how it began, what it saved, and how it ended. -/
theorem exists_of_run_scan {args : List String} (hr : Command.parse args = .ok ⟨o, .scan none⟩)
    (h : (run args []).run.run w = (.ok (.over 0), w₁))
    (hc : effective ⟨o, .scan none⟩ w = some (c, w')) :
    ∃ log wa wb root s wc cwd, Opened ⟨o, .scan none⟩ c log w w' wa wb ∧
      (resolve c.root).outcome wb = .ok root ∧ Saved c root s wb wc ∧
      Sweep.cwd.outcome wc = .ok cwd ∧
      (conclude c log 0).run.run { wc with out := wc.out ++ resultsText s cwd root.text } =
        (.ok 0, w₁) := by
  have hcarry := run_carryOut_of_run hr (fun _ _ _ => trivial) (by simp) h
  obtain ⟨log, wa, wb, hopened, hperform⟩ := opened_of_carryOut hc hcarry
  obtain ⟨root, s, wc, cwd, h⟩ := exists_of_scan hperform
  exact ⟨log, wa, wb, root, s, wc, cwd, hopened, h⟩

/-- At the end of a command, only the counters and the log are written. -/
theorem keeps_conclude {code : Nat} (hv : w.view = w'.view)
    (h : (conclude c log 0).run.run w = (.ok code, w₁)) :
    Disk.Keeps (c.Records w') w.disk w₁.disk := by
  have hframe : Frame (· = w.view) (c.Records w') (conclude c log 0) :=
    frame_conclude_of (fun _ h => settled_of_eq (h.trans hv)) (fun p hp => .inl ⟨p, hp, rfl⟩) _ _
  exact (hframe.of_run rfl h).2

theorem held_of_run_save {p : Path} (h : (s.save p).run.run w = (.ok (), w')) :
    w'.disk.held = w.disk.held := by
  obtain ⟨-, w₁, hmade, hwritten⟩ := Store.exists_of_run_save h
  obtain ⟨-, d, hd, rfl⟩ := exists_of_run_makeDirs hmade
  obtain ⟨-, d', hd', rfl⟩ := exists_of_run_writeText hwritten
  have hheld := Disk.held_makeDirs w.disk p.parent.root p.parent.parts
  rw [hd] at hheld
  exact (Disk.writes_update hd').held_eq.trans hheld

/-- While the results are found and saved nothing is printed, and no file is opened that stays
open. -/
theorem Saved.kept (h : Saved c root s w w') : w.Hushed w' ∧ w'.view = w.view ∧
    Disk.Grows w.disk w'.disk ∧ ∀ P, Disk.OpensLed P w.disk → Disk.OpensLed P w'.disk := by
  obtain ⟨w₁, p, haside, -, hsaved⟩ := h.saved
  have hframe : Frame (· = w₁.view) (fun _ => True) (s.save p) := s.frame_save trivial
  obtain ⟨hview, hkeeps⟩ := hframe.of_run rfl hsaved
  refine ⟨haside.hushed.trans ((s.hush_save p).of_run hsaved), hview.trans haside.view,
    haside.grows.trans hkeeps.grows, fun P ho => ?_⟩
  exact (ho.of_keeps (haside.keeps P)).of_held hkeeps.grows (held_of_run_save hsaved)

/-! ## A scan of the whole tree -/

/-- A scan of the whole tree comes to the store `s`, and once that is saved the tree is `d`. -/
structure SavesAs (c : Config) (s : Store) (d : Disk) (w : World) : Prop where
  quiet : w.Quiet
  proper : w.disk.Proper
  timed : ∃ gap, w.now.minus w.now = .ok gap ∧ gap.isFloatable = true
  recorded : Scan.recorded w.disk c.cleaner.methods (Scan.listed w.disk c.cleaner "/") = s
  saved : ∃ p, (storeFile c).outcome w = .ok p ∧
    ∀ w', w'.disk = w.disk → (s.save p).run.run w' = (.ok (), { w' with disk := d })

theorem SavesAs.later {d : Disk} (h : SavesAs c s d w) (hs : w.Still w') (ha : w.Aside w') :
    SavesAs c s d w' := by
  obtain ⟨p, hp, hsave⟩ := h.saved
  have hp' : (storeFile c).outcome w' = .ok p := (outcome_storeFile
    (congrArg View.env ha.view) (congrArg View.homes ha.view)).trans hp
  exact ⟨hs.quiet, hs.disk ▸ h.proper, hs.now ▸ h.timed, hs.disk ▸ h.recorded,
    p, hp', fun w₁ h₁ => hsave w₁ (h₁.trans hs.disk)⟩

theorem SavesAs.exists_run_scanAndSave {d : Disk} (h : SavesAs c s d w) (log : Logger) :
    ∃ w', (scanAndSave c log ⟨"/", []⟩).run.run w = (.ok (some s), { w' with disk := d }) ∧
      w.Aside w' := by
  have hprogress : ∀ n, Calm (Sweep.warn ("Scanned " ++ Text.ofNat n ++ " files...")) :=
    fun _ => calm_warn _
  have hreal : (resolve (Path.ofString "/")).run.run w = (.ok ⟨"/", []⟩, w) :=
    resolve_of_root (by decide) w.disk.realPath?_slash
  have hdir : (isDirectory (Path.mk "/" []).text).run.run w = (.ok true, w) :=
    run_isDirectory_of_stat (by decide) w.disk.stat_slash
  have htop : (absolute (Path.mk "/" []).text).outcome w = .ok "/" := rfl
  obtain ⟨summary, w₁, hscan, hstill₁⟩ :=
    Scan.run_scan c.cleaner h.quiet h.proper hprogress hreal hdir htop (by decide)
  rw [h.recorded] at hscan
  have haside₁ : w.Aside w₁ := aside_of_run (Scan.hush_run _ _ fun _ => hush_warn _)
    (fun _ => Scan.frame_run _ _ fun _ => frame_warn _) hscan
  obtain ⟨gap, hgap, hfloat⟩ := h.timed
  obtain ⟨w₂, htimed, hstill₂, haside₂⟩ := run_timed log "scan" hscan hstill₁.quiet
    (hstill₁.now ▸ hgap) hfloat
  have hstill := hstill₁.trans hstill₂
  have haside := haside₁.trans haside₂
  have hlast : ∀ w₃, w.Still w₃ → w.Aside w₃ →
      (do s.save (← storeFile c); return some s : Sweep (Option Store)).run.run w₃ =
        (.ok (some s), { w₃ with disk := d }) := by
    intro w₃ hstill haside
    obtain ⟨p, hp, hsave⟩ := (h.later hstill haside).saved
    rw [run_bind_eq (looks_storeFile.run_eq hp), run_bind_eq (hsave w₃ rfl)]
    rfl
  have hattempt : (attempt (log.timed "scan" (Scan.run "/" c.cleaner fun n =>
      Sweep.warn ("Scanned " ++ Text.ofNat n ++ " files...")))).run.run w =
      (.ok (.ok (s, summary)), w₂) := by
    rw [run_attempt, htimed]
  have hroot : (Path.mk "/" []).text = "/" := rfl
  unfold scanAndSave
  rw [hroot, run_bind_eq hattempt]
  dsimp only
  split
  · obtain ⟨u, w₃, hlogged, hlater⟩ := log.calm_log Log.warning
      (Text.ofNat summary.unreadable.length ++ " file(s) could not be read") w₂ hstill.quiet.sound
    have hstill₃ := hstill.trans (hlater.still hstill.quiet)
    have haside₃ := haside.trans (log.aside_of_log hlogged)
    rw [run_bind_eq hlogged, hlast w₃ hstill₃ haside₃]
    exact ⟨w₃, rfl, haside₃⟩
  · rw [hlast w₂ hstill haside]
    exact ⟨w₂, rfl, haside⟩

theorem run_conclude_of_none (hm : c.runtime.metricsPath = none) (log : Logger) (code : Nat)
    (w : World) : (conclude c log code).run.run w = (.ok code, w) := by
  unfold conclude Config.metricsPath
  rw [hm]
  rfl

/-- A command line for a scan of the whole tree, without a file for the counters. -/
theorem SavesAs.exists_run {args : List String} {d : Disk} (h : SavesAs c s d w₁)
    (hr : Command.parse args = .ok ⟨o, .scan none⟩)
    (he : effective ⟨o, .scan none⟩ w = some (c, w'))
    (hcreated : (Logger.create loggerName (some c.runtime.logLevel)).run.run w' = (.ok log, w₁))
    (hroot : c.root = ⟨"/", []⟩) (hmetrics : c.runtime.metricsPath = none)
    (hcwd : d.cwd = ⟨[], 0⟩) :
    ∃ w₂, (run args []).run.run w = (.ok (.over 0), w₂) ∧ w₂.disk = d ∧
      w₂.out = w₁.out ++ resultsText s "/" "/" := by
  obtain ⟨u, w₂, hlogged, hlater⟩ := log.calm_log Log.debug
    ("Running " ++ (Command.scan none).name ++ " with root " ++ c.root.text) w₁ h.quiet.sound
  have haside := log.aside_of_log hlogged
  have hopened : Opened ⟨o, .scan none⟩ c log w w' w₁ w₂ :=
    ⟨read_of_effective he, hcreated, hlogged⟩
  obtain ⟨w₃, hsaved, haside'⟩ :=
    (h.later (hlater.still h.quiet) haside).exists_run_scanAndSave log
  have hprinted : (printResults s ⟨"/", []⟩).run.run { w₃ with disk := d } =
      (.ok (), { w₃ with disk := d, out := w₃.out ++ resultsText s "/" "/" }) :=
    run_printResults (by rw [outcome_cwd, hcwd]; rfl)
  have hreal := resolve_of_root (w := w₂) (p := ⟨"/", []⟩) (by decide) w₂.disk.realPath?_slash
  have hscan : (scan c log none).run.run w₂ =
      (.ok 0, { w₃ with disk := d, out := w₃.out ++ resultsText s "/" "/" }) := by
    unfold scan workRoot
    rw [hroot, run_bind_eq hreal, run_bind_eq hsaved]
    dsimp only
    rw [run_bind_eq hprinted]
    rfl
  have hperform : (perform c log (.scan none)).run.run w₂ =
      (.ok (.over 0), { w₃ with disk := d, out := w₃.out ++ resultsText s "/" "/" }) := by
    unfold perform
    dsimp only
    rw [run_bind_eq hscan, run_bind_eq (run_conclude_of_none hmetrics _ _ _)]
    rfl
  have hout : w₃.out = w₁.out := haside'.hushed.out.trans haside.hushed.out
  exact ⟨_, run_of_run_carryOut hr (hopened.run_carryOut.trans hperform), rfl, by rw [hout]⟩

/-! ## The results are shown -/

theorem storePath_of_storeFile {p : Path} (h : (storeFile c).outcome w = .ok p) :
    c.storePath.outcome w = .ok (some p) := by
  obtain ⟨found, hfound, h⟩ := outcome_bind_eq_ok h
  cases found with
  | none => cases h
  | some q =>
    obtain rfl : q = p := Except.ok.inj h
    exact hfound

theorem run_showResults {p : Path} (hp : (storeFile c).outcome w = .ok p)
    (hload : (Store.load p).run.run w = (.ok s, w)) (hroot : (resolve c.root).outcome w = .ok root)
    (hcwd : Sweep.cwd.outcome w = .ok cwd) : (showResults c).run.run w =
      (.ok 0, { w with out := w.out ++ resultsText s cwd root.text }) := by
  unfold showResults
  rw [run_bind_eq (looks_storeFile.run_eq hp), run_bind_eq hload, run_bind_eq (run_resolve hroot),
    run_bind_eq (run_printResults hcwd)]
  rfl

/-- A command that ended well can end again: the counters are added to their file once more. -/
theorem exists_run_conclude {code : Nat} (h : (conclude c log 0).run.run w = (.ok code, w₁))
    (ht : w.Timely) (hg : Disk.Grows w₁.disk w₂.disk) (hv : w₂.env = w.env ∧ w₂.homes = w.homes)
    (hnow : w₂.now = w.now) (hfew : w₂.Few 8) (ht₂ : w₂.Timely) :
    ∃ w₃, (conclude c log 0).run.run w₂ = (.ok 0, w₃) := by
  obtain ⟨found, hfound, hready⟩ := ready_of_conclude ht h
  have hmetrics : c.metricsPath.outcome w₂ = .ok found :=
    (c.outcome_resolvePath hv.1 hv.2 _).trans hfound
  exact run_conclude hmetrics
    (fun p hp => ⟨hnow ▸ (hready p hp).1, (hready p hp).2.of_grows hg⟩) hfew (by decide) ht₂ log 0

theorem parse_scan : Command.parse ["scan"] = .ok ⟨here, .scan none⟩ := by with_unfolding_all rfl

theorem parse_show : Command.parse ["show"] = .ok ⟨here, .show⟩ := by with_unfolding_all rfl

/-- Nodes of a tree whose root is the working directory and the home directory; nothing is
counted. -/
def atRoot (nodes : List (Place × Node)) (vars : List (String × String)) : World :=
  { disk := ⟨nodes, ⟨[], 0⟩, [], 0, {}⟩
    env := [("HOME", "/"), ("METRICS_ENABLED", "0")] ++ vars, homes := [], now := .int 0
    logTime := .int 0, logging := {}, journal := [], metrics := none, out := "", err := ""
    input := [] }

/-- A file with a call. The store goes into a file beside it, and the log to the terminal. -/
def plain : World :=
  atRoot [(["a.js"], .file (Text.encode "console.log(1);\n".toList) (.at 0))]
    [("CONSOLE_CLEANER_STORE", "s.json"), ("LOG_TO_FILE", "0")]

/-- What the variables of the environment say about the project at the root. -/
def plainConfig : Config :=
  Config.withVars { root := ⟨"/", []⟩ } plain.env

theorem effective_plain : effective ⟨here, .scan none⟩ plain = some (plainConfig, plain) :=
  effective_here rfl rfl (by decide) _

/-- The results of the scan there. -/
def oneCall : Store := ⟨[("/a.js", 1)]⟩

theorem listed_plain : Scan.listed plain.disk plainConfig.cleaner "/" = ["/a.js"] := by
  have hnames : plain.disk.names [] = ["a.js"] :=
    List.mergeSort_of_pairwise (l := ["a.js"]) (by decide)
  have hnone : ∀ name ∈ plain.disk.names [], plain.disk.entryDir? ⟨"/", []⟩ name = none := by
    rw [hnames]
    simp
    rfl
  rw [Scan.listed_of_no_dirs (r := []) ⟨rfl, by cbv⟩ List.mem_cons_self hnone, hnames]
  decide

theorem recorded_plain :
    Scan.recorded plain.disk plainConfig.cleaner.methods ["/a.js"] = oneCall := by
  have hfile : plain.disk.file? "/a.js" =
      some ⟨["a.js"], Text.encode "console.log(1);\n".toList, .at 0⟩ := by cbv
  have hmethods : plainConfig.cleaner.methods = Settings.defaultMethods := rfl
  have hcount : Call.count Settings.defaultMethods "console.log(1);\n".toList = 1 := by
    decide +kernel
  have hcalls : Scan.calls? plain.disk Settings.defaultMethods "/a.js" = some 1 := by
    unfold Scan.calls? Disk.text?
    rw [hfile, Option.bind_some, Text.decode_encode]
    simp only [Except.toOption, Option.map_some, hcount]
  rw [hmethods]
  simp only [Scan.recorded, List.foldl_cons, List.foldl_nil, Scan.Tally.look, hcalls]
  decide

theorem exists_run_scan_plain : ∃ w₁, (run ["scan"] []).run.run plain = (.ok (.over 0), w₁) ∧
    w₁.disk = plain.disk.putFile ["s.json"] (Text.encode oneCall.render) ∧
    w₁.out = resultsText oneCall "/" "/" := by
  have hcreated : ∃ w₁, (Logger.create loggerName (some plainConfig.runtime.logLevel)).run.run
      plain = (.ok ⟨loggerName⟩, w₁) ∧ w₁.disk = plain.disk ∧ w₁.view = plain.view ∧
        w₁.metrics = none ∧ w₁.out = "" :=
    ⟨_, rfl, rfl, rfl, rfl, rfl⟩
  obtain ⟨w₁, hcreated, hdisk, hview, hmetrics, hout⟩ := hcreated
  have hp : (storeFile plainConfig).outcome w₁ = .ok ⟨"/", ["s.json"]⟩ :=
    (outcome_storeFile (congrArg View.env hview) (congrArg View.homes hview)).trans rfl
  have hfree : plain.disk.locate true "/s.json" = .ok (.vacant [] "s.json") := by cbv
  have hsaves : SavesAs plainConfig oneCall
      (plain.disk.putFile ["s.json"] (Text.encode oneCall.render)) w₁ := by
    refine ⟨⟨by simp [World.Sound, hmetrics], hdisk ▸ rfl⟩, hdisk ▸ by decide,
      ⟨.int 0, by rw [show w₁.now = .int 0 from congrArg View.now hview]; rfl, by decide⟩,
      by rw [hdisk, listed_plain, recorded_plain], _, hp, fun w' h => ?_⟩
    refine Store.run_save (by decide) (run_makeDirs (by decide) w'.disk.stat_slash) (by decide) ?_
    rw [h, hdisk]
    exact Disk.write_of_vacant hfree rfl _
  obtain ⟨w₂, hrun, hd, ho⟩ := hsaves.exists_run parse_scan effective_plain hcreated rfl rfl rfl
  exact ⟨w₂, hrun, hd, by rw [ho, hout]; rfl⟩

/-- What is read for the configuration of a project at the root. -/
theorem mem_of_consults {path : String} (hcwd : w.disk.cwd = ⟨[], 0⟩)
    (hhome : w.env.lookup "HOME" = some "/") (h : Config.Consults ⟨"/", []⟩ w path) :
    path ∈ ["/.console-cleaner/settings.json", "/.console-cleaner.env", "/.env"] := by
  have hcwd : Sweep.cwd.outcome w = .ok "/" := congrArg Prod.fst (Config.run_cwd_of_root hcwd)
  have hhome : Config.home.outcome w = .ok ⟨"/", []⟩ :=
    congrArg Prod.fst (Config.run_home_of_root hhome)
  rcases h with rfl | rfl | ⟨s, hs, rfl⟩ | ⟨p, hp, rfl⟩
  · decide
  · decide
  · obtain rfl := Except.ok.inj (hcwd.symm.trans hs)
    decide
  · obtain rfl := Except.ok.inj (hhome.symm.trans hp)
    decide

/-- None of it is there if the names are free at the root. -/
theorem seen_of_consults {d : Disk} {path : String}
    (h : ∀ n ∈ [".console-cleaner", ".console-cleaner.env", ".env"], d.node? [n] = none)
    (hpath : path ∈ ["/.console-cleaner/settings.json", "/.console-cleaner.env", "/.env"]) :
    d.seen path = .ok none := by
  have hplain : ∀ path ∈ ["/.console-cleaner/settings.json", "/.console-cleaner.env", "/.env"],
      ∃ n r, n ∈ [".console-cleaner", ".console-cleaner.env", ".env"] ∧
        Text.splitAt '/' path = "" :: n :: r := by
    simp only [List.forall_mem_cons]
    exact ⟨⟨".console-cleaner", ["settings.json"], by decide +kernel⟩,
      ⟨".console-cleaner.env", [], by decide +kernel⟩, ⟨".env", [], by decide +kernel⟩, by simp⟩
  have hpaths : ∀ path ∈ ["/.console-cleaner/settings.json", "/.console-cleaner.env", "/.env"],
      Path.isAbsolute path = true ∧ Text.byteLength path ≤ Disk.pathLimit := by decide +kernel
  have hnames : ∀ n ∈ [".console-cleaner", ".console-cleaner.env", ".env"],
      n ∉ ["", ".", ".."] ∧ Text.byteLength n ≤ Disk.nameLimit := by decide +kernel
  obtain ⟨n, r, hn, hsteps⟩ := hplain path hpath
  obtain ⟨habs, hlong⟩ := hpaths path hpath
  obtain ⟨hname, hlength⟩ := hnames n hn
  unfold Disk.seen
  rw [Disk.stat_eq_missing hsteps habs hlong hname hlength (h n hn)]

/-- A file of variables that keeps the log out of files, and a file where the directory for log
files would be. The store goes into a directory with the name of the project's file of
variables. -/
def shadowed : World :=
  atRoot [([".env"], .file (Text.encode "LOG_TO_FILE=0".toList) (.at 0)),
      (["logs"], .file [] (.at 0))]
    [("CONSOLE_CLEANER_STORE", ".console-cleaner.env/s.json")]

/-- The tree after a scan. -/
def shadowing : Disk :=
  ⟨[([".env"], .file (Text.encode "LOG_TO_FILE=0".toList) (.at 0)), (["logs"], .file [] (.at 0)),
    ([".console-cleaner.env"], .dir),
    ([".console-cleaner.env", "s.json"], .file (Text.encode Store.empty.render) (.write 0))],
   ⟨[], 0⟩, [], 1, {}⟩

/-- The surroundings once it is logged that the variables were read. -/
def loadedFrom (p : Path) (w : World) : World :=
  (Sweep.log Config.logger Log.debug ("Loaded environment from: " ++ p.text)).after w

/-- What the variables of the environment say, after a file was read or looked for. -/
def shadowedConfig (p : Path) : Config :=
  Config.withVars { root := ⟨"/", []⟩, loadedEnv := some p } shadowed.env

theorem run_loadEnvFile_shadowed : (Config.loadEnvFile ⟨"/", [".env"]⟩).run.run shadowed =
    (.ok (), { shadowed with env := ("LOG_TO_FILE", "0") :: shadowed.env }) := by
  have hfile : shadowed.disk.file? "/.env" =
      some ⟨[".env"], Text.encode "LOG_TO_FILE=0".toList, .at 0⟩ := by cbv
  have hisFile : shadowed.disk.isFile (Path.mk "/" [".env"]).text = true := by
    unfold Disk.isFile
    rw [show (Path.mk "/" [".env"]).text = "/.env" from rfl, stat_of_file? hfile]
  have htext : (readText (Path.mk "/" [".env"]).text).run.run shadowed =
      (.ok "LOG_TO_FILE=0".toList, shadowed) := by
    refine run_readText (by decide) ?_
    unfold Disk.text?
    rw [show (Path.mk "/" [".env"]).text = "/.env" from rfl, hfile, Option.bind_some,
      Text.decode_encode]
    rfl
  have hstatements : EnvFile.statements (Text.unifyBreaks "LOG_TO_FILE=0".toList) =
      [.binding "LOG_TO_FILE" (some "0")] := by rfl
  have hvars : EnvFile.assignments shadowed.env
      (EnvFile.bindings [.binding "LOG_TO_FILE" (some "0")]) = [("LOG_TO_FILE", some "0")] := by rfl
  have hoff : Config.envFilesOff.run.run shadowed = (.ok false, shadowed) := rfl
  unfold Config.loadEnvFile
  rw [run_bind_eq hoff, if_neg Bool.false_ne_true, run_bind_eq (run_world _), hisFile,
    Bool.not_true, if_neg Bool.false_ne_true, run_bind_eq htext]
  dsimp only
  rw [hstatements]
  change StateT.run (ExceptT.run ((pure () : Sweep Unit) >>= _)) _ = _
  rw [run_bind_eq (run_pure () shadowed), run_bind_eq (run_world _), hvars]
  rfl

/-- The scan reads the variables of the working directory. -/
theorem effective_shadowed : effective ⟨here, .scan none⟩ shadowed =
    some (shadowedConfig ⟨"/", [".env"]⟩, loadedFrom ⟨"/", [".env"]⟩
      { shadowed with env := ("LOG_TO_FILE", "0") :: shadowed.env }) := by
  have hfile : shadowed.disk.file? "/.env" =
      some ⟨[".env"], Text.encode "LOG_TO_FILE=0".toList, .at 0⟩ := by cbv
  have hstat : shadowed.disk.stat "/.env" = .ok _ := stat_of_file? hfile
  have hexists : (pathExists ((Path.ofString "/").child ".env")).run.run shadowed =
      (.ok true, shadowed) := run_pathExists_of_stat (by decide) hstat
  have hfound : (Config.firstExisting [(Path.mk "/" []).child Config.envName,
      (Path.ofString "/").child ".env", (Path.mk "/" []).child Config.envName]).run.run shadowed =
        (.ok (some ⟨"/", [".env"]⟩), shadowed) := by
    unfold Config.firstExisting
    rw [run_bind_eq (Config.run_envPath_of_free (by decide)), if_neg Bool.false_ne_true]
    unfold Config.firstExisting
    rw [run_bind_eq hexists]
    rfl
  have hload := Config.run_loadEnv_of_found (c := { root := ⟨"/", []⟩ })
    (Config.run_cwd_of_root rfl) (Config.run_home_of_root rfl) hfound run_loadEnvFile_shadowed rfl
  unfold effective outcome after
  rw [run_loadConfig_here rfl rfl hload (by decide)]
  rfl

theorem listed_shadowed :
    Scan.listed shadowed.disk (shadowedConfig ⟨"/", [".env"]⟩).cleaner "/" = [] := by
  have hnames : shadowed.disk.names [] = [".env", "logs"] :=
    List.mergeSort_of_pairwise (l := [".env", "logs"]) (by decide)
  rw [Scan.listed_of_no_dirs (r := []) ⟨rfl, by cbv⟩ List.mem_cons_self
    (by rw [hnames]; decide), hnames]
  decide

/-- The directory for the store is made. -/
theorem run_save_shadowed (hw : w.disk = shadowed.disk) :
    (Store.empty.save ⟨"/", [".console-cleaner.env", "s.json"]⟩).run.run w =
      (.ok (), { w with disk := shadowing }) := by
  have hfree : shadowed.disk.locate false (Path.mk "/" [".console-cleaner.env"]).text =
      .ok (.vacant [] ".console-cleaner.env") := by
    rw [Disk.locate_of_names [".console-cleaner.env"] (by decide +kernel)]
    exact Disk.locateFrom_vacant (by decide) (by decide +kernel) (by decide)
  generalize hd : shadowed.disk.setNode [".console-cleaner.env"] .dir = d
  have hmade : (makeDirs (Path.mk "/" [".console-cleaner.env"])).run.run w =
      (.ok (), { w with disk := d }) :=
    run_makeDirs_of_made (by decide)
      (by rw [hw, ← hd]; exact Disk.makeDirs_of_vacant hfree rfl)
  have hplace : d.locate true "/.console-cleaner.env/s.json" =
      .ok (.vacant [".console-cleaner.env"] "s.json") := by
    rw [Disk.locate_of_names [".console-cleaner.env", "s.json"] (by decide +kernel),
      Disk.locateFrom_dir (by decide) (by decide +kernel) (by rw [← hd]; decide)]
    exact Disk.locateFrom_vacant (by decide) (by decide +kernel) (by rw [← hd]; decide)
  have hput : d.putFile [".console-cleaner.env", "s.json"] (Text.encode Store.empty.render) =
      shadowing := by rw [← hd]; rfl
  have hsaved := Store.run_save (s := Store.empty) (p := ⟨"/", [".console-cleaner.env", "s.json"]⟩)
    (by decide) hmade (by decide) (hput ▸ Disk.write_of_vacant hplace (by rw [← hd]; rfl) _)
  exact hsaved

theorem exists_run_scan_shadowed : ∃ w₁,
    (run ["scan"] []).run.run shadowed = (.ok (.over 0), w₁) ∧ w₁.disk = shadowing := by
  obtain ⟨w₁, hcreated, hdisk, hview, hmetrics⟩ : ∃ w₁,
      (Logger.create loggerName (some (shadowedConfig ⟨"/", [".env"]⟩).runtime.logLevel)).run.run
        (loadedFrom ⟨"/", [".env"]⟩
          { shadowed with env := ("LOG_TO_FILE", "0") :: shadowed.env }) =
        (.ok ⟨loggerName⟩, w₁) ∧ w₁.disk = shadowed.disk ∧
      w₁.view = (loadedFrom ⟨"/", [".env"]⟩
        { shadowed with env := ("LOG_TO_FILE", "0") :: shadowed.env }).view ∧
      w₁.metrics = none := ⟨_, rfl, rfl, rfl, rfl⟩
  have hp : (storeFile (shadowedConfig ⟨"/", [".env"]⟩)).outcome w₁ =
      .ok ⟨"/", [".console-cleaner.env", "s.json"]⟩ :=
    (outcome_storeFile (congrArg View.env hview) (congrArg View.homes hview)).trans rfl
  have hsaves : SavesAs (shadowedConfig ⟨"/", [".env"]⟩) Store.empty shadowing w₁ :=
    ⟨⟨by simp [World.Sound, hmetrics], hdisk ▸ rfl⟩, hdisk ▸ by decide,
      ⟨.int 0, by rw [show w₁.now = .int 0 from congrArg View.now hview]; rfl, by decide⟩,
      by rw [hdisk, listed_shadowed]; rfl, _, hp, fun w' h => run_save_shadowed (h.trans hdisk)⟩
  obtain ⟨w₂, hrun, hd, -⟩ :=
    hsaves.exists_run parse_scan effective_shadowed hcreated rfl rfl rfl
  exact ⟨w₂, hrun, hd⟩

/-- The program is started again, and the directory is taken for the file of variables. -/
theorem effective_shadowing (w : World) (hw : w = { shadowed with disk := shadowing }) :
    effective ⟨here, .show⟩ w = some (shadowedConfig ⟨"/", [".console-cleaner.env"]⟩,
      loadedFrom ⟨"/", [".console-cleaner.env"]⟩ w) := by
  have hstat : w.disk.stat "/.console-cleaner.env" = .ok .dir := by
    unfold Disk.stat
    rw [hw, Disk.locate_of_names [".console-cleaner.env"] (by decide +kernel),
      Disk.locateFrom_dir (by decide) (by decide +kernel) (by decide), Disk.locateFrom]
    rfl
  have hexists : (pathExists ((Path.mk "/" []).child Config.envName)).run.run w = (.ok true, w) :=
    run_pathExists_of_stat (by decide) hstat
  have hisFile : w.disk.isFile (Path.mk "/" [".console-cleaner.env"]).text = false := by
    unfold Disk.isFile
    rw [show (Path.mk "/" [".console-cleaner.env"]).text = "/.console-cleaner.env" from rfl, hstat]
  have hoff : Config.envFilesOff.run.run w = (.ok false, w) := by rw [hw]; rfl
  have hloaded : (Config.loadEnvFile ⟨"/", [".console-cleaner.env"]⟩).run.run w = (.ok (), w) := by
    unfold Config.loadEnvFile
    rw [run_bind_eq hoff, if_neg Bool.false_ne_true, run_bind_eq (run_world _), hisFile]
    rfl
  have hfound : (Config.firstExisting [(Path.mk "/" []).child Config.envName,
      (Path.ofString "/").child ".env", (Path.mk "/" []).child Config.envName]).run.run w =
        (.ok (some ⟨"/", [".console-cleaner.env"]⟩), w) := by
    unfold Config.firstExisting
    rw [run_bind_eq hexists]
    rfl
  have hlog : (Sweep.log Config.logger Log.debug ("Loaded environment from: " ++
      (Path.mk "/" [".console-cleaner.env"]).text)).run.run w =
        (.ok (), loadedFrom ⟨"/", [".console-cleaner.env"]⟩ w) := by
    rw [hw]
    rfl
  have hload := Config.run_loadEnv_of_found (c := { root := ⟨"/", []⟩ })
    (Config.run_cwd_of_root (by rw [hw]; rfl)) (Config.run_home_of_root (by rw [hw]; rfl)) hfound
    hloaded hlog
  unfold effective outcome after
  rw [run_loadConfig_here (by rw [hw]; rfl) rfl hload (by rw [hw]; decide)]
  rw [hw]
  rfl

/-- Where there is a file with its name, the directory for log files cannot be made. -/
theorem outcome_makeDirs_logs (hw : w.disk = shadowing) :
    (makeDirs ⟨"", ["logs"]⟩).outcome w = .error (.os .exists "logs") := by
  have hfound : shadowing.locate false (Path.mk "" ["logs"]).text =
      .ok (.node ["logs"] (.file [] (.at 0))) := by cbv
  have hfile : shadowing.isDir (Path.mk "" ["logs"]).text = false := by cbv
  have hrefused : w.disk.makeDirs "" ["logs"] = (shadowing, some (.exists, "logs")) := by
    rw [hw]
    exact Disk.makeDirs_of_file hfound hfile
  exact congrArg Prod.fst (run_makeDirs_of_refused (p := ⟨"", ["logs"]⟩) (by decide) hrefused)

/-- The log goes to files there, for which the directory cannot be made. -/
theorem outcome_create_shadowing (hw : w = { shadowed with disk := shadowing }) (p : Path) :
    (Logger.create loggerName (some "INFO")).outcome (loadedFrom p w) =
      .error (.os .exists "logs") := by
  have hdisk : (loadedFrom p w).disk = shadowing := by rw [hw]; rfl
  have henv : (loadedFrom p w).env = shadowed.env := by rw [hw]; rfl
  have hhandlers : (loadedFrom p w).logging.handlers = [] := by rw [hw]; rfl
  have hon : ∀ w' : World, w'.env = shadowed.env →
      (Logger.isOn "LOG_TO_FILE" "1").run.run w' = (.ok true, w') := by
    intro w' h
    unfold Logger.isOn
    rw [run_bind_eq (run_lookupVar _ w'), h]
    rfl
  refine Logger.outcome_create_of_unprepared (by rw [hw]; rfl) rfl fun w₁ hd₁ he₁ hh₁ => ?_
  have henv₁ : w₁.env = shadowed.env := he₁.trans henv
  have hdir : Logger.logDir w₁.view = ⟨"", ["logs"]⟩ := by
    have hview : w₁.view.env = shadowed.env := henv₁
    unfold Logger.logDir
    rw [hview]
    rfl
  refine Logger.outcome_prepare_of_refused (hh₁.trans hhandlers) (by rw [henv₁]; rfl)
    (fun w₂ he₂ => hon w₂ (he₂.trans henv₁)) fun w₂ hd₂ => ?_
  rw [hdir]
  exact outcome_makeDirs_logs (hd₂.trans (hd₁.trans hdisk))

end Program

end ConsoleSweep
