/-
  How a command begins.

  A program starts in surroundings of its own (`World.Fresh`). A command reads its
  configuration, opens its logger and logs that it runs (`Program.Opened`), before it does
  anything else. A later command with the same options begins in the same way in a tree that
  has grown from there (`Opened.again`): the root has the same real path, the same is seen at
  the files that are consulted, and the log files are opened again at their places.
-/
import ConsoleSweep.Proofs.Results

namespace ConsoleSweep

/-- The surroundings in which a program is started: a proper tree with the working directory in it,
no file open, no handler in place, and nothing counted. -/
structure World.Fresh (w : World) : Prop where
  proper : w.disk.Proper
  workDir : w.disk.node? w.disk.cwd.base = some .dir
  held : w.disk.held = []
  handlers : w.logging.handlers = []
  metrics : w.metrics = none

namespace Sweep

variable {w w₁ w₂ : World} {p real : Path}

/-! ## Real paths -/

theorem exists_of_resolve (h : (resolve p).outcome w = .ok real) : '\x00' ∉ p.text.toList ∧
    ∃ text, w.disk.realPath? p.text = some text ∧ real = Path.ofString text := by
  obtain ⟨u, hcheck, -⟩ := outcome_bind_eq_ok h
  have hn := nul_not_mem_of_checkPath hcheck
  refine ⟨hn, ?_⟩
  unfold resolve outcome at h
  rw [run_bind_eq (run_checkPath hn w), run_bind_eq (run_world w)] at h
  dsimp only at h
  split at h
  · cases h
  · next text htext =>
    split at h
    · cases h
    · exact ⟨text, htext, (Except.ok.inj h).symm⟩

theorem realPath?_of_resolve (hw : w.Fresh) (hg : Disk.Grows w.disk w₁.disk)
    (h : (resolve p).outcome w₁ = .ok real) : w.disk.realPath? p.text = some real.text := by
  obtain ⟨-, text, htext, rfl⟩ := exists_of_resolve h
  rw [Disk.realPath?_of_grows hw.proper hg] at htext
  rw [htext, (Disk.normal_of_realPath? hw.proper hw.workDir htext).text_ofString]

/-- A real path stays the same from one tree to the other as long as both have grown from a first
one, if there is a directory in the end. -/
theorem outcome_resolve_of_grows (hw : w.Fresh) (h₁ : Disk.Grows w.disk w₁.disk)
    (h₂ : Disk.Grows w.disk w₂.disk) (h : (resolve p).outcome w₁ = .ok real)
    (hdir : w₂.disk.stat real.text = .ok .dir) : (resolve p).outcome w₂ = .ok real := by
  obtain ⟨hn, text, htext, rfl⟩ := exists_of_resolve h
  rw [Disk.realPath?_of_grows hw.proper h₁] at htext
  rw [(Disk.normal_of_realPath? hw.proper hw.workDir htext).text_ofString] at hdir
  unfold resolve outcome
  rw [run_bind_eq (run_checkPath hn w₂), run_bind_eq (run_world w₂)]
  simp only [Disk.realPath?_of_grows hw.proper h₂, htext, hdir]
  rfl

end Sweep

open Sweep

namespace Logger

variable {w : World}

/-! ## A log that cannot be opened -/

theorem isReady_register (s : Log.Setup) (name : String) :
    (s.register name).isReady = s.isReady := by
  unfold Log.Setup.register
  split <;> rfl

theorem isReady_setLevel (s : Log.Setup) (name : String) (level : Log.Level) :
    (s.setLevel name level).isReady = s.isReady := by
  unfold Log.Setup.setLevel
  split
  · rfl
  · exact isReady_register s name

/-- If the directory for log files is refused, the handlers are not put in place. -/
theorem outcome_prepare_of_refused {level terminal : Log.Level} {f : Fault}
    (hh : w.logging.handlers = [])
    (hword : (Log.levelWord ((w.env.lookup "CONSOLE_LOG_LEVEL").getD "WARNING")
      Log.warning).toLevel = .ok terminal)
    (hon : ∀ w', w'.env = w.env → (isOn "LOG_TO_FILE" "1").run.run w' = (.ok true, w'))
    (hmade : ∀ w', w'.disk = w.disk → (makeDirs (logDir w.view)).outcome w' = .error f) :
    (prepare level).outcome w = .error f := by
  have hlevel : ∀ terminal w', (ofExcept (.ok terminal : Except Fault Log.Level)).run.run w' =
    (.ok terminal, w') := fun _ _ => rfl
  unfold prepare outcome
  rw [run_bind_eq (run_world w), hh, List.isEmpty_nil, Bool.not_true, if_neg Bool.false_ne_true,
    run_bind_eq (run_lookupVar _ w)]
  dsimp only
  rw [hword, run_bind_eq (hlevel terminal w), run_bind_eq (run_modify _ w)]
  generalize hw₁ : ({ w with logging := { w.logging with rootLevel := level } } : World) = w₁
  unfold addHandler
  rw [run_bind_eq (run_modify _ w₁)]
  generalize hw₂ : ({ w₁ with logging :=
    { w₁.logging with handlers := w₁.logging.handlers ++ [⟨terminal, .terminal⟩] } } : World) = w₂
  have henv : w₂.env = w.env := by rw [← hw₂, ← hw₁]
  have hdisk : w₂.disk = w.disk := by rw [← hw₂, ← hw₁]
  rw [run_bind_eq (hon w₂ henv)]
  dsimp only
  rw [if_pos rfl, run_bind_eq (run_lookupVar _ w₂), henv]
  exact outcome_bind_error (hmade w₂ hdisk) _

/-- If the handlers are not put in place, the logger is not opened. -/
theorem outcome_create_of_unprepared {name word : String} {level : Log.Level} {f : Fault}
    (hready : w.logging.isReady = false)
    (hlevel : (Log.levelWord word Log.info).toLevel = .ok level)
    (hprepare : ∀ w', w'.disk = w.disk → w'.env = w.env →
      w'.logging.handlers = w.logging.handlers → (prepare level).outcome w' = .error f) :
    (create name (some word)).outcome w = .error f := by
  have hlevel' : ∀ w', (ofExcept (.ok level : Except Fault Log.Level)).run.run w' =
    (.ok level, w') := fun _ => rfl
  unfold create outcome
  dsimp only
  rw [run_bind_eq (run_pure word w), run_bind_eq (run_modify _ w), hlevel,
    run_bind_eq (hlevel' _), run_bind_eq (run_modify _ _)]
  dsimp only
  rw [run_bind_eq (run_world _)]
  dsimp only
  rw [isReady_setLevel, isReady_register, hready, Bool.not_false, if_pos rfl]
  generalize hw₁ :
    ({ w with logging := (w.logging.register name).setLevel name level } : World) = w₁
  have hhandlers : w₁.logging.handlers = w.logging.handlers := by
    rw [← hw₁]
    exact (handlers_setLevel _ name level).trans (handlers_register _ name)
  exact outcome_bind_error (hprepare w₁ (by rw [← hw₁]) (by rw [← hw₁]) hhandlers) _

end Logger

namespace Program

variable {r : Request} {o : Options} {command : Command} {c : Config} {log : Logger}
  {w w' w₁ w₂ w₃ : World} {args : List String} {code : Nat}

/-! ## Command lines -/

/-- A command line that is over was carried out, unless it is a watch. -/
theorem run_carryOut_of_run (hr : Command.parse args = .ok r)
    (hd : Withheld r w) (hn : ∀ root, r.command ≠ .watch root)
    (h : (run args []).run.run w = (.ok (.over code), w₁)) :
    (carryOut r).run.run w = (.ok (.over code), w₁) := by
  unfold run at h
  rw [start_eq hr] at h
  obtain ⟨stage, w', hstage, h⟩ := exists_of_run_bind h
  cases stage with
  | unparsed code' => cases congrArg Prod.fst h
  | «over» code' =>
    obtain rfl : code' = code := Ending.over.inj (Except.ok.inj (congrArg Prod.fst h))
    obtain rfl : w' = w₁ := congrArg Prod.snd h
    exact hstage
  | watching session =>
    obtain ⟨⟨root, hroot⟩, -⟩ := (keeps_carryOut hd).2 session (congrArg Prod.fst hstage)
    exact absurd hroot (hn root)

theorem run_of_run_carryOut (hr : Command.parse args = .ok r)
    (h : (carryOut r).run.run w = (.ok (.over code), w₁)) :
    (run args []).run.run w = (.ok (.over code), w₁) := by
  unfold run
  rw [start_eq hr, run_bind_eq h]
  rfl

/-! ## The beginning -/

/-- The configuration was read, the logger was opened, and the start of the command was logged. -/
structure Opened (r : Request) (c : Config) (log : Logger) (w w' w₁ w₂ : World) : Prop where
  read : ∃ c₀, (loadConfig r.options).run.run w = (.ok c₀, w') ∧
    c₀.override (cleanerOverrides r.options) (runtimeOverrides r.options) = (c, none)
  created : (Logger.create loggerName (some c.runtime.logLevel)).run.run w' = (.ok log, w₁)
  logged : (log.log Log.debug
    ("Running " ++ r.command.name ++ " with root " ++ c.root.text)).run.run w₁ = (.ok (), w₂)

theorem read_of_effective (he : effective r w = some (c, w')) :
    ∃ c₀, (loadConfig r.options).run.run w = (.ok c₀, w') ∧
      c₀.override (cleanerOverrides r.options) (runtimeOverrides r.options) = (c, none) := by
  unfold effective at he
  split at he
  · cases he
  · next c₀ hc₀ =>
    split at he
    · cases he
    · next c' ho =>
      obtain ⟨rfl, rfl⟩ := Prod.mk.inj (Option.some.inj he)
      exact ⟨c₀, Prod.ext hc₀ rfl, ho⟩

theorem opened_of_carryOut {stage : Stage} (he : effective r w = some (c, w'))
    (h : (carryOut r).run.run w = (.ok stage, w₃)) : ∃ log w₁ w₂, Opened r c log w w' w₁ w₂ ∧
      (perform c log r.command).run.run w₂ = (.ok stage, w₃) := by
  obtain ⟨c₀, hread, ho⟩ := read_of_effective he
  unfold carryOut at h
  rw [run_bind_eq hread] at h
  simp only [ho] at h
  obtain ⟨log, w₁, hcreated, h⟩ := exists_of_run_bind h
  obtain ⟨u, w₂, hlogged, h⟩ := exists_of_run_bind h
  exact ⟨log, w₁, w₂, ⟨⟨c₀, hread, ho⟩, hcreated, hlogged⟩, h⟩

/-- Without a logger, a command is not begun. -/
theorem outcome_run_of_unlogged {f : Fault} (hr : Command.parse args = .ok r)
    (he : effective r w = some (c, w'))
    (hf : (Logger.create loggerName (some c.runtime.logLevel)).outcome w' = .error f) :
    (run args []).outcome w = .error f := by
  obtain ⟨c₀, hread, ho⟩ := read_of_effective he
  have hcarry : (carryOut r).outcome w = .error f := by
    unfold carryOut outcome
    rw [run_bind_eq hread]
    simp only [ho]
    exact outcome_bind_error hf _
  unfold run
  rw [start_eq hr]
  exact outcome_bind_error hcarry _

namespace Opened

theorem run_carryOut (h : Opened r c log w w' w₁ w₂) :
    (carryOut r).run.run w = (perform c log r.command).run.run w₂ := by
  obtain ⟨⟨c₀, hread, ho⟩, hcreated, hlogged⟩ := h
  unfold carryOut
  rw [run_bind_eq hread]
  simp only [ho]
  rw [run_bind_eq hcreated, run_bind_eq hlogged]

/-- In a tree that has grown from there, the configuration comes to the same, if the same is seen at
the files that are consulted and the root is a directory. -/
theorem loadConfig_again {d : Disk} (h : Opened r c log w w' w₁ w₂) (hw : w.Fresh)
    (hg : Disk.Grows w.disk d)
    (hseen : ∀ path, Config.Consults c.root w path → d.seen path = w.disk.seen path)
    (hroot : ∀ p, (resolve p).outcome w = .ok c.root →
      (resolve p).outcome { w with disk := d } = .ok c.root) :
    w.Untouched w' ∧ ∃ c₀, (loadConfig r.options).run.run { w with disk := d } =
      (.ok c₀, { w' with disk := d }) ∧
        c₀.override (cleanerOverrides r.options) (runtimeOverrides r.options) = (c, none) := by
  obtain ⟨c₀, hread, ho⟩ := h.read
  have hsame : c.root = c₀.root := Config.root_override ho
  have houtcome : (loadConfig r.options).outcome w = .ok c₀ := congrArg Prod.fst hread
  have hafter : (loadConfig r.options).after w = w' := congrArg Prod.snd hread
  rw [hsame] at hseen hroot
  obtain ⟨hu, hr⟩ := alikeAt_loadConfig houtcome hw.handlers hg.cwd hroot hseen
  rw [hafter] at hu hr
  rw [houtcome] at hr
  exact ⟨hu, c₀, hr, ho⟩

theorem untouched (h : Opened r c log w w' w₁ w₂) (hw : w.Fresh) : w.Untouched w' :=
  (h.loadConfig_again hw (.refl _) (fun _ _ => rfl) fun _ => id).1

/-- Nothing is printed, and only log files are opened and written. -/
theorem hushed (h : Opened r c log w w' w₁ w₂) (hw : w.Fresh) : w.Hushed w₂ :=
  have hu := h.untouched hw
  have hread : w.Hushed w' := .of_same hu.out hu.now hu.metrics
  have hcreated : w'.Hushed w₁ := (Logger.hush_create _ _).of_run h.created
  hread.trans (hcreated.trans (log.aside_of_log h.logged).hushed)

theorem view (h : Opened r c log w w' w₁ w₂) : w₂.view = w'.view := by
  have hcreated := (Logger.frame_create (w := w') (P := Logger.LogAt w') (fun _ h => h) loggerName
    (some c.runtime.logLevel)).of_run rfl h.created
  exact (log.aside_of_log h.logged).view.trans hcreated.1

theorem keeps {P : String → Prop} (h : Opened r c log w w' w₁ w₂) (hw : w.Fresh)
    (hP : ∀ path, Logger.LogAt w' path → P path) :
    Disk.Keeps P w.disk w₁.disk ∧ Disk.Keeps P w₁.disk w₂.disk := by
  have hcreated :=
    (Logger.frame_create hP loggerName (some c.runtime.logLevel)).of_run rfl h.created
  rw [(h.untouched hw).disk] at hcreated
  exact ⟨hcreated.2, (log.aside_of_log h.logged).keeps P⟩

theorem grows (h : Opened r c log w w' w₁ w₂) (hw : w.Fresh) : Disk.Grows w.disk w₂.disk :=
  have hk := h.keeps hw (P := fun _ => True) fun _ _ => trivial
  hk.1.grows.trans hk.2.grows

/-- The logger counts nothing yet, and has few handlers. -/
theorem outfit (h : Opened r c log w w' w₁ w₂) (hw : w.Fresh) :
    w₁.metrics = none ∧ w₁.logging.handlers.length ≤ 4 := by
  obtain ⟨hmetrics, hhandlers⟩ := Logger.outfits_create loggerName (some c.runtime.logLevel) w'
  have hafter : (Logger.create loggerName (some c.runtime.logLevel)).after w' = w₁ :=
    congrArg Prod.snd h.created
  have hu := h.untouched hw
  rw [hafter, hu.metrics, hw.metrics] at hmetrics
  rw [hafter, hu.logging, hw.handlers] at hhandlers
  exact ⟨hmetrics, hhandlers⟩

/-- A command with the same options begins again in a tree that has grown from there. -/
theorem again {d : Disk} (h : Opened ⟨o, command⟩ c log w w' w₁ w₂) (hw : w.Fresh)
    (hg : Disk.Grows w₁.disk d) (hheld : d.held = [])
    (hseen : ∀ path, Config.Consults c.root w path → d.seen path = w.disk.seen path)
    (hroot : d.stat c.root.text = .ok .dir) (command' : Command) :
    ∃ w₂', Opened ⟨o, command'⟩ c log { w with disk := d } { w' with disk := d }
      { w₁ with disk := { d with held := w₁.disk.held } } w₂' ∧ w.Hushed w₂' ∧ w₂'.Few 8 ∧
      World.Later Nowhere { w₁ with disk := { d with held := w₁.disk.held } } w₂' := by
  have hu := h.untouched hw
  have hstart := (h.keeps hw (P := fun _ => True) fun _ _ => trivial).1.grows
  obtain ⟨-, c₀, hread, ho⟩ := h.loadConfig_again hw (hstart.trans hg) hseen fun p hp =>
    outcome_resolve_of_grows hw (.refl _) (hstart.trans hg) hp hroot
  have hcreated := (Logger.echoes_create _ _ w' log w₁ h.created).2 d hg
    (by rw [hheld, hu.disk, hw.held])
  obtain ⟨hmetrics, hhandlers⟩ := h.outfit hw
  have hhushed : w.Hushed { w₁ with disk := { d with held := w₁.disk.held } } :=
    have hread : w.Hushed w' := .of_same hu.out hu.now hu.metrics
    hread.trans (((Logger.hush_create _ _).of_run h.created).trans (.of_same rfl rfl rfl))
  generalize hx : { w₁ with disk := { d with held := w₁.disk.held } } = x at hcreated hhushed
  have hxm : x.metrics = none := by rw [← hx]; exact hmetrics
  have hxh : x.logging.handlers.length ≤ 4 := by rw [← hx]; exact hhandlers
  have hfew : x.Few 0 := by simp [World.Few, hxm]
  have hlater := few_log log.shownName Log.debug
    ("Running " ++ command'.name ++ " with root " ++ c.root.text) hfew
  obtain ⟨u, w₂', hlogged, hwrites⟩ := log.calm_log Log.debug
    ("Running " ++ command'.name ++ " with root " ++ c.root.text) x hfew.sound
  have hw₂' : (log.log Log.debug
      ("Running " ++ command'.name ++ " with root " ++ c.root.text)).after x = w₂' :=
    congrArg Prod.snd hlogged
  refine ⟨w₂', ⟨⟨c₀, hread, ho⟩, hcreated, hlogged⟩,
    hhushed.trans (log.aside_of_log hlogged).hushed, ?_, hwrites⟩
  rw [← hw₂']
  exact World.Few.mono (by omega) hlater

end Opened

end Program

end ConsoleSweep
