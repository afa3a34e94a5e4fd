/-
  Work that is done without a fault and leaves the files alone.

  Logging and counting go on all the time, beside the work itself. As long as the counters
  are used as the program uses them (`Metrics.Plain`), neither is ever given up; and the only
  files they write are the open ones, which belong to the log. `World.Later A` says this of
  two surroundings, with more files to write at the places in `A`, and `Calm` says of a piece
  of work that it always comes to a value and lets nothing but the open files be written. The
  rules follow the ways in which work is put together.
-/
import ConsoleSweep.Proofs.Disk.Medium
import ConsoleSweep.Proofs.Disk.RealPath
import ConsoleSweep.Proofs.Disk.Writes
import ConsoleSweep.Proofs.Frame

namespace ConsoleSweep

/-! ## Counters -/

namespace Metrics

/-- The sums are whole numbers. -/
def Whole (sums : List (String × Number)) : Prop :=
  ∀ e ∈ sums, ∃ n, e.2 = .int n

/-- Counters as the program keeps them: the window is the usual one, and all sums are whole. -/
structure Plain (m : Metrics) : Prop where
  span : m.span = defaultSpan
  totals : Whole m.meter.totals
  errors : Whole m.meter.errors

theorem plain_new (now : Number) : (new defaultSpan now).Plain :=
  ⟨rfl, fun _ h => by simp [new, Meter.new] at h, fun _ h => by simp [new, Meter.new] at h⟩

theorem Whole.adjust {sums : List (String × Number)} (h : Whole sums) (name : String) (k : Int) :
    Whole (Meter.adjust name 0 (· + .int k) sums) := by
  induction sums with
  | nil =>
    intro e he
    obtain rfl : e = _ := List.mem_singleton.1 he
    exact ⟨0 + k, rfl⟩
  | cons entry sums ih =>
    obtain ⟨key, v⟩ := entry
    obtain ⟨n, hn⟩ : ∃ n, v = .int n := h _ List.mem_cons_self
    have rest : Whole sums := fun e he => h e (List.mem_cons_of_mem _ he)
    unfold Meter.adjust
    split
    · intro e he
      rcases List.mem_cons.1 he with rfl | he
      · exact ⟨n + k, by rw [hn]; rfl⟩
      · exact rest e he
    · intro e he
      rcases List.mem_cons.1 he with rfl | he
      · exact ⟨n, hn⟩
      · exact ih rest e he

theorem Whole.lookup {sums : List (String × Number)} (h : Whole sums) (name : String) :
    ∃ n, (sums.lookup name).getD 0 = .int n := by
  cases hl : sums.lookup name with
  | none => exact ⟨0, rfl⟩
  | some v =>
    obtain ⟨l₁, l₂, hs, -⟩ := List.lookup_eq_some_iff.1 hl
    obtain ⟨n, hn⟩ := h (name, v) (by rw [hs]; simp)
    exact ⟨n, hn⟩

theorem refusal?_int {sum : Number} {n : Int} (h : sum = .int n) (k : Int) :
    refusal? sum (.int k) = none := by
  rw [h]
  rfl

theorem Plain.exists_cutoff {m : Metrics} (h : m.Plain) (now : Number) :
    ∃ cut, m.cutoff now = .ok cut := by
  unfold cutoff
  rw [h.span]
  cases now <;> exact ⟨_, rfl⟩

/-- A whole amount is not refused where the sums are whole and the window has a start. -/
theorem record_eq_of_whole {m : Metrics} {now cut : Number} (ht : Whole m.meter.totals)
    (he : Whole m.meter.errors) (hc : m.cutoff now = .ok cut) (name : String) (success : Bool)
    (k : Int) : m.record now name success (.int k) =
      ({ m with meter := m.meter.record now name success (.int k) }, none) := by
  obtain ⟨n, ht⟩ := ht.lookup name
  obtain ⟨e, he⟩ := he.lookup name
  have total : refusal? (m.meter.total name) (.int k) = none := refusal?_int ht k
  have failures : refusal? (m.meter.errorTotal name) (.int k) = none := refusal?_int he k
  unfold Metrics.record
  simp only [total, failures, ite_self, hc]
  rfl

/-- A whole amount is never refused. -/
theorem Plain.record_eq {m : Metrics} (h : m.Plain) (now : Number) (name : String) (success : Bool)
    (k : Int) : m.record now name success (.int k) =
      ({ m with meter := m.meter.record now name success (.int k) }, none) := by
  obtain ⟨cut, hc⟩ := h.exists_cutoff now
  exact record_eq_of_whole h.totals h.errors hc name success k

theorem Plain.record {m : Metrics} (h : m.Plain) (now : Number) (name : String) (success : Bool)
    (k : Int) : (m.record now name success (.int k)).2 = none ∧
      (m.record now name success (.int k)).1.Plain := by
  rw [h.record_eq]
  refine ⟨rfl, h.span, h.totals.adjust name k, ?_⟩
  unfold Meter.record
  cases success
  · exact h.errors.adjust name k
  · exact h.errors

theorem Plain.recordScanned {m : Metrics} (h : m.Plain) (now : Number) (calls : Int) :
    (m.recordScanned now (.int calls)).2 = none ∧ (m.recordScanned now (.int calls)).1.Plain := by
  obtain ⟨hn, hp⟩ := h.record now "scan.files" true 1
  unfold Metrics.recordScanned
  split
  · next f he =>
    rw [he] at hn
    simp at hn
  · next m' he =>
    rw [he] at hp
    split
    · exact hp.record now "scan.calls" true calls
    · exact ⟨rfl, hp⟩

end Metrics

/-! ## Surroundings -/

/-- The counters, if they are in use, are as the program keeps them. -/
def World.Sound (w : World) : Prop :=
  ∀ m, w.metrics = some m → m.Plain

/-- What may lie between two surroundings if no files are written but those that are open and those
at places in `A`. -/
structure World.Later (A : Place → Prop) (w w' : World) : Prop where
  now : w'.now = w.now
  sound : w'.Sound
  disk : Disk.Writes (fun p => Disk.Open w.disk p ∨ A p) w.disk w'.disk

theorem Disk.not_open {d : Disk} {p : Place} (h : d.held = []) : ¬ Disk.Open d p := by
  rintro ⟨a, ha, -⟩
  rw [h] at ha
  simp at ha

/-- No place at all. -/
def Nowhere (_ : Place) : Prop :=
  False

namespace World.Later

variable {A B : Place → Prop} {w w' w'' : World}

theorem refl (h : w.Sound) : w.Later A w :=
  ⟨rfl, h, .refl _⟩

/-- Surroundings with the same clock, counters and files. -/
theorem of_same (h : w.Sound) (hn : w'.now = w.now) (hm : w'.metrics = w.metrics)
    (hd : w'.disk = w.disk) : w.Later A w' :=
  ⟨hn, fun m hm' => h m (hm ▸ hm'), hd ▸ .refl _⟩

theorem mono (hAB : ∀ p, A p → B p) (h : w.Later A w') : w.Later B w' :=
  ⟨h.now, h.sound, h.disk.mono fun p hp => hp.imp id (hAB p)⟩

theorem trans (h : w.Later A w') (h' : w'.Later A w'') : w.Later A w'' := by
  refine ⟨h'.now.trans h.now, h'.sound, h.disk.trans (h'.disk.mono fun p hp => ?_)⟩
  exact hp.imp h.disk.open_iff.1 id

theorem of_nowhere (h : w.Later Nowhere w') : w.Later A w' :=
  h.mono fun _ hp => hp.elim

/-- If no file is open and there is no other place to write at, nothing is written. -/
theorem disk_eq (h : w.Later Nowhere w') (ho : w.disk.held = []) : w'.disk = w.disk := by
  refine h.disk.eq_of_none fun p hp => ?_
  rcases hp with hp | hp
  · exact Disk.not_open ho hp
  · exact hp

end World.Later

/-- The counters are as the program keeps them, and no file is open. -/
structure World.Quiet (w : World) : Prop where
  sound : w.Sound
  closed : w.disk.held = []

/-- The files and the clock are the same, and all is quiet as before. -/
structure World.Still (w w' : World) : Prop where
  quiet : w'.Quiet
  disk : w'.disk = w.disk
  now : w'.now = w.now

namespace World.Still

variable {w w' w'' : World}

theorem refl (h : w.Quiet) : w.Still w :=
  ⟨h, rfl, rfl⟩

theorem trans (h : w.Still w') (h' : w'.Still w'') : w.Still w'' :=
  ⟨h'.quiet, h'.disk.trans h.disk, h'.now.trans h.now⟩

end World.Still

/-- Where no file is open, nothing is written on the way. -/
theorem World.Later.still {w w' : World} (h : w.Later Nowhere w') (hw : w.Quiet) : w.Still w' :=
  have same : w'.disk = w.disk := h.disk_eq hw.closed
  ⟨⟨h.sound, same ▸ hw.closed⟩, same, h.now⟩

/-! ## Calm work -/

namespace Sweep

variable {α β : Type} {w w' : World}

theorem run_bind_eq {work : Sweep α} {a : α} (h : work.run.run w = (.ok a, w'))
    (next : α → Sweep β) : (work >>= next).run.run w = (next a).run.run w' := by
  rw [run_bind, h]

theorem run_bind_fault {work : Sweep α} {f : Fault} (h : work.run.run w = (.error f, w'))
    (next : α → Sweep β) : (work >>= next).run.run w = (.error f, w') := by
  rw [run_bind, h]

/-- Two pieces of work, one after the other, that come to a value. -/
theorem exists_of_run_bind {work : Sweep α} {next : α → Sweep β} {b : β}
    (h : (work >>= next).run.run w = (.ok b, w')) :
    ∃ a w₁, work.run.run w = (.ok a, w₁) ∧ (next a).run.run w₁ = (.ok b, w') := by
  rw [run_bind] at h
  split at h
  · next a w₁ ha => exact ⟨a, w₁, ha, h⟩
  · cases congrArg Prod.fst h

theorem run_world (w : World) : world.run.run w = (.ok w, w) := rfl

theorem run_modify (f : World → World) (w : World) :
    (modify f : Sweep Unit).run.run w = (.ok (), f w) := rfl

theorem run_lookupVar (name : String) (w : World) :
    (lookupVar name).run.run w = (.ok (w.env.lookup name), w) := rfl

/-- The work is always done, and no file is written but those that are open. -/
def Calm (work : Sweep α) : Prop :=
  ∀ w, w.Sound → ∃ a w', work.run.run w = (.ok a, w') ∧ w.Later Nowhere w'

theorem Calm.still {work : Sweep α} (h : Calm work) (hw : w.Quiet) :
    ∃ a w', work.run.run w = (.ok a, w') ∧ w.Still w' := by
  obtain ⟨a, w', hr, hl⟩ := h w hw.sound
  exact ⟨a, w', hr, hl.still hw⟩

theorem calm_pure (a : α) : Calm (pure a) :=
  fun w h => ⟨a, w, rfl, .refl h⟩

theorem Calm.bind {work : Sweep α} {next : α → Sweep β} (hw : Calm work)
    (hn : ∀ a, Calm (next a)) : Calm (work >>= next) := by
  intro w h
  obtain ⟨a, w₁, ha, h₁⟩ := hw w h
  obtain ⟨b, w₂, hb, h₂⟩ := hn a w₁ h₁.sound
  exact ⟨b, w₂, (run_bind_eq ha next).trans hb, h₁.trans h₂⟩

theorem Calm.ite {p : Prop} [Decidable p] {x y : Sweep α} (hx : Calm x) (hy : Calm y) :
    Calm (if p then x else y) := by
  split
  · exact hx
  · exact hy

theorem calm_world : Calm world :=
  fun w h => ⟨w, w, run_world w, .refl h⟩

theorem calm_modify {f : World → World}
    (hf : ∀ w, (f w).now = w.now ∧ (f w).metrics = w.metrics ∧ (f w).disk = w.disk) :
    Calm (modify f : Sweep Unit) :=
  fun w h => ⟨(), f w, rfl, .of_same h (hf w).1 (hf w).2.1 (hf w).2.2⟩

theorem calm_forM (xs : List α) {f : α → Sweep PUnit} (h : ∀ x, Calm (f x)) :
    Calm (xs.forM f) := by
  induction xs with
  | nil => exact calm_pure _
  | cons x xs ih => exact (h x).bind fun _ => ih

theorem calm_warn (s : String) : Calm (warn s) :=
  calm_modify fun _ => ⟨rfl, rfl, rfl⟩

/-- The counters are there, and are as the program keeps them. -/
theorem run_metrics (h : w.Sound) :
    ∃ m w', metrics.run.run w = (.ok m, w') ∧ m.Plain ∧ w.Later Nowhere w' := by
  cases hm : w.metrics with
  | some m =>
    refine ⟨m, w, ?_, h m hm, .refl h⟩
    unfold metrics
    rw [run_bind_eq (run_world w), hm]
    rfl
  | none =>
    let m := Metrics.new Metrics.defaultSpan w.now
    refine ⟨m, { w with metrics := some m }, ?_, Metrics.plain_new _, rfl, ?_, .refl _⟩
    · unfold metrics
      rw [run_bind_eq (run_world w), hm]
      rfl
    · rintro _ ⟨⟩
      exact Metrics.plain_new _

theorem calm_metrics : Calm metrics := by
  intro w h
  obtain ⟨m, w', hr, -, hl⟩ := run_metrics h
  exact ⟨m, w', hr, hl⟩

/-- A change of the counters that is never refused. -/
theorem calm_count {change : Metrics → Number → Metrics × Option Fault}
    (hc : ∀ m now, m.Plain → (change m now).2 = none ∧ (change m now).1.Plain) :
    Calm (count change) := by
  intro w h
  obtain ⟨m, w₁, hr, hm, h₁⟩ := run_metrics h
  obtain ⟨hn, hp⟩ := hc m w₁.now hm
  let w₂ : World := { w₁ with metrics := some (change m w₁.now).1 }
  have h₂ : w₁.Later Nowhere w₂ := by
    refine ⟨rfl, ?_, .refl _⟩
    rintro _ ⟨⟩
    exact hp
  refine ⟨(), w₂, ?_, h₁.trans h₂⟩
  unfold count
  rw [run_bind_eq hr, run_bind_eq (run_world w₁)]
  have hch : change m w₁.now = ((change m w₁.now).1, none) := Prod.ext rfl hn
  rw [hch]
  rfl

theorem calm_record (name : String) (success : Bool) (k : Int) :
    Calm (count fun m now => m.record now name success (.int k)) :=
  calm_count fun _ now h => h.record now name success k

/-! ## Work that may be given up -/

/-- Whether the work is done or given up, the counters stay as the program keeps them. -/
def Steady (work : Sweep α) : Prop :=
  ∀ w, w.Sound → (work.after w).Sound

theorem Calm.steady {work : Sweep α} (h : Calm work) : Steady work := by
  intro w hw
  obtain ⟨a, w', hr, hl⟩ := h w hw
  unfold after
  rw [hr]
  exact hl.sound

theorem Steady.bind {work : Sweep α} {next : α → Sweep β} (hw : Steady work)
    (hn : ∀ a, Steady (next a)) : Steady (work >>= next) := by
  intro w h
  cases ho : work.outcome w with
  | error f =>
    rw [after_bind_error ho]
    exact hw w h
  | ok a =>
    rw [after_bind_ok ho]
    exact hn a _ (hw w h)

theorem Steady.ite {p : Prop} [Decidable p] {x y : Sweep α} (hx : Steady x) (hy : Steady y) :
    Steady (if p then x else y) := by
  split
  · exact hx
  · exact hy

/-- Work that has nothing to do with the counters. -/
theorem steady_of_same {work : Sweep α} (h : ∀ w, (work.after w).metrics = w.metrics) :
    Steady work := by
  intro w hw m hm
  exact hw m (h w ▸ hm)

theorem steady_fail (f : Fault) : Steady (fail f : Sweep α) :=
  steady_of_same fun _ => rfl

theorem steady_forM (xs : List α) {f : α → Sweep PUnit} (h : ∀ x, Steady (f x)) :
    Steady (xs.forM f) := by
  induction xs with
  | nil => exact (calm_pure _).steady
  | cons x xs ih => exact (h x).bind fun _ => ih

theorem steady_option_forM (x : Option α) {f : α → Sweep PUnit} (h : ∀ a, Steady (f a)) :
    Steady (x.forM f) := by
  cases x with
  | none => exact (calm_pure _).steady
  | some a => exact h a

/-! ## Log -/

theorem calm_countRecord {r : Log.Record} {label : String} (hl : r.label = .str label) :
    Calm (countRecord r) := by
  unfold countRecord
  rw [hl]
  split
  · exact calm_pure _
  · exact (calm_record _ _ 1).bind fun _ => (calm_record _ false 1).ite (calm_pure _)

theorem calm_complain : Calm complain :=
  calm_warn _

theorem calm_logLine (file : Nat) (line : String) : Calm (logLine file line) := by
  unfold logLine
  refine calm_world.bind fun _ => Calm.ite (fun w h => ⟨(), _, rfl, rfl, h, ?_⟩) calm_complain
  exact (Disk.writes_appendHeld w.disk file _).mono fun _ => .inl

theorem calm_deliver {r : Log.Record} {label : String} (hl : r.label = .str label)
    (message : String) (sink : Log.Sink) : Calm (deliver r message sink) := by
  cases sink with
  | silent => exact calm_pure _
  | terminal => exact calm_warn _
  | plainFile file => exact calm_logLine file _
  | jsonFile file =>
    rw [deliver]
    cases r.jsonLine with
    | ok line => exact calm_logLine file _
    | error _ => exact calm_complain
  | counters => exact calm_countRecord hl

/-- A record that has a message, and a text for the name of its level, can be logged. -/
theorem calm_emit {r : Log.Record} {message label : String} (hr : r.message = .ok message)
    (hl : r.label = .str label) : Calm (emit r) := by
  unfold emit
  refine Calm.bind (calm_modify fun _ => ⟨rfl, rfl, rfl⟩) fun _ => calm_world.bind fun w => ?_
  dsimp only
  split
  · rw [hr]
    refine Calm.bind (calm_pure message) fun message => ?_
    split
    · exact (calm_warn _).ite (calm_pure _)
    · exact calm_forM _ fun h => (calm_deliver hl message h.sink).ite (calm_pure _)
  · exact calm_pure _

theorem calm_log (logger : String) (level : Log.Level) (message : String) :
    Calm (log logger level message) :=
  calm_world.bind fun _ => calm_emit rfl rfl

/-! ## Files -/

variable {path : String}

theorem run_checkPath (hn : '\x00' ∉ path.toList) (w : World) :
    (checkPath path).run.run w = (.ok (), w) := by
  unfold checkPath
  rw [if_neg (by simpa using hn)]
  rfl

theorem run_readBytes (hn : '\x00' ∉ path.toList) (w : World) :
    (readBytes path).run.run w = ((refused path (w.disk.read path)).outcome w, w) := by
  unfold readBytes
  rw [run_bind_eq (run_checkPath hn w), run_bind_eq (run_world w)]
  cases w.disk.read path <;> rfl

/-- The normal form of a path is the same in the same tree. -/
theorem outcome_absolute_of_disk (h : w'.disk = w.disk) (path : String) :
    (absolute path).outcome w' = (absolute path).outcome w := by
  have hc : cwd.outcome w' = cwd.outcome w := by rw [outcome_cwd, outcome_cwd, h]
  unfold absolute
  split
  · rfl
  · cases ho : cwd.outcome w with
    | error f => rw [outcome_bind_error ho, outcome_bind_error (hc.trans ho)]
    | ok s =>
      rw [outcome_bind_ok ho, outcome_bind_ok (hc.trans ho)]
      rfl

/-- To ask for the normal form of a path changes nothing. -/
theorem run_absolute {top : String} (h : (absolute path).outcome w = .ok top) :
    (absolute path).run.run w = (.ok top, w) := by
  refine Prod.ext h ?_
  have hc : cwd.after w = w := by
    unfold cwd
    rw [after_bind_ok (a := w) rfl]
    cases w.disk.cwd.place? <;> rfl
  change (absolute path).after w = w
  unfold absolute
  split
  · rfl
  · cases ho : cwd.outcome w with
    | error f => rw [after_bind_error ho, hc]
    | ok s => rw [after_bind_ok ho, hc]; rfl

/-- A path that was checked has no NUL. -/
theorem nul_not_mem_of_checkPath {u : Unit} (h : (checkPath path).outcome w = .ok u) :
    '\x00' ∉ path.toList := by
  intro hn
  unfold checkPath at h
  rw [if_pos (by simpa using hn)] at h
  cases h

/-- To ask for a real path changes nothing. -/
theorem run_resolve {p real : Path} (h : (resolve p).outcome w = .ok real) :
    (resolve p).run.run w = (.ok real, w) := by
  obtain ⟨u, hc, -⟩ := outcome_bind_eq_ok h
  have hcheck := run_checkPath (nul_not_mem_of_checkPath hc) w
  refine Prod.ext h ?_
  unfold resolve
  rw [run_bind_eq hcheck, run_bind_eq (run_world w)]
  dsimp only
  split
  · rfl
  · split <;> rfl

/-- The real path of a path is the same in the same tree. -/
theorem outcome_resolve_of_disk (h : w'.disk = w.disk) (p : Path) :
    (resolve p).outcome w' = (resolve p).outcome w := by
  unfold resolve outcome
  by_cases hn : '\x00' ∈ p.text.toList
  · have hc : ∀ w : World, (checkPath p.text).run.run w =
        (.error (.badValue "embedded null byte"), w) := by
      intro w
      unfold checkPath
      rw [if_pos (by simpa using hn)]
      rfl
    rw [run_bind_fault (hc w), run_bind_fault (hc w')]
  · rw [run_bind_eq (run_checkPath hn w), run_bind_eq (run_checkPath hn w'),
      run_bind_eq (run_world w), run_bind_eq (run_world w'), h]
    dsimp only
    split
    · rfl
    · split <;> rfl

/-- The real path of a path is in normal form. -/
theorem normal_of_resolve {p real : Path} (hd : w.disk.Proper)
    (hc : w.disk.node? w.disk.cwd.base = some .dir)
    (h : (resolve p).outcome w = .ok real) : Path.Normal real.text := by
  obtain ⟨u, hcheck, -⟩ := outcome_bind_eq_ok h
  have hrun := run_checkPath (nul_not_mem_of_checkPath hcheck) w
  unfold resolve outcome at h
  rw [run_bind_eq hrun, run_bind_eq (run_world w)] at h
  dsimp only at h
  split at h
  · cases h
  · next text htext =>
    have hnormal := Disk.normal_of_realPath? hd hc htext
    split at h
    · cases h
    · obtain rfl : Path.ofString text = real := Except.ok.inj h
      rwa [hnormal.text_ofString]

theorem resolve_of_root {p : Path} (hn : '\x00' ∉ p.text.toList)
    (h : w.disk.realPath? p.text = some "/") :
    (resolve p).run.run w = (.ok ⟨"/", []⟩, w) := by
  unfold resolve
  rw [run_bind_eq (run_checkPath hn w), run_bind_eq (run_world w)]
  simp only [h, w.disk.stat_slash]
  rfl

/-- A path in normal form is its own normal form. -/
theorem outcome_absolute_of_normal (h : Path.Normal path) :
    (absolute path).outcome w = .ok path := by
  unfold absolute
  rw [if_pos h.isAbsolute, h.normalize_eq]
  rfl

/-- Whether there is a directory is the same in the same tree. -/
theorem outcome_isDirectory_of_disk (h : w'.disk = w.disk) (path : String) :
    (isDirectory path).outcome w' = (isDirectory path).outcome w := by
  have hnode : (nodeAt? path).outcome w' = (nodeAt? path).outcome w := by
    unfold nodeAt?
    split
    · rfl
    · unfold outcome
      rw [run_bind_eq (run_world w), run_bind_eq (run_world w'), h]
      split <;> rfl
  unfold isDirectory
  cases ho : (nodeAt? path).outcome w with
  | error f => rw [outcome_bind_error ho, outcome_bind_error (hnode.trans ho)]
  | ok n =>
    rw [outcome_bind_ok ho, outcome_bind_ok (hnode.trans ho)]
    rfl

/-- To ask whether there is a directory changes nothing. -/
theorem after_isDirectory (path : String) (w : World) : (isDirectory path).after w = w := by
  have hn : (nodeAt? path).after w = w := by
    unfold nodeAt?
    split
    · rfl
    · rw [after_bind_ok (a := w) rfl]
      split <;> rfl
  unfold isDirectory
  cases ho : (nodeAt? path).outcome w with
  | error f => rw [after_bind_error ho, hn]
  | ok n => rw [after_bind_ok ho, hn]; rfl

theorem run_isDirectory {b : Bool} (h : (isDirectory path).outcome w = .ok b) :
    (isDirectory path).run.run w = (.ok b, w) :=
  Prod.ext h (after_isDirectory path w)

theorem stat_of_file? {f : Disk.File} (h : w.disk.file? path = some f) :
    w.disk.stat path = .ok (.file f.bytes f.stamp) := by
  unfold Disk.stat
  rw [Disk.file?_eq_some.1 h]

theorem run_nodeAt?_of_stat {n : Node} (hn : '\x00' ∉ path.toList)
    (h : w.disk.stat path = .ok n) : (nodeAt? path).run.run w = (.ok (some n), w) := by
  unfold nodeAt?
  rw [if_neg (by simpa using hn), run_bind_eq (run_world w), h]
  rfl

/-- A path that leads to something exists. -/
theorem run_pathExists_of_stat {p : Path} {n : Node} (hn : '\x00' ∉ p.text.toList)
    (h : w.disk.stat p.text = .ok n) : (pathExists p).run.run w = (.ok true, w) := by
  unfold pathExists
  rw [run_bind_eq (run_nodeAt?_of_stat hn h)]
  rfl

theorem run_isDirectory_of_stat (hn : '\x00' ∉ path.toList) (h : w.disk.stat path = .ok .dir) :
    (isDirectory path).run.run w = (.ok true, w) := by
  unfold isDirectory
  rw [run_bind_eq (run_nodeAt?_of_stat hn h)]
  rfl

/-- A path whose first name is free at the root leads nowhere. -/
theorem run_pathExists {p : Path} {n : String} {r : List String}
    (hp : Text.splitAt '/' p.text = "" :: n :: r ∧ Path.isAbsolute p.text = true ∧
      p.text.toList.contains '\x00' = false ∧ Text.byteLength p.text ≤ Disk.pathLimit)
    (hn : n ∉ ["", ".", ".."] ∧ Text.byteLength n ≤ Disk.nameLimit ∧ w.disk.node? [n] = none) :
    (pathExists p).run.run w = (.ok false, w) := by
  have hw : world.run.run w = (.ok w, w) := rfl
  have hs : w.disk.stat p.text = .error .missing :=
    Disk.stat_eq_missing hp.1 hp.2.1 hp.2.2.2 hn.1 hn.2.1 hn.2.2
  unfold pathExists nodeAt?
  rw [hp.2.2.1, if_neg (by decide), run_bind, run_bind, hw]
  simp only [hs]
  rfl

/-- A text is read. -/
theorem run_readText {text : List Char} (hn : '\x00' ∉ path.toList)
    (ht : w.disk.text? path = some text) : (readText path).run.run w = (.ok text, w) := by
  obtain ⟨f, hf, hd⟩ := Option.bind_eq_some_iff.1 ht
  have hb : (readBytes path).run.run w = (.ok f.bytes, w) := by
    rw [run_readBytes hn, Disk.read_of_file? hf]
    rfl
  unfold readText
  rw [run_bind_eq hb, Disk.decode_of_toOption hd]
  rfl

/-- What is no text is not read, and that is trouble with the file. -/
theorem run_readText_none (hn : '\x00' ∉ path.toList) (ht : w.disk.text? path = none) :
    ∃ f, (readText path).run.run w = (.error f, w) ∧ f.Blocks path := by
  unfold readText
  cases hr : w.disk.read path with
  | error e =>
    refine ⟨.os e path, ?_, .inl ⟨e, rfl⟩⟩
    have hb : (readBytes path).run.run w = (.error (.os e path), w) := by
      rw [run_readBytes hn, hr]
      rfl
    exact run_bind_fault hb _
  | ok bytes =>
    have hb : (readBytes path).run.run w = (.ok bytes, w) := by
      rw [run_readBytes hn, hr]
      rfl
    obtain ⟨f, hf, rfl⟩ := Disk.read_eq_ok hr
    rw [run_bind_eq hb]
    cases hd : Text.decode f.bytes with
    | error e => exact ⟨.undecodable e, rfl, .inr ⟨e, rfl⟩⟩
    | ok text =>
      unfold Disk.text? at ht
      rw [hf, Option.bind_some, hd] at ht
      simp [Except.toOption] at ht

/-- A text that was read is the text of a file. -/
theorem exists_file_of_readText {text : List Char} (h : (readText path).outcome w = .ok text) :
    '\x00' ∉ path.toList ∧ ∃ f, w.disk.file? path = some f ∧ Text.decode f.bytes = .ok text := by
  obtain ⟨bytes, hb, hd⟩ := outcome_bind_eq_ok h
  obtain ⟨u, hc, -⟩ := outcome_bind_eq_ok hb
  have hn := nul_not_mem_of_checkPath hc
  refine ⟨hn, ?_⟩
  unfold outcome at hb
  rw [run_readBytes hn] at hb
  cases hr : w.disk.read path with
  | error e =>
    rw [hr] at hb
    cases hb
  | ok bytes' =>
    rw [hr] at hb
    obtain rfl : bytes' = bytes := Except.ok.inj hb
    obtain ⟨f, hf, rfl⟩ := Disk.read_eq_ok hr
    refine ⟨f, hf, ?_⟩
    cases ht : Text.decode f.bytes with
    | error e =>
      rw [ht] at hd
      cases hd
    | ok text' =>
      rw [ht] at hd
      obtain rfl : text' = text := Except.ok.inj hd
      rfl

theorem run_writeText_of_write {text : List Char} {disk : Disk} (hn : '\x00' ∉ path.toList)
    (h : w.disk.write path (Text.encode text) = .ok disk) :
    (writeText path text).run.run w = (.ok (), { w with disk }) := by
  unfold writeText writeBytes
  rw [run_bind_eq (run_checkPath hn w), run_bind_eq (run_world w), h]
  rfl

theorem run_appendText_of_append {text : List Char} {disk : Disk} (hn : '\x00' ∉ path.toList)
    (h : w.disk.append path (Text.encode text) = .ok disk) :
    (appendText path text).run.run w = (.ok (), { w with disk }) := by
  unfold appendText
  rw [run_bind_eq (run_checkPath hn w), run_bind_eq (run_world w), h]
  rfl

/-- A file that is there and may be written is written anew. -/
theorem run_writeText {f : Disk.File} (hn : '\x00' ∉ path.toList) (hf : w.disk.file? path = some f)
    (hr : w.disk.refuses f.place = false) (text : List Char) : (writeText path text).run.run w =
      (.ok (), { w with disk := w.disk.replaceFile f.place f.bytes (Text.encode text) }) :=
  run_writeText_of_write hn (Disk.update_of_file? hf hr)

/-- A file that is locked is not written, and that is trouble with a file. -/
theorem run_writeText_of_refuses {f : Disk.File} (hn : '\x00' ∉ path.toList)
    (hf : w.disk.file? path = some f) (hr : w.disk.refuses f.place = true) (text : List Char) :
    (writeText path text).run.run w = (.error (.os .denied path), w) := by
  unfold writeText writeBytes Disk.write
  rw [run_bind_eq (run_checkPath hn w), run_bind_eq (run_world w), Disk.update_of_refuses hf hr]
  rfl

theorem run_makeDirs_of_made {p : Path} {disk : Disk} (hn : '\x00' ∉ p.text.toList)
    (h : w.disk.makeDirs p.root p.parts = (disk, none)) :
    (makeDirs p).run.run w = (.ok (), { w with disk }) := by
  unfold makeDirs
  rw [run_bind_eq (run_checkPath hn w), run_bind_eq (run_world w), h]
  rfl

/-- A directory that is there need not be made. -/
theorem run_makeDirs {p : Path} (hn : '\x00' ∉ p.text.toList)
    (hd : w.disk.stat p.text = .ok .dir) : (makeDirs p).run.run w = (.ok (), w) :=
  run_makeDirs_of_made hn (Disk.makeDirs_of_stat p.root p.parts hd)

theorem run_makeDirs_of_refused {p : Path} {disk : Disk} {e : Errno} (hn : '\x00' ∉ p.text.toList)
    (h : w.disk.makeDirs p.root p.parts = (disk, some (e, path))) :
    (makeDirs p).run.run w = (.error (.os e path), { w with disk }) := by
  unfold makeDirs
  rw [run_bind_eq (run_checkPath hn w), run_bind_eq (run_world w), h]
  rfl

/-- A text that was written, and what was written on the way. -/
theorem exists_of_run_writeText {text : List Char}
    (h : (writeText path text).run.run w = (.ok (), w')) : '\x00' ∉ path.toList ∧
      ∃ disk, w.disk.write path (Text.encode text) = .ok disk ∧ w' = { w with disk } := by
  obtain ⟨u, w₁, hc, h⟩ := exists_of_run_bind h
  have hn := nul_not_mem_of_checkPath (w := w) (u := u) (congrArg Prod.fst hc)
  obtain rfl : w = w₁ := congrArg Prod.snd ((run_checkPath hn w).symm.trans hc)
  refine ⟨hn, ?_⟩
  rw [run_bind_eq (run_world w)] at h
  cases hd : w.disk.write path (Text.encode text) with
  | error e =>
    have hfail : (refused path (.error e : Except Errno Disk)).run.run w =
        (.error (.os e path), w) := rfl
    rw [hd, run_bind_fault hfail] at h
    cases congrArg Prod.fst h
  | ok d =>
    rw [hd] at h
    exact ⟨d, rfl, (congrArg Prod.snd h).symm⟩

/-- A text that was written is in a file, unless the file is a device. -/
theorem exists_file_of_writeText {text : List Char}
    (h : (writeText path text).run.run w = (.ok (), w')) (hr : w'.disk.Retains path) :
    '\x00' ∉ path.toList ∧ ∃ f, w'.disk.file? path = some f ∧ f.bytes = Text.encode text := by
  obtain ⟨hn, d, hd, rfl⟩ := exists_of_run_writeText h
  obtain ⟨f, old, hf, hb⟩ := Disk.exists_file?_of_update hd hr
  exact ⟨hn, f, hf, hb⟩

theorem steady_checkPath (path : String) : Steady (checkPath path) := by
  unfold checkPath
  exact (steady_fail _).ite (calm_pure _).steady

theorem steady_makeDirs (p : Path) : Steady (makeDirs p) := by
  refine (steady_checkPath _).bind fun _ => calm_world.steady.bind fun w => ?_
  split
  · exact steady_of_same fun _ => rfl
  · exact Steady.bind (steady_of_same fun _ => rfl) fun _ => steady_fail _

theorem steady_writeText (path : String) (text : List Char) : Steady (writeText path text) := by
  refine (steady_checkPath _).bind fun _ => calm_world.steady.bind fun w => Steady.bind ?_ fun d =>
    steady_of_same fun _ => rfl
  cases w.disk.write path (Text.encode text) with
  | ok d => exact (calm_pure d).steady
  | error e => exact steady_fail _

end Sweep

end ConsoleSweep
