/-
  Work that prints nothing.

  Only the results of a command are printed; all that is said on the way goes to the log or
  to the terminal as a diagnostic. `Hush` says of a piece of work that what was printed stays
  the same, and the time of day as well; and counters that have started at this time of day
  (`World.Timely`) go on to have done so, whether they are made on the way or not. It holds
  whether the work is done or given up in the middle.
-/
import ConsoleSweep.Program
import ConsoleSweep.Proofs.Config.Again

namespace ConsoleSweep

/-- The counters, if they are in use, have started at the time of day. -/
def World.Timely (w : World) : Prop :=
  ∀ m, w.metrics = some m → m.meter.start = w.now

/-- The counters; they are made now if they are not in use yet. -/
def World.counters (w : World) : Metrics :=
  w.metrics.getD (.new Metrics.defaultSpan w.now)

/-- What holds for the counters that are in use and for new ones holds for the counters. -/
theorem World.counters_cases (w : World) : w.metrics = some w.counters ∨
    w.metrics = none ∧ w.counters = .new Metrics.defaultSpan w.now := by
  unfold counters
  cases w.metrics with
  | some m => exact .inl rfl
  | none => exact .inr ⟨rfl, rfl⟩

theorem World.Timely.counters {w : World} (h : w.Timely) : w.counters.meter.start = w.now := by
  rcases w.counters_cases with hm | ⟨-, hm⟩
  · exact h _ hm
  · rw [hm]
    rfl

/-- Nothing was printed in between. -/
structure World.Hushed (w w' : World) : Prop where
  out : w'.out = w.out
  now : w'.now = w.now
  timely : w.Timely → w'.Timely

namespace World.Hushed

variable {w w' w'' : World}

theorem refl (w : World) : w.Hushed w :=
  ⟨rfl, rfl, id⟩

theorem trans (h : w.Hushed w') (h' : w'.Hushed w'') : w.Hushed w'' :=
  ⟨h'.out.trans h.out, h'.now.trans h.now, fun ht => h'.timely (h.timely ht)⟩

theorem of_same (ho : w'.out = w.out) (hn : w'.now = w.now) (hm : w'.metrics = w.metrics) :
    w.Hushed w' := by
  refine ⟨ho, hn, fun ht m h => ?_⟩
  rw [hn]
  exact ht m (hm ▸ h)

end World.Hushed

namespace Metrics

theorem start_record (m : Metrics) (now : Number) (name : String) (success : Bool)
    (amount : Json) : (m.record now name success amount).1.meter.start = m.meter.start := by
  unfold record
  split
  · rfl
  · split
    · rfl
    · split <;> rfl

theorem start_recordScanned (m : Metrics) (now : Number) (calls : Json) :
    (m.recordScanned now calls).1.meter.start = m.meter.start := by
  have hfirst := m.start_record now "scan.files" true (.int 1)
  unfold recordScanned
  split
  · next m' f h => rwa [h] at hfirst
  · next m' h =>
    rw [h] at hfirst
    split
    · exact (m'.start_record now _ _ _).trans hfirst
    · exact hfirst

theorem start_refresh {m m' : Metrics} {now : Number} (h : m.refresh now = .ok m') :
    m'.meter.start = m.meter.start := by
  unfold refresh at h
  split at h
  · obtain rfl : m = m' := Except.ok.inj h
    rfl
  · cases hc : m.cutoff now with
    | error f =>
      rw [hc] at h
      cases h
    | ok cut =>
      rw [hc] at h
      obtain rfl := Except.ok.inj h
      rfl

theorem start_snapshot (m : Metrics) (now : Number) :
    (m.snapshot now).1.meter.start = m.meter.start := by
  unfold snapshot
  split
  · rfl
  · next m' h => exact start_refresh h

end Metrics

namespace Sweep

variable {α β : Type} {w w' : World}

/-- Nothing is printed, whatever comes of the work. -/
def Hush (work : Sweep α) : Prop :=
  ∀ w : World, w.Hushed (work.after w)

theorem Looks.hush {work : Sweep α} (h : Looks work) : Hush work := by
  intro w
  rw [h w]
  exact .refl w

theorem Hush.bind {work : Sweep α} {next : α → Sweep β} (hw : Hush work)
    (hn : ∀ a, Hush (next a)) : Hush (work >>= next) := by
  intro w
  cases ho : work.outcome w with
  | error f =>
    rw [after_bind_error ho]
    exact hw w
  | ok a =>
    rw [after_bind_ok ho]
    exact (hw w).trans (hn a _)

theorem Hush.ite {p : Prop} [Decidable p] {x y : Sweep α} (hx : Hush x) (hy : Hush y) :
    Hush (if p then x else y) := by
  split
  · exact hx
  · exact hy

theorem Hush.attempt {work : Sweep α} (h : Hush work) : Hush (attempt work) := h

theorem Hush.of_run {work : Sweep α} (h : Hush work) {r : Except Fault α}
    (hr : work.run.run w = (r, w')) : w.Hushed w' := by
  have hw := h w
  unfold after at hw
  rwa [hr] at hw

theorem hush_pure (a : α) : Hush (pure a) :=
  (looks_pure a).hush

theorem hush_fail (f : Fault) : Hush (fail f : Sweep α) :=
  (looks_fail f).hush

theorem hush_world : Hush world :=
  looks_world.hush

theorem hush_ofExcept (e : Except Fault α) : Hush (ofExcept e) := by
  cases e with
  | ok a => exact hush_pure a
  | error f => exact hush_fail f

theorem hush_modify {f : World → World}
    (hf : ∀ w : World, (f w).out = w.out ∧ (f w).now = w.now ∧ (f w).metrics = w.metrics) :
    Hush (modify f : Sweep Unit) :=
  fun w => .of_same (hf w).1 (hf w).2.1 (hf w).2.2

theorem hush_forM (xs : List α) {f : α → Sweep PUnit} (h : ∀ x, Hush (f x)) :
    Hush (xs.forM f) := by
  induction xs with
  | nil => exact hush_pure _
  | cons x xs ih => exact (h x).bind fun _ => ih

theorem hush_foldlM (xs : List α) {f : β → α → Sweep β} (h : ∀ b x, Hush (f b x)) (b : β) :
    Hush (xs.foldlM f b) := by
  induction xs generalizing b with
  | nil => exact hush_pure b
  | cons x xs ih => exact (h b x).bind fun b' => ih b'

/-! ## Files -/

theorem looks_absolute (path : String) : Looks (absolute path) := by
  unfold absolute
  exact (looks_pure _).ite (looks_cwd.bind fun _ => looks_pure _)

theorem looks_refused (path : String) (e : Except Errno α) : Looks (refused path e) := by
  cases e with
  | ok a => exact looks_pure a
  | error e => exact looks_fail _

theorem looks_readText (path : String) : Looks (readText path) := by
  refine Looks.bind ((looks_checkPath path).bind fun _ => looks_world.bind fun w =>
    looks_refused path _) fun bytes => ?_
  split
  · exact looks_pure _
  · exact looks_fail _

theorem looks_isDirectory (path : String) : Looks (isDirectory path) :=
  (looks_nodeAt? path).bind fun _ => looks_pure _

theorem hush_writeText (path : String) (text : List Char) : Hush (writeText path text) :=
  (looks_checkPath path).hush.bind fun _ => hush_world.bind fun _ =>
    (looks_refused path _).hush.bind fun _ => hush_modify fun _ => ⟨rfl, rfl, rfl⟩

theorem hush_appendText (path : String) (text : List Char) : Hush (appendText path text) :=
  (looks_checkPath path).hush.bind fun _ => hush_world.bind fun _ =>
    (looks_refused path _).hush.bind fun _ => hush_modify fun _ => ⟨rfl, rfl, rfl⟩

theorem hush_holdFile (path : String) : Hush (holdFile path) :=
  (looks_checkPath path).hush.bind fun _ => hush_world.bind fun _ =>
    (looks_refused path _).hush.bind fun (_, _) =>
      Hush.bind (hush_modify fun _ => ⟨rfl, rfl, rfl⟩) fun _ => hush_pure _

theorem hush_makeDirs (p : Path) : Hush (makeDirs p) := by
  refine (looks_checkPath _).hush.bind fun _ => hush_world.bind fun w => ?_
  split
  · exact hush_modify fun _ => ⟨rfl, rfl, rfl⟩
  · exact Hush.bind (hush_modify fun _ => ⟨rfl, rfl, rfl⟩) fun _ => hush_fail _

/-! ## Counters -/

theorem run_metrics_eq (w : World) :
    metrics.run.run w = (.ok w.counters, { w with metrics := some w.counters }) := by
  unfold metrics World.counters
  rw [run_bind_eq (run_world w)]
  cases hm : w.metrics with
  | some m =>
    have hsame : { w with metrics := some m } = w := by rw [← hm]
    rw [Option.getD_some, hsame]
    rfl
  | none => rfl

theorem run_count (change : Metrics → Number → Metrics × Option Fault) (w : World) :
    (count change).run.run w =
      (match (change w.counters w.now).2 with
        | some f => .error f
        | none => .ok (),
      { w with metrics := some (change w.counters w.now).1 }) := by
  unfold count
  rw [run_bind_eq (run_metrics_eq w), run_bind_eq (run_world _)]
  cases h : change w.counters w.now with
  | mk m refusal => cases refusal <;> rfl

theorem run_snapshot (w : World) : snapshot.run.run w =
    ((w.counters.snapshot w.now).2,
      { w with metrics := some (w.counters.snapshot w.now).1 }) := by
  unfold snapshot
  rw [run_bind_eq (run_metrics_eq w), run_bind_eq (run_world _)]
  cases h : w.counters.snapshot w.now with
  | mk m shown => cases shown <;> rfl

/-- Counters are changed, and go on from the same start. -/
theorem hushed_metrics {m : Metrics} (h : m.meter.start = w.counters.meter.start) :
    w.Hushed { w with metrics := some m } := by
  refine ⟨rfl, rfl, fun ht n hn => ?_⟩
  obtain rfl := Option.some.inj hn
  exact h.trans ht.counters

theorem hush_metrics : Hush metrics := by
  intro w
  unfold after
  rw [run_metrics_eq]
  exact hushed_metrics rfl

theorem hush_count {change : Metrics → Number → Metrics × Option Fault}
    (hc : ∀ m now, (change m now).1.meter.start = m.meter.start) : Hush (count change) := by
  intro w
  unfold after
  rw [run_count]
  exact hushed_metrics (hc _ _)

theorem hush_snapshot : Hush snapshot := by
  intro w
  unfold after
  rw [run_snapshot]
  exact hushed_metrics (Metrics.start_snapshot _ _)

theorem hush_writeSnapshot (p : Path) : Hush (writeSnapshot p) := by
  refine hush_snapshot.bind fun shown => (hush_makeDirs _).bind fun _ =>
    (hush_appendText _ _).bind fun _ => ?_
  exact Hush.ite ((hush_fail _).bind fun _ => hush_appendText _ _) (hush_appendText _ _)

/-! ## Log -/

theorem hush_warn (s : String) : Hush (warn s) :=
  hush_modify fun _ => ⟨rfl, rfl, rfl⟩

theorem hush_countRecord (r : Log.Record) : Hush (countRecord r) := by
  unfold countRecord
  split
  · exact hush_pure _
  · split
    · exact hush_fail _
    · exact (hush_count fun m now => m.start_record now _ _ _).bind fun _ =>
        (hush_count fun m now => m.start_record now _ _ _).ite (hush_pure _)

theorem hush_complain : Hush complain :=
  hush_warn _

theorem hush_logLine (file : Nat) (line : String) : Hush (logLine file line) := by
  unfold logLine
  exact hush_world.bind fun _ => Hush.ite (hush_modify fun _ => ⟨rfl, rfl, rfl⟩) hush_complain

theorem hush_deliver (r : Log.Record) (message : String) (sink : Log.Sink) :
    Hush (deliver r message sink) := by
  cases sink with
  | silent => exact hush_pure _
  | terminal => exact hush_warn _
  | plainFile file => exact hush_logLine file _
  | jsonFile file =>
    rw [deliver]
    cases r.jsonLine with
    | ok line => exact hush_logLine file _
    | error _ => exact hush_complain
  | counters => exact hush_countRecord r

theorem hush_emit (r : Log.Record) : Hush (emit r) := by
  unfold emit
  refine Hush.bind (hush_modify fun _ => ⟨rfl, rfl, rfl⟩) fun _ => hush_world.bind fun w => ?_
  dsimp only
  split
  · refine (hush_ofExcept _).bind fun message => ?_
    split
    · exact (hush_warn _).ite (hush_pure _)
    · exact hush_forM _ fun h => (hush_deliver r message h.sink).ite (hush_pure _)
  · exact hush_pure _

theorem hush_log (logger : String) (level : Log.Level) (message : String) :
    Hush (log logger level message) :=
  hush_world.bind fun _ => hush_emit _

end Sweep

open Sweep

/-! ## Loggers -/

namespace Logger

theorem looks_isOn (name default : String) : Looks (isOn name default) :=
  fun _ => rfl

theorem hush_addHandler (h : Log.Handler) : Hush (addHandler h) :=
  hush_modify fun _ => ⟨rfl, rfl, rfl⟩

theorem hush_openFile (dir : Path) (name : String) : Hush (openFile dir name) :=
  (looks_absolute _).hush.bind fun _ => hush_holdFile _

theorem hush_prepare (level : Log.Level) : Hush (prepare level) := by
  have last : Hush (do if ← isOn "METRICS_ENABLED" "1" then addHandler ⟨0, .counters⟩) :=
    (looks_isOn _ _).hush.bind fun _ => (hush_addHandler _).ite (hush_pure _)
  unfold prepare
  refine hush_world.bind fun _ => Hush.ite (hush_pure _) ?_
  refine Hush.bind (fun _ => .refl _) fun _ => (hush_ofExcept _).bind fun _ => ?_
  refine Hush.bind (hush_modify fun _ => ⟨rfl, rfl, rfl⟩) fun _ =>
    (hush_addHandler _).bind fun _ => ?_
  refine (looks_isOn _ _).hush.bind fun _ => Hush.ite ?_ last
  refine Hush.bind (fun _ => .refl _) fun _ => (hush_makeDirs _).bind fun _ => ?_
  refine hush_world.bind fun _ => (hush_ofExcept _).bind fun _ => ?_
  refine (hush_openFile _ _).bind fun _ => (hush_addHandler _).bind fun _ => ?_
  refine (looks_isOn _ _).hush.bind fun _ => Hush.ite ?_ last
  exact (hush_openFile _ _).bind fun _ => (hush_addHandler _).bind fun _ => last

theorem hush_create (name : String) (level : Option String) : Hush (create name level) := by
  unfold create
  cases level
  case' some word => refine (hush_pure word).bind ?_
  case' none => refine Hush.bind (fun _ => .refl _) fun _ => (hush_pure _).bind ?_
  all_goals
    intro word
    refine Hush.bind (hush_modify fun _ => ⟨rfl, rfl, rfl⟩) fun _ =>
      (hush_ofExcept _).bind fun _ => ?_
    refine Hush.bind (hush_modify fun _ => ⟨rfl, rfl, rfl⟩) fun _ => hush_world.bind fun _ => ?_
    refine Hush.ite ((hush_prepare _).bind fun _ => ?_) (hush_pure _)
    exact Hush.bind (hush_modify fun _ => ⟨rfl, rfl, rfl⟩) fun _ => hush_pure _

theorem hush_timed {α : Type} {work : Sweep α} (l : Logger) (operation : String)
    (hw : Hush work) : Hush (l.timed operation work) := by
  refine hush_world.bind fun _ => hw.attempt.bind fun _ => hush_world.bind fun _ =>
    (hush_ofExcept _).bind fun _ => Hush.bind ?_ fun _ => hush_ofExcept _
  exact Hush.ite ((hush_fail _).bind fun _ => hush_log _ _ _) (hush_log _ _ _)

end Logger

/-! ## Commands -/

theorem Store.hush_save (s : Store) (p : Path) : Hush (s.save p) := by
  refine (hush_makeDirs _).bind fun _ => ?_
  exact Hush.ite ((hush_fail _).bind fun _ => hush_writeText _ _) (hush_writeText _ _)

namespace Scan

theorem hush_scanFile (methods : List String) {progress : Nat → Sweep Unit}
    (hp : ∀ n, Hush (progress n)) (t : Tally) (path : String) :
    Hush (scanFile methods progress t path) := by
  unfold scanFile
  dsimp only
  split
  case' isTrue => refine (hp _).bind fun _ => ?_
  all_goals
    refine Hush.bind (Looks.hush ((looks_readText _).bind fun _ => looks_pure _)).attempt
      fun found => ?_
    split
    · exact (hush_count fun m now => m.start_recordScanned now _).bind fun _ => hush_pure _
    · refine Hush.ite ?_ (hush_fail _)
      exact (hush_log _ _ _).bind fun _ =>
        (hush_count fun m now => m.start_record now _ _ _).bind fun _ => hush_pure _

theorem hush_sources (root : String) (endings ignored : List String) :
    Hush (sources root endings ignored) := by
  refine (looks_absolute _).hush.bind fun _ => (looks_checkPath _).hush.bind fun _ =>
    hush_world.bind fun _ => ?_
  split
  · exact hush_pure _
  · exact (hush_log _ _ _).bind fun _ => hush_pure _

theorem hush_run (root : String) (settings : CleanerSettings) {progress : Nat → Sweep Unit}
    (hp : ∀ n, Hush (progress n)) : Hush (run root settings progress) := by
  refine (looks_resolve _).hush.bind fun _ => (looks_isDirectory _).hush.bind fun _ => ?_
  dsimp only
  split
  case' isTrue => refine (hush_fail _).bind fun _ => ?_
  all_goals
    refine hush_metrics.bind fun _ => (hush_sources _ _ _).bind fun files => ?_
    refine (hush_foldlM files (fun t path => hush_scanFile _ hp t path) _).bind fun t => ?_
    exact (hush_log _ _ _).bind fun _ => hush_pure _

end Scan

namespace Program

variable {c : Config}

theorem looks_resolvePath (value : Option String) : Looks (c.resolvePath value) := by
  cases value with
  | none => exact looks_pure _
  | some v => exact Looks.ite (looks_pure _) ((looks_expandHome _).bind fun _ => looks_pure _)

theorem looks_storeFile : Looks (storeFile c) := by
  refine (looks_resolvePath _).bind fun p => ?_
  split
  · exact looks_pure _
  · exact looks_fail _

theorem hush_conclude (log : Logger) (code : Nat) : Hush (conclude c log code) := by
  refine (looks_resolvePath _).hush.bind fun p => ?_
  split
  · exact hush_pure _
  · exact (hush_writeSnapshot _).bind fun _ => (hush_log _ _ _).bind fun _ => hush_pure _

end Program

end ConsoleSweep
