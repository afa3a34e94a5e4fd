/-
  The counters of a command that has only begun.

  A command that ends with a look at the counters can be given up there: the date may be out
  of range, and a sum may have too many digits to be written. The date is the same for every
  command at the same time of day (`Metrics.Datable`). Sums are small as long as little was
  counted: opening a logger counts nothing and puts four handlers in place at most
  (`Logger.outfits_create`), and a record that is logged counts two for each of them
  (`Sweep.few_log`).
-/
import ConsoleSweep.Proofs.Hush
import ConsoleSweep.Proofs.Json.RoundTrip

namespace ConsoleSweep

/-! ## Small sums -/

namespace Metrics

variable {m : Metrics} {k : Nat} {sums : List (String × Number)}

/-- The sums are whole and not above a bound. -/
def Within (k : Nat) (sums : List (String × Number)) : Prop :=
  ∀ e ∈ sums, ∃ n : Nat, e.2 = .int n ∧ n ≤ k

/-- Counters with the usual window and small sums. -/
structure Few (k : Nat) (m : Metrics) : Prop where
  span : m.span = defaultSpan
  totals : Within k m.meter.totals
  errors : Within k m.meter.errors

theorem Within.whole (h : Within k sums) : Whole sums := fun e he =>
  have ⟨n, hn, _⟩ := h e he
  ⟨n, hn⟩

theorem Within.mono {k' : Nat} (hk : k ≤ k') (h : Within k sums) : Within k' sums := by
  intro e he
  obtain ⟨n, hn, hle⟩ := h e he
  exact ⟨n, hn, Nat.le_trans hle hk⟩

theorem Few.plain (h : m.Few k) : m.Plain :=
  ⟨h.span, h.totals.whole, h.errors.whole⟩

theorem few_new (k : Nat) (now : Number) : (new defaultSpan now).Few k :=
  ⟨rfl, fun _ h => by simp [new, Meter.new] at h, fun _ h => by simp [new, Meter.new] at h⟩

/-- A sum of one more. -/
theorem Within.adjust (h : Within k sums) (name : String) :
    Within (k + 1) (Meter.adjust name 0 (· + .int 1) sums) := by
  induction sums with
  | nil =>
    intro e he
    obtain rfl : e = _ := List.mem_singleton.1 he
    exact ⟨1, rfl, Nat.le_add_left 1 k⟩
  | cons entry sums ih =>
    obtain ⟨key, v⟩ := entry
    obtain ⟨n, hn, hle⟩ : ∃ n : Nat, v = .int n ∧ n ≤ k := h _ List.mem_cons_self
    have rest : Within k sums := fun e he => h e (List.mem_cons_of_mem _ he)
    unfold Meter.adjust
    split
    · intro e he
      rcases List.mem_cons.1 he with rfl | he
      · exact ⟨n + 1, by rw [hn]; rfl, Nat.succ_le_succ hle⟩
      · exact rest.mono (Nat.le_succ k) e he
    · intro e he
      rcases List.mem_cons.1 he with rfl | he
      · exact ⟨n, hn, Nat.le_succ_of_le hle⟩
      · exact ih rest e he

theorem Few.record (h : m.Few k) (now : Number) (name : String) (success : Bool) :
    (m.record now name success (.int 1)).1.Few (k + 1) := by
  rw [h.plain.record_eq]
  refine ⟨h.span, h.totals.adjust name, ?_⟩
  unfold Meter.record
  cases success
  · exact h.errors.adjust name
  · exact h.errors.mono (Nat.le_succ k)

/-! ## Snapshots -/

/-- A snapshot of counters that have started at this moment can be dated and written, as far as it
depends on the moment. -/
def Datable (now : Number) : Prop :=
  ∃ stamp gap uptime, Time.utc now = .ok stamp ∧ now.minus now = .ok gap ∧
    Number.toInt gap.toJson = .ok uptime ∧ (Json.int uptime).isWritable = true

theorem exists_of_shown {now : Number} {v : Json} (h : m.shown now = .ok v) :
    ∃ stamp gap uptime, Time.utc now = .ok stamp ∧ now.minus m.meter.start = .ok gap ∧
      Number.toInt gap.toJson = .ok uptime ∧
      v = .obj
        [("timestamp_utc", .str stamp), ("uptime_seconds", .int uptime),
         ("window_seconds", m.span), ("totals", Metrics.sums m.meter.totals),
         ("errors", Metrics.sums m.meter.errors),
         ("rates_per_min", .obj (m.meter.recent.map fun (k, n) => (k, .real (m.rate n))))] := by
  unfold shown at h
  cases hstamp : Time.utc now with
  | error f => simp [hstamp, bind, Except.bind] at h
  | ok stamp =>
    cases hgap : now.minus m.meter.start with
    | error f => simp [hstamp, hgap, bind, Except.bind] at h
    | ok gap =>
      cases huptime : Number.toInt gap.toJson with
      | error f => simp [hstamp, hgap, huptime, bind, Except.bind] at h
      | ok uptime =>
        simp only [hstamp, hgap, huptime, bind, Except.bind] at h
        exact ⟨stamp, gap, uptime, rfl, rfl, huptime, (Except.ok.inj h).symm⟩

/-- A snapshot that was written tells that the moment can be dated. -/
theorem datable_of_snapshot {now : Number} {v : Json} (hs : m.meter.start = now)
    (h : (m.snapshot now).2 = .ok v) (hv : v.isWritable = true) : Datable now := by
  unfold snapshot at h
  split at h
  · cases h
  · next m' hr =>
    obtain ⟨stamp, gap, uptime, hstamp, hgap, huptime, rfl⟩ := exists_of_shown h
    rw [start_refresh hr, hs] at hgap
    refine ⟨stamp, gap, uptime, hstamp, hgap, huptime, ?_⟩
    simp only [Json.isWritable, Json.haveWritable, Bool.and_eq_true] at hv
    exact hv.2.1

theorem isWritable_sums (h : Within k sums) (hk : k < 10) :
    (Metrics.sums sums).isWritable = true := by
  refine Json.haveWritable_iff.2 fun f hf => ?_
  obtain ⟨⟨key, v⟩, he, rfl⟩ := List.mem_map.1 hf
  obtain ⟨n, rfl, hle⟩ : ∃ n : Nat, v = .int n ∧ n ≤ k := h _ he
  have hshort : ∀ n < 10, (Json.int (n : Nat)).isWritable = true := by decide
  exact hshort n (Nat.lt_of_le_of_lt hle hk)

theorem Few.refresh (h : m.Few k) (now : Number) : ∃ m', m.refresh now = .ok m' ∧ m'.Few k := by
  unfold Metrics.refresh
  split
  · exact ⟨m, rfl, h⟩
  · obtain ⟨cut, hc⟩ := h.plain.exists_cutoff now
    rw [hc]
    exact ⟨_, rfl, h.span, h.totals, h.errors⟩

/-- A snapshot of small sums is taken at every moment that can be dated, and can be written. -/
theorem Few.snapshot {now : Number} (h : m.Few k) (hk : k < 10) (hs : m.meter.start = now)
    (hd : Datable now) : ∃ v, (m.snapshot now).2 = .ok v ∧ v.isWritable = true ∧
      (m.snapshot now).1.Plain := by
  obtain ⟨stamp, gap, uptime, hstamp, hgap, huptime, hw⟩ := hd
  obtain ⟨m', hr, hm'⟩ := h.refresh now
  have hstart : m'.meter.start = now := (start_refresh hr).trans hs
  unfold Metrics.snapshot
  rw [hr]
  dsimp only
  unfold shown
  rw [hstart, hstamp, hgap]
  simp only [huptime, bind, Except.bind]
  refine ⟨_, rfl, ?_, hm'.plain⟩
  have hrates : Json.isWritable
      (.obj (m'.meter.recent.map fun (k, n) => (k, .real (m'.rate n)))) = true := by
    refine Json.haveWritable_iff.2 fun f hf => ?_
    obtain ⟨e, -, rfl⟩ := List.mem_map.1 hf
    rfl
  rw [hm'.span]
  simp only [Json.isWritable, Json.haveWritable, Bool.and_eq_true]
  exact ⟨trivial, hw, by decide, isWritable_sums hm'.totals hk, isWritable_sums hm'.errors hk,
    hrates, trivial⟩

end Metrics

/-- The counters, if they are in use, have small sums. -/
def World.Few (k : Nat) (w : World) : Prop :=
  ∀ m, w.metrics = some m → m.Few k

theorem World.Few.counters {k : Nat} {w : World} (h : w.Few k) : w.counters.Few k := by
  rcases w.counters_cases with hm | ⟨-, hm⟩
  · exact h _ hm
  · rw [hm]
    exact Metrics.few_new k _

theorem World.Few.sound {k : Nat} {w : World} (h : w.Few k) : w.Sound := fun m hm =>
  (h m hm).plain

theorem World.Few.mono {k k' : Nat} {w : World} (hk : k ≤ k') (h : w.Few k) : w.Few k' :=
  fun m hm => ⟨(h m hm).span, (h m hm).totals.mono hk, (h m hm).errors.mono hk⟩

namespace Sweep

variable {α β : Type} {k n n' : Nat} {w : World}

/-! ## What is counted -/

/-- No sum grows by more than `n`, whatever comes of the work. -/
def Counts (n : Nat) (work : Sweep α) : Prop :=
  ∀ k w, World.Few k w → World.Few (k + n) (work.after w)

theorem Counts.bind {work : Sweep α} {next : α → Sweep β} (hw : Counts n work)
    (hn : ∀ a, Counts n' (next a)) : Counts (n + n') (work >>= next) := by
  intro k w h
  cases ho : work.outcome w with
  | error f =>
    rw [after_bind_error ho]
    exact (hw k w h).mono (by omega)
  | ok a =>
    rw [after_bind_ok ho, ← Nat.add_assoc]
    exact hn a _ _ (hw k w h)

theorem Counts.mono {work : Sweep α} (hn : n ≤ n') (hw : Counts n work) : Counts n' work :=
  fun k w h => (hw k w h).mono (by omega)

theorem Counts.ite {p : Prop} [Decidable p] {x y : Sweep α} (hx : Counts n x) (hy : Counts n y) :
    Counts n (if p then x else y) := by
  split
  · exact hx
  · exact hy

theorem counts_of_same {work : Sweep α} (h : ∀ w, (work.after w).metrics = w.metrics) :
    Counts n work := by
  intro k w hw m hm
  rw [h w] at hm
  exact hw.mono (Nat.le_add_right k n) m hm

theorem counts_pure (a : α) : Counts n (pure a) :=
  counts_of_same fun _ => rfl

theorem counts_forM (xs : List α) {f : α → Sweep PUnit} (h : ∀ x, Counts n (f x)) :
    Counts (n * xs.length) (xs.forM f) := by
  induction xs with
  | nil => exact counts_pure _
  | cons x xs ih =>
    rw [List.length_cons, Nat.mul_succ, Nat.add_comm]
    exact (h x).bind fun _ => ih

theorem counts_record (name : String) (success : Bool) :
    Counts 1 (count fun m now => m.record now name success (.int 1)) := by
  intro k w h m hm
  unfold after at hm
  rw [run_count] at hm
  obtain rfl := Option.some.inj hm
  exact h.counters.record _ name success

theorem counts_countRecord (r : Log.Record) : Counts 2 (countRecord r) := by
  unfold countRecord
  split
  · exact counts_pure _
  · split
    · exact counts_of_same fun _ => rfl
    · exact (counts_record _ _).bind fun _ => (counts_record _ false).ite (counts_pure _)

theorem counts_complain : Counts n complain :=
  counts_of_same fun _ => rfl

theorem counts_world : Counts 0 world :=
  counts_of_same fun _ => rfl

theorem counts_logLine (file : Nat) (line : String) : Counts n (logLine file line) := by
  unfold logLine
  refine Counts.mono (Nat.le_of_eq (Nat.zero_add n)) (counts_world.bind fun _ => ?_)
  exact Counts.ite (counts_of_same fun _ => rfl) counts_complain

theorem counts_deliver (r : Log.Record) (message : String) (sink : Log.Sink) :
    Counts 2 (deliver r message sink) := by
  cases sink with
  | silent => exact counts_pure _
  | terminal => exact counts_of_same fun _ => rfl
  | plainFile file => exact counts_logLine file _
  | jsonFile file =>
    rw [deliver]
    cases r.jsonLine with
    | ok line => exact counts_logLine file _
    | error _ => exact counts_complain
  | counters => exact counts_countRecord r

/-- A record that is logged counts two for each handler at most. -/
theorem few_log (logger : String) (level : Log.Level) (message : String) (h : w.Few k) :
    ((log logger level message).after w).Few (k + 2 * w.logging.handlers.length) := by
  have hhandlers : ∀ (r : Log.Record) (handlers : List Log.Handler) (message : String),
      Counts (2 * handlers.length) (handlers.forM fun h => do
        if h.level ≤ r.level then deliver r message h.sink) := fun r handlers message =>
    counts_forM handlers fun h => (counts_deliver r message h.sink).ite (counts_pure _)
  unfold log logWith emit
  rw [after_bind_ok (a := w) rfl, after_bind_ok (a := ()) rfl, after_bind_ok rfl]
  refine Counts.ite ?_ (counts_pure _) k _ h
  refine Counts.mono (Nat.le_of_eq (Nat.zero_add _)) (Counts.bind ?_ fun message => ?_)
  · exact counts_of_same fun _ => rfl
  · refine Counts.ite (Counts.ite ?_ (counts_pure _)) (hhandlers _ _ message)
    exact counts_of_same fun _ => rfl

/-! ## What is put in place -/

/-- Nothing is counted, and `n` handlers are put in place at most. -/
def Outfits (n : Nat) (work : Sweep α) : Prop :=
  ∀ w, (work.after w).metrics = w.metrics ∧
    (work.after w).logging.handlers.length ≤ w.logging.handlers.length + n

theorem Outfits.bind {work : Sweep α} {next : α → Sweep β} (hw : Outfits n work)
    (hn : ∀ a, Outfits n' (next a)) : Outfits (n' + n) (work >>= next) := by
  intro w
  obtain ⟨hm, hh⟩ := hw w
  cases ho : work.outcome w with
  | error f =>
    rw [after_bind_error ho]
    exact ⟨hm, by omega⟩
  | ok a =>
    obtain ⟨hm', hh'⟩ := hn a (work.after w)
    rw [after_bind_ok ho]
    exact ⟨hm'.trans hm, by omega⟩

theorem Outfits.ite {p : Prop} [Decidable p] {x y : Sweep α} (hx : Outfits n x)
    (hy : Outfits n y) : Outfits n (if p then x else y) := by
  split
  · exact hx
  · exact hy

theorem Outfits.mono {work : Sweep α} (hn : n ≤ n') (hw : Outfits n work) : Outfits n' work :=
  fun w => ⟨(hw w).1, Nat.le_trans (hw w).2 (Nat.add_le_add_left hn _)⟩

theorem outfits_of_same {work : Sweep α} (h : ∀ w, (work.after w).metrics = w.metrics ∧
    (work.after w).logging.handlers = w.logging.handlers) : Outfits 0 work := by
  intro w
  rw [(h w).2]
  exact ⟨(h w).1, Nat.le_refl _⟩

theorem Looks.outfits {work : Sweep α} (h : Looks work) : Outfits 0 work :=
  outfits_of_same fun w => by rw [h w]; exact ⟨rfl, rfl⟩

theorem outfits_ofExcept (e : Except Fault α) : Outfits 0 (ofExcept e) := by
  cases e with
  | ok a => exact (looks_pure a).outfits
  | error f => exact (looks_fail f).outfits

theorem outfits_holdFile (path : String) : Outfits 0 (holdFile path) :=
  (looks_checkPath path).outfits.bind fun _ => looks_world.outfits.bind fun _ =>
    (looks_refused path _).outfits.bind fun (_, _) =>
      Outfits.bind (outfits_of_same fun _ => ⟨rfl, rfl⟩) fun _ => (looks_pure _).outfits

theorem outfits_makeDirs (p : Path) : Outfits 0 (makeDirs p) := by
  refine (looks_checkPath _).outfits.bind fun _ => looks_world.outfits.bind fun w => ?_
  split
  · exact outfits_of_same fun _ => ⟨rfl, rfl⟩
  · exact Outfits.bind (outfits_of_same fun _ => ⟨rfl, rfl⟩) fun _ => (looks_fail _).outfits

end Sweep

open Sweep

namespace Logger

theorem outfits_addHandler (h : Log.Handler) : Outfits 1 (addHandler h) :=
  fun _ => ⟨rfl, Nat.le_of_eq List.length_append⟩

theorem outfits_openFile (dir : Path) (name : String) : Outfits 0 (openFile dir name) :=
  (looks_absolute _).outfits.bind fun _ => outfits_holdFile _

theorem outfits_prepare (level : Log.Level) : Outfits 4 (prepare level) := by
  have last : Outfits 1 (do if ← isOn "METRICS_ENABLED" "1" then addHandler ⟨0, .counters⟩) :=
    (looks_isOn _ _).outfits.bind fun _ =>
      (outfits_addHandler _).ite ((looks_pure _).outfits.mono (by omega))
  unfold prepare
  refine looks_world.outfits.bind fun _ => Outfits.ite ((looks_pure _).outfits.mono (by omega)) ?_
  refine Outfits.bind (outfits_of_same fun _ => ⟨rfl, rfl⟩) fun _ =>
    (outfits_ofExcept _).bind fun _ => ?_
  refine Outfits.bind (outfits_of_same fun _ => ⟨rfl, rfl⟩) fun _ =>
    (outfits_addHandler _).bind fun _ => ?_
  refine (looks_isOn _ _).outfits.bind fun _ => Outfits.ite ?_ (last.mono (by omega))
  refine Outfits.bind (outfits_of_same fun _ => ⟨rfl, rfl⟩) fun _ =>
    (outfits_makeDirs _).bind fun _ => ?_
  refine looks_world.outfits.bind fun _ => (outfits_ofExcept _).bind fun _ => ?_
  refine (outfits_openFile _ _).bind fun _ => (outfits_addHandler _).bind fun _ => ?_
  refine (looks_isOn _ _).outfits.bind fun _ => Outfits.ite ?_ (last.mono (by omega))
  exact (outfits_openFile _ _).bind fun _ => (outfits_addHandler _).bind fun _ => last

theorem handlers_register (s : Log.Setup) (name : String) :
    (s.register name).handlers = s.handlers := by
  unfold Log.Setup.register
  split <;> rfl

theorem handlers_setLevel (s : Log.Setup) (name : String) (level : Log.Level) :
    (s.setLevel name level).handlers = s.handlers := by
  unfold Log.Setup.setLevel
  split
  · rfl
  · exact handlers_register s name

/-- A logger is opened with handlers for the terminal, two log files and the counters at most. -/
theorem outfits_create (name : String) (level : Option String) : Outfits 4 (create name level) := by
  have register : Outfits 0 (modify fun w : World =>
      { w with logging := w.logging.register name } : Sweep Unit) :=
    outfits_of_same fun w => ⟨rfl, handlers_register w.logging name⟩
  have setLevel : ∀ level, Outfits 0 (modify fun w : World =>
      { w with logging := w.logging.setLevel name level } : Sweep Unit) := fun level =>
    outfits_of_same fun w => ⟨rfl, handlers_setLevel w.logging name level⟩
  unfold create
  cases level
  case' some word => refine (looks_pure word).outfits.bind ?_
  case' none =>
    refine Outfits.bind (outfits_of_same fun _ => ⟨rfl, rfl⟩) fun _ =>
      (looks_pure _).outfits.bind ?_
  all_goals
    intro word
    refine register.bind fun _ => (outfits_ofExcept _).bind fun _ => (setLevel _).bind fun _ => ?_
    refine looks_world.outfits.bind fun _ => Outfits.ite ?_ ((looks_pure _).outfits.mono (by omega))
    refine (outfits_prepare _).bind fun _ => ?_
    exact Outfits.bind (outfits_of_same fun _ => ⟨rfl, rfl⟩) fun _ => (looks_pure _).outfits

end Logger

end ConsoleSweep
