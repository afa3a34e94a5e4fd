/-
  What is counted under a name.

  A record adds to the sum of its own name (`Plain.total_record`) and leaves the others alone
  (`total_record_of_ne`). `Spares` says this of a piece of work and some names. The log
  counts under names of its own, so other sums pass through it as they are (`spares_log`).
-/
import ConsoleSweep.Proofs.Calm

namespace ConsoleSweep

theorem Meter.lookup_adjust {β : Type} (name other : String) (first : β) (change : β → β)
    (sums : List (String × β)) : (adjust name first change sums).lookup other =
      if other = name then some (change ((sums.lookup name).getD first))
      else sums.lookup other := by
  have hfalse : ∀ {a b : String}, ¬ a = b → (a == b) = false := beq_eq_false_iff_ne.2
  induction sums with
  | nil =>
    by_cases hname : other = name
    · simp [adjust, hname]
    · simp [adjust, hname, List.lookup_cons, hfalse hname]
  | cons entry sums ih =>
    obtain ⟨key, v⟩ := entry
    unfold adjust
    split
    · next hkey =>
      subst hkey
      by_cases hname : other = key
      · simp [hname]
      · simp [hname, List.lookup_cons, hfalse hname]
    · next hkey =>
      rw [List.lookup_cons, List.lookup_cons, List.lookup_cons, ih]
      by_cases hname : other = name
      · simp [hname, hfalse (Ne.symm hkey)]
      · simp [hname]

/-! ## Sums of the counters -/

namespace Metrics

variable {m : Metrics} {name other : String}

/-- A record leaves the sums of other names alone, refused or not. -/
theorem total_record_of_ne (h : other ≠ name) (m : Metrics) (now : Number) (success : Bool)
    (amount : Json) : (m.record now name success amount).1.total other = m.total other := by
  have hsame : ∀ change : Number → Number,
      ((Meter.adjust name 0 change m.meter.totals).lookup other).getD 0 = m.total other := by
    intro change
    rw [Meter.lookup_adjust, if_neg h]
    rfl
  unfold record
  dsimp only
  split
  · exact hsame id
  · split
    · exact hsame _
    · split
      · exact hsame _
      · exact hsame _

/-- The sums of the counters are whole numbers. -/
theorem Plain.exists_total (h : m.Plain) (name : String) : ∃ n : Int, m.total name = .int n :=
  h.totals.lookup name

theorem Plain.total_add_zero (h : m.Plain) (name : String) :
    m.total name + .int 0 = m.total name := by
  obtain ⟨n, hn⟩ := h.exists_total name
  rw [hn]
  exact congrArg Number.int (Int.add_zero n)

/-- A record adds its amount to the sum of its name, and nothing to the others. -/
theorem Plain.total_record (h : m.Plain) (now : Number) (name other : String) (success : Bool)
    (k : Int) : (m.record now name success (.int k)).1.total other =
      m.total other + .int (if other = name then k else 0) := by
  by_cases hname : other = name
  · subst hname
    obtain ⟨n, ht⟩ := h.totals.lookup other
    obtain ⟨e, he⟩ := h.errors.lookup other
    have total : refusal? (m.meter.total other) (.int k) = none := refusal?_int ht k
    have failures : refusal? (m.meter.errorTotal other) (.int k) = none := refusal?_int he k
    have hsum : ((Meter.adjust other 0 (· + .int k) m.meter.totals).lookup other).getD 0 =
        m.total other + .int k := by
      rw [Meter.lookup_adjust, if_pos rfl]
      rfl
    rw [if_pos rfl]
    unfold Metrics.record
    simp only [total, failures, ite_self]
    split
    · exact hsum
    · exact hsum
  · rw [total_record_of_ne hname, if_neg hname, h.total_add_zero]

/-- What a file that was scanned adds to the sum of a name. -/
def scannedShare (calls : Nat) (name : String) : Int :=
  if name = "scan.files" then 1 else if name = "scan.calls" then calls else 0

theorem Plain.total_recordScanned (h : m.Plain) (now : Number) (calls : Nat) (name : String) :
    (m.recordScanned now (.int calls)).1.total name =
      m.total name + .int (scannedShare calls name) := by
  obtain ⟨hn, hp⟩ := h.record now "scan.files" true 1
  have hfiles := fun name => h.total_record now "scan.files" name true 1
  unfold Metrics.recordScanned
  generalize m.record now "scan.files" true (.int 1) = r at hn hp hfiles
  obtain ⟨m', refusal⟩ := r
  obtain rfl : refusal = none := hn
  obtain ⟨n, htotal⟩ := h.exists_total name
  dsimp only at hp hfiles ⊢
  by_cases hzero : calls = 0
  · have hfalse : ¬ (Json.int (calls : Int)).isTruthy = true := by simp [Json.isTruthy, hzero]
    rw [if_neg hfalse]
    dsimp only
    rw [hfiles]
    simp [scannedShare, hzero]
  · have htrue : (Json.int (calls : Int)).isTruthy = true := by simp [Json.isTruthy, hzero]
    have hsum : ∀ a b : Int, Number.int n + .int a + .int b = .int n + .int (a + b) :=
      fun a b => congrArg Number.int (by omega)
    rw [if_pos htrue, hp.total_record, hfiles, htotal, hsum]
    unfold scannedShare
    by_cases hname : name = "scan.files"
    · simp [hname]
    · simp [hname]

end Metrics

/-- The sum of the amounts of a name; there is none as long as the counters are not in use. -/
def World.total (w : World) (name : String) : Number :=
  (w.metrics.map (·.total name)).getD 0

theorem World.Sound.exists_total {w : World} (h : w.Sound) (name : String) :
    ∃ n : Int, w.total name = .int n := by
  unfold World.total
  cases hm : w.metrics with
  | none => exact ⟨0, rfl⟩
  | some m => exact (h m hm).exists_total name

/-! ## Work that leaves sums alone -/

namespace Sweep

variable {α β : Type} {names : List String} {name : String} {w : World}

/-- The work leaves the sums of some names alone, whether it is done or given up. -/
def Spares (names : List String) (work : Sweep α) : Prop :=
  ∀ w, ∀ name ∈ names, (work.after w).total name = w.total name

theorem Spares.total_eq {work : Sweep α} {r : Except Fault α} {w' : World}
    (h : Spares names work) (hr : work.run.run w = (r, w')) (hname : name ∈ names) :
    w'.total name = w.total name := by
  have hafter : work.after w = w' := congrArg Prod.snd hr
  rw [← hafter, h w name hname]

theorem spares_pure (a : α) : Spares names (pure a) :=
  fun _ _ _ => rfl

theorem spares_world : Spares names world :=
  fun _ _ _ => rfl

theorem Spares.bind {work : Sweep α} {next : α → Sweep β} (hw : Spares names work)
    (hn : ∀ a, Spares names (next a)) : Spares names (work >>= next) := by
  intro w name hname
  cases h : work.outcome w with
  | error f => rw [after_bind_error h, hw w name hname]
  | ok a => rw [after_bind_ok h, hn a _ name hname, hw w name hname]

theorem Spares.ite {p : Prop} [Decidable p] {x y : Sweep α} (hx : Spares names x)
    (hy : Spares names y) : Spares names (if p then x else y) := by
  split
  · exact hx
  · exact hy

theorem spares_forM (xs : List α) {f : α → Sweep PUnit} (h : ∀ x, Spares names (f x)) :
    Spares names (xs.forM f) := by
  induction xs with
  | nil => exact spares_pure _
  | cons x xs ih => exact (h x).bind fun _ => ih

theorem spares_modify {f : World → World} (hf : ∀ w, (f w).metrics = w.metrics) :
    Spares names (modify f : Sweep Unit) := by
  intro w name _
  have hafter : (modify f : Sweep Unit).after w = f w := rfl
  rw [hafter, World.total, hf]
  rfl

/-- The counters have the same sums when they come into use. -/
theorem total_metrics (w : World) : ∃ m w', metrics.run.run w = (.ok m, w') ∧ w'.now = w.now ∧
    w'.disk = w.disk ∧ w'.metrics = some m ∧ ∀ name, m.total name = w.total name := by
  unfold metrics World.total
  cases hm : w.metrics with
  | some m =>
    refine ⟨m, w, ?_, rfl, rfl, hm, fun name => rfl⟩
    rw [run_bind_eq (run_world w), hm]
    rfl
  | none =>
    refine ⟨_, { w with metrics := some (.new Metrics.defaultSpan w.now) }, ?_, rfl, rfl, rfl,
      fun name => rfl⟩
    rw [run_bind_eq (run_world w), hm]
    rfl

theorem disk_of_metrics {m : Metrics} {w' : World} (h : metrics.run.run w = (.ok m, w')) :
    w'.disk = w.disk := by
  obtain ⟨_, w'', hr, -, hdisk, -⟩ := total_metrics w
  rw [h] at hr
  obtain rfl : w' = w'' := congrArg Prod.snd hr
  exact hdisk

theorem spares_metrics : Spares names metrics := by
  intro w name _
  obtain ⟨m, w', hr, -, -, hm, ht⟩ := total_metrics w
  have hafter : metrics.after w = w' := congrArg Prod.snd hr
  rw [hafter, World.total, hm]
  exact ht name

/-- The sums after a change of the counters are those of the counters that were changed. -/
theorem total_count (change : Metrics → Number → Metrics × Option Fault) (w : World) :
    ∃ m, (∀ name, m.total name = w.total name) ∧ (w.Sound → m.Plain) ∧
      ∀ name, ((count change).after w).total name = (change m w.now).1.total name := by
  obtain ⟨m, w', hr, hnow, -, -, ht⟩ := total_metrics w
  refine ⟨m, ht, ?_, fun name => ?_⟩
  · intro hw
    obtain ⟨m', w'', hr', hp, -⟩ := run_metrics hw
    rw [hr] at hr'
    obtain rfl : m = m' := Except.ok.inj (congrArg Prod.fst hr')
    exact hp
  · unfold count after
    rw [run_bind_eq hr, run_bind_eq (run_world w'), hnow]
    cases hc : change m w.now with
    | mk m'' refusal => cases refusal <;> rfl

/-- A record adds its amount to the sum of its name. -/
theorem total_of_record {success : Bool} {k : Int} {u : Unit} {w' : World} (hw : w.Sound)
    (h : (count fun m now => m.record now name success (.int k)).run.run w = (.ok u, w'))
    (other : String) : w'.total other = w.total other + .int (if other = name then k else 0) := by
  obtain ⟨m, ht, hp, hafter⟩ := total_count (fun m now => m.record now name success (.int k)) w
  have hw' : w' = (count fun m now => m.record now name success (.int k)).after w :=
    (congrArg Prod.snd h).symm
  rw [hw', hafter, (hp hw).total_record, ht]

/-- A file that was scanned adds its share to the sums. -/
theorem total_of_recordScanned {calls : Nat} {u : Unit} {w' : World} (hw : w.Sound)
    (h : (count fun m now => m.recordScanned now (.int calls)).run.run w = (.ok u, w'))
    (name : String) : w'.total name = w.total name + .int (Metrics.scannedShare calls name) := by
  obtain ⟨m, ht, hp, hafter⟩ := total_count (fun m now => m.recordScanned now (.int calls)) w
  have hw' : w' = (count fun m now => m.recordScanned now (.int calls)).after w :=
    (congrArg Prod.snd h).symm
  rw [hw', hafter, (hp hw).total_recordScanned, ht]

theorem spares_count {change : Metrics → Number → Metrics × Option Fault}
    (hc : ∀ m now, ∀ name ∈ names, (change m now).1.total name = m.total name) :
    Spares names (count change) := by
  intro w name hname
  obtain ⟨m, ht, -, hafter⟩ := total_count change w
  rw [hafter, hc m w.now name hname, ht]

theorem spares_record (hn : name ∉ names) (success : Bool) (amount : Json) :
    Spares names (count fun m now => m.record now name success amount) := by
  refine spares_count fun m now other hother => ?_
  have hne : other ≠ name := fun e => hn (e ▸ hother)
  exact Metrics.total_record_of_ne hne m now success amount

/-! ## The log -/

/-- The names are none that the log counts under. -/
def Unlogged (names : List String) : Prop :=
  ∀ name ∈ names, ¬ "log.".toList <+: name.toList

theorem Unlogged.not_mem (h : Unlogged names) (rest : String) : "log." ++ rest ∉ names := by
  intro hmem
  refine h _ hmem ?_
  rw [String.toList_append]
  exact List.prefix_append _ _

theorem spares_countRecord (h : Unlogged names) (r : Log.Record) :
    Spares names (countRecord r) := by
  unfold countRecord
  split
  · exact spares_pure _
  · split
    · exact fun _ _ _ => rfl
    · refine (spares_record (h.not_mem _) _ _).bind fun _ => Spares.ite ?_ (spares_pure _)
      exact spares_record (h.not_mem "error") false (.int 1)

theorem spares_complain : Spares names complain :=
  spares_modify fun _ => rfl

theorem spares_logLine (file : Nat) (line : String) : Spares names (logLine file line) := by
  unfold logLine
  exact spares_world.bind fun _ => Spares.ite (spares_modify fun _ => rfl) spares_complain

theorem spares_deliver (h : Unlogged names) (r : Log.Record) (message : String)
    (sink : Log.Sink) : Spares names (deliver r message sink) := by
  cases sink with
  | silent => exact spares_pure _
  | terminal => exact spares_modify fun _ => rfl
  | plainFile file => exact spares_logLine file _
  | jsonFile file =>
    rw [deliver]
    cases r.jsonLine with
    | ok line => exact spares_logLine file _
    | error _ => exact spares_complain
  | counters => exact spares_countRecord h r

theorem spares_emit (h : Unlogged names) (r : Log.Record) : Spares names (emit r) := by
  unfold emit
  refine Spares.bind (spares_modify fun _ => rfl) fun _ => spares_world.bind fun w => ?_
  dsimp only
  refine Spares.ite ?_ (spares_pure _)
  have hmessage : Spares names (ofExcept r.message) := by
    cases r.message with
    | ok _ => exact spares_pure _
    | error _ => exact fun _ _ _ => rfl
  refine hmessage.bind fun message => Spares.ite ?_ ?_
  · exact Spares.ite (spares_modify fun _ => rfl) (spares_pure _)
  · exact spares_forM _ fun handler =>
      Spares.ite (spares_deliver h r message handler.sink) (spares_pure _)

/-- The log leaves the sums of names that are not its own alone. -/
theorem spares_log (h : Unlogged names) (logger : String) (level : Log.Level) (message : String) :
    Spares names (log logger level message) :=
  spares_world.bind fun _ => spares_emit h _

end Sweep

end ConsoleSweep
