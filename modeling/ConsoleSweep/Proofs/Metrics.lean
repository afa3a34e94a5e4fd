/-
  What a snapshot of the counters shows.

  A snapshot shows what plain counting gives (`snapshot_eq_counted`): the sum of all amounts
  under each name, the sum of those of failures, and a rate from the number of the records in
  the window, however the records and snapshots before it were mixed. Records are never
  refused on the way.

  The readings of the clock are taken as exact numbers (`ExactClock`): the start of the window
  can be told, and to be before it is what it is for exact numbers. Whole numbers are always so
  (`exactClock_of_whole`).
-/
import ConsoleSweep.Proofs.Calm
import ConsoleSweep.Proofs.Meter

namespace ConsoleSweep

/-- The exact value of a finite number; there is none of the others, which count as zero. -/
def Decimal.Binary.exact : Binary → ℚ
  | .finite negative m e => (if negative then -1 else 1) * m * 2 ^ e
  | _ => 0

/-- The exact value of a number. -/
def Number.exact : Number → ℚ
  | .int n => n
  | .real x => (Decimal.Binary.ofFloat x).exact

namespace Meter

variable {τ α β : Type} {f : α → β}

/-- The event with another amount. -/
def Event.mapAmount (f : α → β) : Event τ α → Event τ β
  | .record now name success amount => .record now name success (f amount)
  | .look now => .look now

theorem map_now (events : List (Event τ α)) :
    (events.map (Event.mapAmount f)).map Event.now = events.map Event.now := by
  rw [List.map_map]
  refine List.map_congr_left fun e _ => ?_
  cases e <;> rfl

theorem namesOf_map (events : List (Event τ α)) :
    namesOf (events.map (Event.mapAmount f)) = namesOf events := by
  unfold namesOf
  rw [List.filterMap_map]
  congr 2
  funext e
  cases e <;> rfl

theorem failedNamesOf_map (events : List (Event τ α)) :
    failedNamesOf (events.map (Event.mapAmount f)) = failedNamesOf events := by
  unfold failedNamesOf
  rw [List.filterMap_map]
  congr 2
  funext e
  cases e with
  | record now name success amount => cases success <;> rfl
  | look now => rfl

theorem momentsOf_map (name : String) (events : List (Event τ α)) :
    momentsOf name (events.map (Event.mapAmount f)) = momentsOf name events := by
  have hname : ∀ e : Event τ α, (e.mapAmount f).name? = e.name? := fun e => by cases e <;> rfl
  unfold momentsOf
  rw [List.filter_map, map_now]
  simp [Function.comp_def, hname]

theorem amountsOf_map (name : String) (events : List (Event τ α)) :
    amountsOf name (events.map (Event.mapAmount f)) = (amountsOf name events).map f := by
  unfold amountsOf
  rw [List.filterMap_map, List.map_filterMap]
  congr 1
  funext e
  cases e with
  | record now n success amount =>
    by_cases h : n = name <;> simp [Event.mapAmount, Event.amountOf?, h]
  | look now => rfl

theorem failuresOf_map (name : String) (events : List (Event τ α)) :
    failuresOf name (events.map (Event.mapAmount f)) = (failuresOf name events).map f := by
  unfold failuresOf
  rw [List.filterMap_map, List.map_filterMap]
  congr 1
  funext e
  cases e with
  | record now n success amount =>
    cases success
    · by_cases h : n = name <;> simp [Event.mapAmount, Event.failureOf?, h]
    · rfl
  | look now => rfl

theorem sumOf_int (amounts : List Int) :
    sumOf (amounts.map Number.int) = Number.int amounts.sum := by
  have hfrom : ∀ n : Int, (amounts.map Number.int).foldl (· + ·) (.int n) =
      Number.int (n + amounts.sum) := by
    induction amounts with
    | nil => simp
    | cons k amounts ih =>
      intro n
      rw [List.map_cons, List.foldl_cons, List.sum_cons, ← Int.add_assoc]
      exact ih (n + k)
  exact (hfrom 0).trans (by rw [Int.zero_add])

end Meter

namespace Metrics

open Meter (Event keyed namesOf failedNamesOf momentsOf amountsOf failuresOf)

/-- The start of the window can be told, and to be before it is what it is for exact numbers. -/
structure ExactClock (window : Number) (readings : List Number) : Prop where
  defined : ∀ now ∈ readings, ∃ cut, now.minus window = .ok cut
  exact : Meter.Exact Number.exact window readings

/-- The moments in the window. -/
def inWindow (window now : Number) (times : List Number) : List Number :=
  times.filter fun t => now.exact - window.exact ≤ t.exact

/-- The state of the counters by plain counting. A rate is the number of records in the window by
the length of the window, for a minute and to three decimal places. -/
def counted (span : Json) (window start : Number) (calls : List (Event Number Int))
    (now : Number) : Except Fault Json := do
  let stamp ← Time.utc now
  let uptime ← Number.toInt (← now.minus start).toJson
  let perMinute (records : Nat) : Float :=
    if window.le 0 then 0.0
    else Decimal.roundPlaces 3 (Decimal.toFloat records 0 / window.toFloat * 60.0)
  return .obj
    [("timestamp_utc", .str stamp),
     ("uptime_seconds", .int uptime),
     ("window_seconds", span),
     ("totals", .obj (keyed (namesOf calls) fun name => .int (amountsOf name calls).sum)),
     ("errors", .obj (keyed (failedNamesOf calls) fun name => .int (failuresOf name calls).sum)),
     ("rates_per_min", .obj (keyed (namesOf calls) fun name =>
       .real (perMinute (inWindow window now (momentsOf name calls)).length)))]

/-- The counters after a record, which may be refused, or after a snapshot. -/
def perform (m : Metrics) : Event Number Int → Except Fault Metrics
  | .record now name success amount =>
    match m.record now name success (.int amount) with
    | (m, none) => .ok m
    | (_, some f) => .error f
  | .look now => .ok (m.snapshot now).1

/-- The counters after some records and snapshots. -/
def replay (m : Metrics) (calls : List (Event Number Int)) : Except Fault Metrics :=
  calls.foldlM perform m

/-! ## The counters after some calls -/

variable {span : Json} {window start now : Number} {calls : List (Event Number Int)}
  {readings more : List Number}

theorem ExactClock.subset (h : ExactClock window readings) (hsub : more ⊆ readings) :
    ExactClock window more :=
  ⟨fun now hnow => h.defined now (hsub hnow), h.exact.subset hsub⟩

/-- Whole numbers are exact. -/
theorem exactClock_of_whole (hw : ∃ k, window = .int k) (h : ∀ t ∈ readings, ∃ n, t = .int n) :
    ExactClock window readings := by
  obtain ⟨k, rfl⟩ := hw
  refine ⟨fun now hnow => ?_, fun t ht now hnow => ?_⟩
  · obtain ⟨n, rfl⟩ := h now hnow
    exact ⟨_, rfl⟩
  · obtain ⟨a, rfl⟩ := h t ht
    obtain ⟨b, rfl⟩ := h now hnow
    have hlt : (Number.int a < Number.int b - Number.int k) ↔ a < b - k := by
      have hbool : Number.lt (.int a) (.int (b - k)) = true ↔ a < b - k := by
        simp [Number.lt, Number.compare?, compare_lt_iff_lt]
      exact hbool
    rw [hlt]
    simp only [Number.exact]
    exact_mod_cast Iff.rfl

theorem inWindow_map_int (window now : Int) (times : List Int) :
    inWindow (.int window) (.int now) (times.map .int) =
      (times.filter fun t => now - window ≤ t).map .int := by
  unfold inWindow
  rw [List.filter_map]
  congr 2
  funext t
  refine decide_eq_decide.2 ?_
  simp only [Number.exact]
  exact_mod_cast Iff.rfl

/-- The counters after some calls: their meter has counted them all. -/
def after (span : Json) (window start : Number) (calls : List (Event Number Int)) : Metrics :=
  ⟨span, (Meter.new window start).run (calls.map (Event.mapAmount .int))⟩

theorem whole_keyed (names : List String) (sum : String → Int) :
    Whole (keyed names fun name => .int (sum name)) := by
  intro e he
  obtain ⟨name, -, rfl⟩ := List.mem_map.1 he
  exact ⟨sum name, rfl⟩

/-- What the meter has counted. -/
structure Counted (window : Number) (calls : List (Event Number Int)) (m : Metrics) : Prop where
  trace : Meter.Trace Number.exact window (calls.map (Event.mapAmount .int)) m.meter
  totals : m.meter.totals = keyed (namesOf calls) fun name => .int (amountsOf name calls).sum
  errors : m.meter.errors =
    keyed (failedNamesOf calls) fun name => .int (failuresOf name calls).sum

theorem counted_after (hexact : ExactClock window (calls.map Event.now)) :
    Counted window calls (after span window start calls) := by
  have htrace : Meter.Trace Number.exact window (calls.map (Event.mapAmount .int))
      (after span window start calls).meter :=
    Meter.trace_run start (by rw [Meter.map_now]; exact hexact.exact)
  refine ⟨htrace, ?_, ?_⟩
  · simpa only [Meter.namesOf_map, Meter.amountsOf_map, Meter.sumOf_int] using htrace.totals
  · simpa only [Meter.failedNamesOf_map, Meter.failuresOf_map, Meter.sumOf_int] using htrace.errors

theorem exists_cutoff (hspan : Number.ofJson? span = some window) {m : Metrics}
    (hm : m.span = span) (h : ∃ cut, now.minus window = .ok cut) :
    ∃ cut, m.cutoff now = .ok cut := by
  obtain ⟨cut, hcut⟩ := h
  refine ⟨cut, ?_⟩
  unfold cutoff Number.ofJson
  rw [hm, hspan]
  exact hcut

/-- A snapshot looks at the window first. -/
theorem snapshot_eq {m : Metrics} (hc : ∃ cut, m.cutoff now = .ok cut) : m.snapshot now =
    ({ m with meter := m.meter.refresh now },
      ({ m with meter := m.meter.refresh now } : Metrics).shown now) := by
  obtain ⟨cut, hc⟩ := hc
  have hrefresh : m.refresh now = .ok { m with meter := m.meter.refresh now } := by
    unfold refresh
    cases ht : m.meter.times with
    | nil =>
      have hsame : m.meter.refresh now = m.meter := by
        unfold Meter.refresh
        rw [ht, List.map_nil, ← ht]
      rw [hsame]
      rfl
    | cons e times =>
      rw [hc]
      rfl
  unfold snapshot
  rw [hrefresh]

/-- No call is refused where the sums are whole and the window has a start. -/
theorem perform_eq {m : Metrics} {call : Event Number Int} (ht : Whole m.meter.totals)
    (he : Whole m.meter.errors) (hc : ∃ cut, m.cutoff call.now = .ok cut) :
    m.perform call = .ok { m with meter := m.meter.step (call.mapAmount .int) } := by
  cases call with
  | record now name success amount =>
    obtain ⟨cut, hc⟩ := hc
    have hrecord := record_eq_of_whole ht he hc name success amount
    unfold perform
    dsimp only [Event.now] at hrecord ⊢
    rw [hrecord]
    rfl
  | look now =>
    have hlook : m.snapshot now = _ := snapshot_eq hc
    unfold perform
    dsimp only
    rw [hlook]
    rfl

theorem replay_eq (hspan : Number.ofJson? span = some window)
    (hexact : ExactClock window (calls.map Event.now)) :
    replay (new span start) calls = .ok (after span window start calls) := by
  induction calls using List.reverseRecOn with
  | nil =>
    unfold new
    rw [hspan]
    rfl
  | append_singleton calls call ih =>
    have hbefore := hexact.subset
      (List.map_subset Event.now (List.subset_append_left calls [call]))
    have hcounted : Counted window calls (after span window start calls) := counted_after hbefore
    have hcut : ∃ cut, (after span window start calls).cutoff call.now = .ok cut :=
      exists_cutoff hspan rfl (hexact.defined call.now (by simp))
    have hafter : after span window start (calls ++ [call]) =
        { after span window start calls with
          meter := (after span window start calls).meter.step (call.mapAmount .int) } := by
      unfold after Meter.run
      simp only [List.map_append, List.map_cons, List.map_nil, List.foldl_append, List.foldl_cons,
        List.foldl_nil]
    unfold replay at ih ⊢
    rw [List.foldlM_append, ih hbefore, hafter, ← perform_eq (hcounted.totals ▸ whole_keyed _ _)
      (hcounted.errors ▸ whole_keyed _ _) hcut]
    exact bind_pure ((after span window start calls).perform call)

/-- The sums of the counters, as a snapshot shows them. -/
theorem sums_keyed (names : List String) (sum : String → Int) :
    sums (keyed names fun name => .int (sum name)) =
      .obj (keyed names fun name => .int (sum name)) := by
  unfold sums keyed
  rw [List.map_map]
  rfl

/-- Counters that hold what plain counting gives show it. -/
theorem shown_eq_counted {m : Metrics} (hwindow : m.meter.window = window)
    (htotals : m.meter.totals = keyed (namesOf calls) fun name => .int (amountsOf name calls).sum)
    (herrors : m.meter.errors =
      keyed (failedNamesOf calls) fun name => .int (failuresOf name calls).sum)
    (htimes : m.meter.times = keyed (namesOf calls) fun name =>
      inWindow window now (momentsOf name calls)) :
    m.shown now = counted m.span window m.meter.start calls now := by
  have hrecent : m.meter.recent =
      keyed (namesOf calls) fun name => (inWindow window now (momentsOf name calls)).length := by
    unfold Meter.recent
    rw [htimes, keyed, List.map_map]
    rfl
  unfold shown counted rate
  rw [htotals, herrors, hrecent, hwindow, sums_keyed, sums_keyed]
  simp only [keyed, List.map_map, Function.comp_def]

/-- A snapshot shows what plain counting gives, and leaves the moments in the window. -/
theorem snapshot_eq_counted (hspan : Number.ofJson? span = some window) (start : Number)
    (calls : List (Event Number Int)) (now : Number)
    (hexact : ExactClock window (calls.map Event.now ++ [now]))
    (hmono : (calls.map Event.now ++ [now]).Pairwise fun a b => a.exact ≤ b.exact) :
    ∃ m m', replay (new span start) calls = .ok m ∧
      m.snapshot now = (m', counted span window start calls now) ∧
      m'.meter.times = keyed (namesOf calls) fun name =>
        inWindow window now (momentsOf name calls) := by
  have hbefore := hexact.subset (List.subset_append_left (calls.map Event.now) [now])
  have hcounted : Counted window calls (after span window start calls) := counted_after hbefore
  have hcut : ∃ cut, (after span window start calls).cutoff now = .ok cut :=
    exists_cutoff hspan rfl (hexact.defined now (by simp))
  have htimes : ((after span window start calls).meter.refresh now).times =
      keyed (namesOf calls) fun name => inWindow window now (momentsOf name calls) := by
    have hexact' : Meter.Exact Number.exact window
        ((calls.map (Event.mapAmount Number.int)).map Event.now ++ [now]) := by
      rw [Meter.map_now]
      exact hexact.exact
    have htimes := hcounted.trace.times_refresh hexact' (by rw [Meter.map_now]; exact hmono)
    rw [Meter.namesOf_map] at htimes
    simpa only [Meter.momentsOf_map, inWindow] using htimes
  have hstart : ((after span window start calls).meter.refresh now).start = start :=
    Meter.start_run _ _
  refine ⟨_, _, replay_eq hspan hbefore, (snapshot_eq hcut).trans (Prod.ext rfl ?_), htimes⟩
  have hshown := shown_eq_counted (m := ⟨span, (after span window start calls).meter.refresh now⟩)
    hcounted.trace.window_eq hcounted.totals hcounted.errors htimes
  rw [hstart] at hshown
  exact hshown

/-- Records under two names, with a snapshot between them. -/
def someCalls : List (Event Number Int) :=
  [.record (.int 0) "b" false 2, .record (.int 10) "a" true 5, .look (.int 65),
    .record (.int 65) "b" true 1, .record (.int 90) "b" false 4]

/-- `snapshot_eq_counted` at these calls: 15 seconds after the last one, the record under `a` and
the first one under `b` have left the window of a minute, and all amounts are in the sums. Two
records under `b` are left for the rate. -/
theorem snapshot_of_someCalls : (∃ cut, Number.minus (.int 105) (.int 60) = .ok cut) ∧
    ∃ m m' v, replay (new defaultSpan (.int 0)) someCalls = .ok m ∧
      m.snapshot (.int 105) = (m', .ok v) ∧
      v.get? "totals" = some (.obj [("b", .int 7), ("a", .int 5)]) ∧
      v.get? "errors" = some (.obj [("b", .int 6)]) ∧
      v.get? "rates_per_min" = some (.obj [("b", .real 2.0), ("a", .real 0.0)]) ∧
      m'.meter.times = [("b", [.int 65, .int 90]), ("a", [])] := by
  have hspan : Number.ofJson? defaultSpan = some (.int 60) := rfl
  have hexact : ExactClock (.int 60) (someCalls.map Event.now ++ [.int 105]) := by
    refine exactClock_of_whole ⟨60, rfl⟩ fun t ht => ?_
    have ht : t = .int 0 ∨ t = .int 10 ∨ t = .int 65 ∨ t = .int 65 ∨ t = .int 90 ∨
        t = .int 105 := by
      simpa [someCalls, Event.now] using ht
    rcases ht with rfl | rfl | rfl | rfl | rfl | rfl <;> exact ⟨_, rfl⟩
  have hmono : (someCalls.map Event.now ++ [Number.int 105]).Pairwise
      fun a b => a.exact ≤ b.exact := by
    norm_num [someCalls, Event.now, Number.exact]
  obtain ⟨m, m', hreplay, hsnapshot, htimes⟩ :=
    snapshot_eq_counted hspan (.int 0) someCalls (.int 105) hexact hmono
  have hutc : Time.utc (.int 105) = .ok "1970-01-01T00:01:45Z" := by decide +kernel
  have hnames : namesOf someCalls = ["b", "a"] := rfl
  have hlater : inWindow (.int 60) (.int 105) (momentsOf "b" someCalls) = [.int 65, .int 90] :=
    inWindow_map_int 60 105 [0, 65, 90]
  have hnone : inWindow (.int 60) (.int 105) (momentsOf "a" someCalls) = [] :=
    inWindow_map_int 60 105 [10]
  have htwo : Decimal.roundPlaces 3
      (Decimal.toFloat 2 0 / (Number.int 60).toFloat * 60.0) = 2.0 := by decide +kernel
  have hzero : Decimal.roundPlaces 3
      (Decimal.toFloat 0 0 / (Number.int 60).toFloat * 60.0) = 0.0 := by decide +kernel
  obtain ⟨v, hv, htotals, herrors, hrates⟩ : ∃ v,
      counted defaultSpan (.int 60) (.int 0) someCalls (.int 105) = .ok v ∧
        v.get? "totals" = some (.obj [("b", .int 7), ("a", .int 5)]) ∧
        v.get? "errors" = some (.obj [("b", .int 6)]) ∧
        v.get? "rates_per_min" = some (.obj [("b", .real 2.0), ("a", .real 0.0)]) := by
    unfold counted
    rw [hutc, hnames]
    simp only [keyed, List.map_cons, List.map_nil, hlater, hnone, List.length_cons, List.length_nil,
      Nat.zero_add, htwo, hzero]
    exact ⟨_, rfl, rfl, rfl, rfl⟩
  refine ⟨hexact.defined _ (by simp), m, m', v, hreplay, hsnapshot.trans (by rw [hv]), htotals,
    herrors, hrates, htimes.trans ?_⟩
  rw [hnames, keyed, List.map_cons, List.map_cons, List.map_nil, hlater, hnone]

end Metrics

end ConsoleSweep
