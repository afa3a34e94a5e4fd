/-
  The counters of a run, and their snapshots as JSON.

  Amounts and the length of the window may be given as any JSON value. A value that
  is no number, or a number too large to be added to the others, is refused; the
  part of a record that was made by then stays.
-/
import ConsoleSweep.Json.Number
import ConsoleSweep.Meter
import ConsoleSweep.Time

namespace ConsoleSweep

/-- The counters of a run. `span` is the length of the window as it was given. -/
structure Metrics where
  span : Json
  meter : Meter Number Number

namespace Metrics

/-- The window that is used if none is given, in seconds. -/
def defaultSpan : Json := .int 60

/-- Counters without records. -/
def new (span : Json) (now : Number) : Metrics :=
  ⟨span, Meter.new ((Number.ofJson? span).getD 0) now⟩

/-- Why an amount cannot be added to a sum, if it cannot. -/
def refusal? (sum : Number) (amount : Json) : Option Fault :=
  match Number.ofJson? amount with
  | none => some .badType
  | some n => if sum.isSummable n then none else some .tooLarge

/-- The moment from which on records lie in the window. -/
def cutoff (m : Metrics) (now : Number) : Except Fault Number := do
  now.minus (← Number.ofJson m.span)

/-- The counters with a name that has no amount yet. -/
def nameTotal (m : Metrics) (name : String) : Metrics :=
  { m with meter := { m.meter with totals := Meter.adjust name 0 id m.meter.totals } }

/-- The counters with an amount added to the sum of a name. -/
def addTotal (m : Metrics) (name : String) (amount : Number) : Metrics :=
  { m with meter := { m.meter with totals := Meter.adjust name 0 (· + amount) m.meter.totals } }

/-- The counters with a name that has no failure yet. -/
def nameError (m : Metrics) (name : String) : Metrics :=
  { m with meter := { m.meter with errors := Meter.adjust name 0 id m.meter.errors } }

/-- Records an amount under a name. If it is refused, the answer has the reason. -/
def record (m : Metrics) (now : Number) (name : String) (success : Bool) (amount : Json) :
    Metrics × Option Fault :=
  let n := (Number.ofJson? amount).getD 0
  match refusal? (m.meter.total name) amount with
  | some f => (m.nameTotal name, some f)
  | none =>
    match if success then none else refusal? (m.meter.errorTotal name) amount with
    | some f => ((m.addTotal name n).nameError name, some f)
    | none =>
      match m.cutoff now with
      | .ok _ => ({ m with meter := m.meter.record now name success n }, none)
      | .error f =>
        let kept := Meter.adjust name [] (· ++ [now]) m.meter.times
        ({ m with meter := { m.meter.record now name success n with times := kept } }, some f)

/-- Records a failure. -/
def recordError (m : Metrics) (now : Number) (name : String) : Metrics × Option Fault :=
  m.record now name false (.int 1)

/-- Records a file that was scanned, and its calls if it has any. -/
def recordScanned (m : Metrics) (now : Number) (calls : Json) : Metrics × Option Fault :=
  match m.record now "scan.files" true (.int 1) with
  | (m, some f) => (m, some f)
  | (m, none) => if calls.isTruthy then m.record now "scan.calls" true calls else (m, none)

/-- Records a file that was cleaned, or could not be. -/
def recordCleaned (m : Metrics) (now : Number) (success : Bool) : Metrics × Option Fault :=
  m.record now "clean.files" success (.int 1)

/-- The sum of the amounts of a name. -/
def total (m : Metrics) (name : String) : Number :=
  m.meter.total name

/-- Records per minute, to three decimal places. -/
def rate (m : Metrics) (count : Nat) : Float :=
  let window := m.meter.window
  if window.le 0 then 0.0
  else Decimal.roundPlaces 3 (Decimal.toFloat count 0 / window.toFloat * 60.0)

/-- The sums as JSON. -/
def sums (entries : List (String × Number)) : Json :=
  .obj (entries.map fun (k, v) => (k, v.toJson))

/-- The counters after a look at the window. -/
def refresh (m : Metrics) (now : Number) : Except Fault Metrics := do
  if m.meter.times.isEmpty then return m
  let _ ← m.cutoff now
  return { m with meter := m.meter.refresh now }

/-- The state of the counters as JSON. -/
def shown (m : Metrics) (now : Number) : Except Fault Json := do
  let stamp ← Time.utc now
  let uptime ← Number.toInt (← now.minus m.meter.start).toJson
  return .obj
    [("timestamp_utc", .str stamp),
     ("uptime_seconds", .int uptime),
     ("window_seconds", m.span),
     ("totals", sums m.meter.totals),
     ("errors", sums m.meter.errors),
     ("rates_per_min", .obj (m.meter.recent.map fun (k, n) => (k, .real (m.rate n))))]

/-- The state of the counters as JSON, and the counters after the look at them. -/
def snapshot (m : Metrics) (now : Number) : Metrics × Except Fault Json :=
  match m.refresh now with
  | .error f => (m, .error f)
  | .ok m => (m, m.shown now)

end Metrics

end ConsoleSweep
