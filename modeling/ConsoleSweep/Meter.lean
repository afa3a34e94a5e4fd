/-
  Counters with a rolling window.

  A meter keeps, for each name, the sum of all amounts, the sum of the amounts of
  failures, and the moments of the records that lie in the window. A moment is
  dropped when it is looked at and found too old, and not before. Moments and
  amounts may be of any type with the operations that are used; the program has
  JSON numbers for both.
-/
namespace ConsoleSweep

/-- The counters. Names are in the order of their first record. -/
structure Meter (τ α : Type) where
  window : τ
  start : τ
  totals : List (String × α)
  errors : List (String × α)
  times : List (String × List τ)

namespace Meter

variable {τ α : Type}

/-- A meter without records. -/
def new (window start : τ) : Meter τ α :=
  ⟨window, start, [], [], []⟩

/-- Changes the value of a name, which starts at `first` and takes the last place if it is new. -/
def adjust {β : Type} (name : String) (first : β) (change : β → β) :
    List (String × β) → List (String × β)
  | [] => [(name, change first)]
  | (k, v) :: rest =>
    if k = name then (k, change v) :: rest else (k, v) :: adjust name first change rest

/-- The moments that are not too old. -/
def prune [Sub τ] [LT τ] [DecidableLT τ] (window now : τ) (times : List τ) : List τ :=
  times.dropWhile fun t => t < now - window

/-- The sum of the amounts of failures of a name. -/
def errorTotal [Zero α] (m : Meter τ α) (name : String) : α :=
  (m.errors.lookup name).getD 0

/-- Records an amount under a name. -/
def record [Sub τ] [LT τ] [DecidableLT τ] [Add α] [Zero α] (m : Meter τ α) (now : τ) (name : String)
    (success : Bool) (amount : α) : Meter τ α :=
  { m with
    totals := adjust name 0 (· + amount) m.totals
    errors := if success then m.errors else adjust name 0 (· + amount) m.errors
    times := adjust name [] (fun ts => prune m.window now (ts ++ [now])) m.times }

/-- The sum of the amounts of a name. -/
def total [Zero α] (m : Meter τ α) (name : String) : α :=
  (m.totals.lookup name).getD 0

/-- Drops all moments that are too old. -/
def refresh [Sub τ] [LT τ] [DecidableLT τ] (m : Meter τ α) (now : τ) : Meter τ α :=
  { m with times := m.times.map fun (k, ts) => (k, prune m.window now ts) }

/-- How many records of each name lie in the window, as of the last look. -/
def recent (m : Meter τ α) : List (String × Nat) :=
  m.times.map fun (k, ts) => (k, ts.length)

end Meter

end ConsoleSweep
