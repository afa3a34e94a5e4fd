/-
  A meter against plain counting.

  Plain counting keeps every event and goes through all of them at each look: `namesOf`,
  `amountsOf` and `momentsOf` say what was recorded. A meter keeps sums, and drops moments for
  good once they are found too old, at different times for different names. What was dropped
  was below the window then, and the window only moves on, so what is left is the end of what
  was recorded and all before it is too old (`Trace.kept`). In moments that never go back, a look
  then leaves exactly those in the window (`times_refresh`).

  Moments may be of any type in which the comparison with the start of the window is that of
  exact numbers (`Exact`).
-/
import ConsoleSweep.Meter
import ConsoleSweep.Proofs.Text.Names
import Mathlib.Algebra.Order.Field.Rat
import Mathlib.Data.List.Induction
import Mathlib.Data.List.TakeWhile
import Mathlib.Tactic.Linarith

namespace ConsoleSweep.Meter

variable {τ α β : Type}

/-! ## Events -/

/-- What happens to a meter at a moment. -/
inductive Event (τ α : Type) where
  | record (now : τ) (name : String) (success : Bool) (amount : α)
  | look (now : τ)

/-- When it happens. -/
def Event.now : Event τ α → τ
  | .record now .. => now
  | .look now => now

/-- The name of a record. -/
def Event.name? : Event τ α → Option String
  | .record _ name .. => some name
  | .look _ => none

/-- The name of a record of a failure. -/
def Event.failedName? : Event τ α → Option String
  | .record _ name false _ => some name
  | _ => none

/-- The amount of a record under a name. -/
def Event.amountOf? (name : String) : Event τ α → Option α
  | .record _ n _ amount => if n = name then some amount else none
  | .look _ => none

/-- The amount of a record of a failure under a name. -/
def Event.failureOf? (name : String) : Event τ α → Option α
  | .record _ n false amount => if n = name then some amount else none
  | _ => none

/-! ## Plain counting -/

/-- The names of the records, in the order in which they come first. -/
def namesOf (events : List (Event τ α)) : List String :=
  (events.filterMap Event.name?).eraseDups

/-- The names of the records of failures, in the order in which they come first. -/
def failedNamesOf (events : List (Event τ α)) : List String :=
  (events.filterMap Event.failedName?).eraseDups

/-- The moments of all records under a name. -/
def momentsOf (name : String) (events : List (Event τ α)) : List τ :=
  (events.filter fun e => e.name? = some name).map Event.now

/-- The amounts of all records under a name. -/
def amountsOf (name : String) (events : List (Event τ α)) : List α :=
  events.filterMap (Event.amountOf? name)

/-- The amounts of all failures under a name. -/
def failuresOf (name : String) (events : List (Event τ α)) : List α :=
  events.filterMap (Event.failureOf? name)

/-- The sum of some amounts, one after the other. -/
def sumOf [Add α] [Zero α] (amounts : List α) : α :=
  amounts.foldl (· + ·) 0

/-- A list of names, each with its value. -/
def keyed (names : List String) (value : String → β) : List (String × β) :=
  names.map fun name => (name, value name)

/-! ## Runs -/

section Run

variable [Sub τ] [LT τ] [DecidableLT τ] [Add α] [Zero α]

/-- The meter after an event. -/
def step (m : Meter τ α) : Event τ α → Meter τ α
  | .record now name success amount => m.record now name success amount
  | .look now => m.refresh now

/-- The meter after some events. -/
def run (m : Meter τ α) (events : List (Event τ α)) : Meter τ α :=
  events.foldl step m

end Run

/-! ## Values of names -/

theorem adjust_keyed {names : List String} {name : String} {first : β} {change : β → β}
    {value : String → β} (hn : names.Nodup) (hnew : name ∉ names → value name = first) :
    adjust name first change (keyed names value) =
      keyed (if name ∈ names then names else names ++ [name])
        (Function.update value name (change (value name))) := by
  induction names with
  | nil =>
    have hfirst := hnew (by simp)
    simp [keyed, adjust, hfirst]
  | cons n names ih =>
    obtain ⟨hnot, hn⟩ := List.nodup_cons.1 hn
    have hrest : name ∉ names → keyed names (Function.update value name (change (value name))) =
        keyed names value := by
      intro hname
      refine List.map_congr_left fun m hm => ?_
      have hne : m ≠ name := fun e => hname (e ▸ hm)
      rw [Function.update_of_ne hne]
    by_cases hname : n = name
    · subst hname
      have hkeep := hrest hnot
      simp only [keyed, List.map_cons, adjust, if_true, List.mem_cons, true_or,
        Function.update_self] at hkeep ⊢
      rw [hkeep]
    · have ih := ih hn fun h => hnew fun hmem => by
        rcases List.mem_cons.1 hmem with rfl | hmem
        · exact hname rfl
        · exact h hmem
      simp only [keyed, List.map_cons, adjust, if_neg hname] at ih ⊢
      rw [ih]
      by_cases hmem : name ∈ names
      · simp [hmem, Function.update_of_ne hname]
      · simp [hmem, Ne.symm hname, Function.update_of_ne hname]

/-- One amount more is added to the sum of its name. -/
theorem adjust_sums [Add α] [Zero α] {names : List String} {name : String} {amount : α}
    {before after : String → List α} (hn : names.Nodup) (hnew : name ∉ names → before name = [])
    (hafter : ∀ other, after other = before other ++ if other = name then [amount] else []) :
    adjust name 0 (· + amount) (keyed names fun other => sumOf (before other)) =
      keyed (if name ∈ names then names else names ++ [name]) fun other => sumOf (after other) := by
  rw [adjust_keyed hn fun h => by rw [hnew h]; rfl]
  congr 1
  funext other
  rw [hafter]
  by_cases hother : other = name
  · subst hother
    simp [sumOf]
  · simp [hother]

/-! ## One event more -/

section Concat

variable {events : List (Event τ α)} {now : τ} {name other : String} {success : Bool} {amount : α}

theorem namesOf_record : namesOf (events ++ [.record now name success amount]) =
    if name ∈ namesOf events then namesOf events else namesOf events ++ [name] := by
  unfold namesOf
  simp only [List.filterMap_append, List.mem_eraseDups]
  exact Text.eraseDups_concat _ name

theorem namesOf_look : namesOf (events ++ [.look now]) = namesOf events := by
  simp [namesOf, Event.name?, List.filterMap_cons]

theorem failedNamesOf_failure : failedNamesOf (events ++ [.record now name false amount]) =
    if name ∈ failedNamesOf events then failedNamesOf events
    else failedNamesOf events ++ [name] := by
  unfold failedNamesOf
  simp only [List.filterMap_append, List.mem_eraseDups]
  exact Text.eraseDups_concat _ name

theorem failedNamesOf_success :
    failedNamesOf (events ++ [.record now name true amount]) = failedNamesOf events := by
  simp [failedNamesOf, Event.failedName?, List.filterMap_cons]

theorem failedNamesOf_look : failedNamesOf (events ++ [.look now]) = failedNamesOf events := by
  simp [failedNamesOf, Event.failedName?, List.filterMap_cons]

theorem momentsOf_record : momentsOf other (events ++ [.record now name success amount]) =
    momentsOf other events ++ (if other = name then [now] else []) := by
  by_cases h : other = name
  · simp [momentsOf, Event.name?, Event.now, h]
  · simp [momentsOf, Event.name?, h, Ne.symm h]

theorem momentsOf_look : momentsOf other (events ++ [.look now]) = momentsOf other events := by
  simp [momentsOf, Event.name?]

theorem amountsOf_record : amountsOf other (events ++ [.record now name success amount]) =
    amountsOf other events ++ (if other = name then [amount] else []) := by
  by_cases h : other = name
  · simp [amountsOf, Event.amountOf?, h]
  · simp [amountsOf, Event.amountOf?, h, Ne.symm h]

theorem amountsOf_look : amountsOf other (events ++ [.look now]) = amountsOf other events := by
  simp [amountsOf, Event.amountOf?]

theorem failuresOf_failure : failuresOf other (events ++ [.record now name false amount]) =
    failuresOf other events ++ (if other = name then [amount] else []) := by
  by_cases h : other = name
  · simp [failuresOf, Event.failureOf?, h]
  · simp [failuresOf, Event.failureOf?, h, Ne.symm h]

theorem failuresOf_success :
    failuresOf other (events ++ [.record now name true amount]) = failuresOf other events := by
  simp [failuresOf, Event.failureOf?]

theorem failuresOf_look : failuresOf other (events ++ [.look now]) = failuresOf other events := by
  simp [failuresOf, Event.failureOf?]

/-! ## Names without records -/

theorem momentsOf_eq_nil (h : name ∉ namesOf events) : momentsOf name events = [] := by
  simp only [namesOf, List.mem_eraseDups, List.mem_filterMap, not_exists, not_and] at h
  simp only [momentsOf, List.map_eq_nil_iff, List.filter_eq_nil_iff, decide_eq_true_eq]
  exact h

theorem amountsOf_eq_nil (h : name ∉ namesOf events) : amountsOf name events = [] := by
  simp only [namesOf, List.mem_eraseDups, List.mem_filterMap, not_exists, not_and] at h
  refine List.filterMap_eq_nil_iff.2 fun e he => ?_
  cases e with
  | record now n success amount =>
    exact if_neg fun hn => h _ he (congrArg some hn)
  | look now => rfl

theorem failuresOf_eq_nil (h : name ∉ failedNamesOf events) : failuresOf name events = [] := by
  simp only [failedNamesOf, List.mem_eraseDups, List.mem_filterMap, not_exists, not_and] at h
  refine List.filterMap_eq_nil_iff.2 fun e he => ?_
  cases e with
  | record now n success amount =>
    cases success with
    | true => rfl
    | false => exact if_neg fun hn => h _ he (congrArg some hn)
  | look now => rfl

theorem nodup_namesOf (events : List (Event τ α)) : (namesOf events).Nodup :=
  Text.nodup_eraseDups _

theorem nodup_failedNamesOf (events : List (Event τ α)) : (failedNamesOf events).Nodup :=
  Text.nodup_eraseDups _

end Concat

theorem momentsOf_sublist (name : String) (events : List (Event τ α)) :
    (momentsOf name events).Sublist (events.map Event.now) :=
  List.filter_sublist.map _

/-! ## What a meter keeps -/

/-- Among these readings of the clock, being too old is what it is for exact numbers. -/
def Exact [Sub τ] [LT τ] (value : τ → ℚ) (window : τ) (readings : List τ) : Prop :=
  ∀ t ∈ readings, ∀ now ∈ readings, t < now - window ↔ value t < value now - value window

/-- Some moments are what is left of all, after some that were too old at an event were dropped. -/
def Kept (value : τ → ℚ) (window : τ) (readings all kept : List τ) : Prop :=
  ∃ old, all = old ++ kept ∧ ∀ t ∈ old, ∃ now ∈ readings, value t < value now - value window

/-- The meter has counted the events. -/
structure Trace [Add α] [Zero α] (value : τ → ℚ) (window : τ) (events : List (Event τ α))
    (m : Meter τ α) : Prop where
  window_eq : m.window = window
  totals : m.totals = keyed (namesOf events) fun name => sumOf (amountsOf name events)
  errors : m.errors = keyed (failedNamesOf events) fun name => sumOf (failuresOf name events)
  times : ∃ kept, m.times = keyed (namesOf events) kept ∧ ∀ name,
    Kept value window (events.map Event.now) (momentsOf name events) (kept name)

variable {value : τ → ℚ} {window now : τ} {readings more all kept times : List τ}

theorem Exact.subset [Sub τ] [LT τ] (h : Exact value window readings)
    (hsub : more ⊆ readings) : Exact value window more :=
  fun t ht now hnow => h t (hsub ht) now (hsub hnow)

theorem Kept.mono (h : Kept value window readings all kept) (hsub : readings ⊆ more) :
    Kept value window more all kept := by
  obtain ⟨old, hall, hold⟩ := h
  refine ⟨old, hall, fun t ht => ?_⟩
  obtain ⟨now, hnow, hlt⟩ := hold t ht
  exact ⟨now, hsub hnow, hlt⟩

theorem Kept.concat (h : Kept value window readings all kept) (t : τ) :
    Kept value window readings (all ++ [t]) (kept ++ [t]) := by
  obtain ⟨old, hall, hold⟩ := h
  exact ⟨old, by rw [hall, List.append_assoc], hold⟩

/-- Dropping what is too old leaves the end of all. -/
theorem Kept.prune [Sub τ] [LT τ] [DecidableLT τ] (h : Kept value window readings all kept)
    (hexact : Exact value window readings) (hall : all ⊆ readings) (hnow : now ∈ readings) :
    Kept value window readings all (prune window now kept) := by
  obtain ⟨old, rfl, hold⟩ := h
  refine ⟨old ++ kept.takeWhile fun t => t < now - window, ?_, fun t ht => ?_⟩
  · rw [List.append_assoc, Meter.prune, List.takeWhile_append_dropWhile]
  · rcases List.mem_append.1 ht with ht | ht
    · exact hold t ht
    · have hmem : t ∈ readings := hall (List.mem_append_right _ (List.takeWhile_subset _ ht))
      exact ⟨now, hnow, (hexact t hmem now hnow).1 (by simpa using List.mem_takeWhile_imp ht)⟩

/-- In moments that never go back, those that are too old come first. -/
theorem prune_eq_filter [Sub τ] [LT τ] [DecidableLT τ] (hexact : Exact value window readings)
    (hall : times ⊆ readings) (hnow : now ∈ readings)
    (hmono : times.Pairwise fun a b => value a ≤ value b) :
    prune window now times = times.filter fun t => value now - value window ≤ value t := by
  induction times with
  | nil => rfl
  | cons t times ih =>
    obtain ⟨ht, hmono⟩ := List.pairwise_cons.1 hmono
    obtain ⟨hmem, hall⟩ := List.cons_subset.1 hall
    have hiff := hexact t hmem now hnow
    by_cases hold : t < now - window
    · have hout : ¬ value now - value window ≤ value t := not_le.2 (hiff.1 hold)
      rw [List.filter_cons_of_neg (by simpa using hout), ← ih hall hmono]
      exact List.dropWhile_cons_of_pos (by simpa using hold)
    · have hin : value now - value window ≤ value t := not_lt.1 fun h => hold (hiff.2 h)
      have hkeep : times.filter (fun t => value now - value window ≤ value t) = times :=
        List.filter_eq_self.2 fun u hu => by simpa using hin.trans (ht u hu)
      rw [List.filter_cons_of_pos (by simpa using hin), hkeep]
      exact List.dropWhile_cons_of_neg (by simpa using hold)

/-- What is left of all at a look are the moments in the window: what was dropped was too old
before, so it is too old now. -/
theorem Kept.prune_eq [Sub τ] [LT τ] [DecidableLT τ] (h : Kept value window readings all kept)
    (hexact : Exact value window readings) (hall : all ⊆ readings) (hnow : now ∈ readings)
    (hmono : all.Pairwise fun a b => value a ≤ value b)
    (hlast : ∀ t ∈ readings, value t ≤ value now) :
    Meter.prune window now kept =
      all.filter fun t => value now - value window ≤ value t := by
  obtain ⟨old, rfl, hold⟩ := h
  have hnone : old.filter (fun t => value now - value window ≤ value t) = [] := by
    refine List.filter_eq_nil_iff.2 fun t ht => ?_
    obtain ⟨before, hbefore, hlt⟩ := hold t ht
    have hle := hlast before hbefore
    simp only [decide_eq_true_eq, not_le]
    linarith
  rw [List.filter_append, hnone, List.nil_append]
  exact prune_eq_filter hexact (fun t ht => hall (List.mem_append_right _ ht)) hnow
    (List.pairwise_append.1 hmono).2.1

/-! ## Runs -/

theorem trace_new [Add α] [Zero α] (value : τ → ℚ) (window start : τ) :
    Trace value window ([] : List (Event τ α)) (new window start) :=
  ⟨rfl, rfl, rfl, fun _ => [], rfl, fun _ => ⟨[], rfl, by simp⟩⟩

section Trace

variable [Sub τ] [LT τ] [DecidableLT τ] [Add α] [Zero α] {events : List (Event τ α)}
  {m : Meter τ α}

theorem Trace.record (h : Trace value window events m) (now : τ) (name : String) (success : Bool)
    (amount : α) (hexact : Exact value window
      ((events ++ [Event.record now name success amount]).map Event.now)) :
    Trace value window (events ++ [.record now name success amount])
      (m.record now name success amount) := by
  obtain ⟨kept, htimes, hkept⟩ := h.times
  have hnil : name ∉ namesOf events → kept name = [] := by
    intro hname
    obtain ⟨old, hold, -⟩ := hkept name
    rw [momentsOf_eq_nil hname] at hold
    exact (List.append_eq_nil_iff.1 hold.symm).2
  refine ⟨h.window_eq, ?_, ?_,
    Function.update kept name (prune window now (kept name ++ [now])), ?_, fun other => ?_⟩
  · rw [namesOf_record]
    refine Eq.trans ?_ (adjust_sums (nodup_namesOf events) amountsOf_eq_nil fun _ =>
      amountsOf_record)
    rw [← h.totals]
    rfl
  · cases success with
    | true =>
      simp only [failedNamesOf_success, failuresOf_success]
      exact h.errors
    | false =>
      rw [failedNamesOf_failure]
      refine Eq.trans ?_ (adjust_sums (nodup_failedNamesOf events) failuresOf_eq_nil fun _ =>
        failuresOf_failure)
      rw [← h.errors]
      rfl
  · rw [namesOf_record]
    have hadjust : adjust name [] (fun ts => prune window now (ts ++ [now]))
        (keyed (namesOf events) kept) = _ := adjust_keyed (nodup_namesOf events) hnil
    rw [← hadjust, ← htimes, ← h.window_eq]
    rfl
  · have hmore := (hkept other).mono (List.map_subset Event.now
      (List.subset_append_left events [Event.record now name success amount]))
    rw [momentsOf_record]
    by_cases hother : other = name
    · subst hother
      rw [if_pos rfl, Function.update_self]
      refine (hmore.concat now).prune hexact ?_ (by simp [Event.now])
      have hall := (momentsOf_sublist other
        (events ++ [Event.record now other success amount])).subset
      rwa [momentsOf_record, if_pos rfl] at hall
    · rw [if_neg hother, List.append_nil, Function.update_of_ne hother]
      exact hmore

theorem Trace.look (h : Trace value window events m) (now : τ)
    (hexact : Exact value window ((events ++ [Event.look now]).map Event.now)) :
    Trace value window (events ++ [.look now]) (m.refresh now) := by
  obtain ⟨kept, htimes, hkept⟩ := h.times
  refine ⟨h.window_eq, ?_, ?_, fun name => prune window now (kept name), ?_, fun name => ?_⟩
  · simp only [namesOf_look, amountsOf_look]
    exact h.totals
  · simp only [failedNamesOf_look, failuresOf_look]
    exact h.errors
  · unfold refresh keyed
    rw [htimes, h.window_eq, namesOf_look, keyed, List.map_map]
    rfl
  · have hmore := (hkept name).mono
      (List.map_subset Event.now (List.subset_append_left events [Event.look now]))
    have hall := (momentsOf_sublist name (events ++ [Event.look now])).subset
    rw [momentsOf_look] at hall ⊢
    exact hmore.prune hexact hall (by simp [Event.now])

theorem start_run (m : Meter τ α) (events : List (Event τ α)) : (run m events).start = m.start := by
  unfold run
  induction events generalizing m with
  | nil => rfl
  | cons e events ih =>
    rw [List.foldl_cons, ih]
    cases e <;> rfl

/-- A meter has counted all events of its run. -/
theorem trace_run (start : τ) (hexact : Exact value window (events.map Event.now)) :
    Trace value window events (run (new window start) events) := by
  induction events using List.reverseRecOn with
  | nil => exact trace_new value window start
  | append_singleton events e ih =>
    have h := ih (hexact.subset (List.map_subset Event.now (List.subset_append_left events [e])))
    unfold run at h ⊢
    rw [List.foldl_append, List.foldl_cons, List.foldl_nil]
    cases e with
    | record now name success amount => exact h.record now name success amount hexact
    | look now => exact h.look now hexact

/-- In moments that never go back, a look leaves those in the window. -/
theorem Trace.times_refresh (h : Trace value window events m)
    (hexact : Exact value window (events.map Event.now ++ [now]))
    (hmono : (events.map Event.now ++ [now]).Pairwise fun a b => value a ≤ value b) :
    (m.refresh now).times = keyed (namesOf events) fun name =>
      (momentsOf name events).filter fun t => value now - value window ≤ value t := by
  obtain ⟨kept, htimes, hkept⟩ := h.times
  obtain ⟨hbefore, -, hlast⟩ := List.pairwise_append.1 hmono
  unfold refresh
  rw [htimes, h.window_eq, keyed, List.map_map]
  refine List.map_congr_left fun name _ => congrArg (Prod.mk name) ?_
  have hall := momentsOf_sublist name events
  refine ((hkept name).mono (List.subset_append_left _ [now])).prune_eq hexact
    (fun t ht => List.mem_append_left _ (hall.subset ht)) (by simp) (hbefore.sublist hall) ?_
  intro t ht
  rcases List.mem_append.1 ht with ht | ht
  · exact hlast t ht now (by simp)
  · rw [List.mem_singleton.1 ht]

end Trace

end ConsoleSweep.Meter
