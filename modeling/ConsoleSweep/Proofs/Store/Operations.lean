/-
  Stores under any sequence of operations.

  An operation takes any JSON value as a count. It makes one of a few things of the store
  (`Op.Makes`), or it is refused and the store is as before (`Op.run_cases`). What is kept in
  each of these cases is kept by any sequence of operations (`after_induction`). The order of
  the entries is always kept (`ordered_after`). Counts stay above zero as long as no count
  between zero and one is set: such a count is above zero when it is compared, and zero when it
  is recorded.
-/
import ConsoleSweep.Proofs.Frame
import ConsoleSweep.Proofs.Store
import ConsoleSweep.Store.Files

namespace ConsoleSweep.Store

open ConsoleSweep.Sweep

/-- An operation on a store. A store that is loaded, in the surroundings of that moment, takes the
place of the one there was. -/
inductive Op where
  | replace (counts : Json)
  | set (path : String) (count : Json)
  | remove (path : String)
  | clear
  | load (p : Path) (w : World)

/-- The store that an operation leaves, and the reason if it was refused. -/
def Op.run (s : Store) : Op → Store × Option Fault
  | .replace counts => s.replaceAll counts
  | .set path count => s.setValue path count
  | .remove path => (s.remove path, none)
  | .clear => (empty, none)
  | .load p w =>
    match (Store.load p).outcome w with
    | .ok s' => (s', none)
    | .error f => (s, some f)

/-- The store after an operation. -/
def Op.after (s : Store) (op : Op) : Store :=
  (op.run s).1

/-- The store after some operations. -/
def after (s : Store) (ops : List Op) : Store :=
  ops.foldl Op.after s

variable {s s' s₀ t : Store} {v : Json} {op : Op} {ops : List Op} {path : String}

/-! ## What the operations make -/

/-- All entries are replaced, or none because something is refused. -/
theorem replaceAll_cases (s : Store) (v : Json) :
    (∃ counts, s.replaceAll v = (ofCounts counts, none)) ∨ ∃ f, s.replaceAll v = (s, some f) := by
  cases v with
  | obj fields =>
    unfold replaceAll
    dsimp only
    cases countsOf fields with
    | ok counts => exact .inl ⟨counts, rfl⟩
    | error f => exact .inr ⟨f, rfl⟩
  | _ => exact .inr ⟨_, rfl⟩

theorem ofInitial_eq_ok (h : ofInitial v = .ok s) : ∃ counts, s = ofCounts counts := by
  unfold ofInitial at h
  split at h
  · rcases replaceAll_cases empty v with ⟨counts, hr⟩ | ⟨f, hr⟩
    · rw [hr] at h
      exact ⟨counts, (Except.ok.inj h).symm⟩
    · rw [hr] at h
      cases h
  · exact ⟨[], (Except.ok.inj h).symm⟩

/-- A value is recorded without its fraction if it is above zero, or its path is dropped; or the
value is refused. -/
theorem setValue_cases (s : Store) (path : String) (count : Json) :
    (∃ n, Number.isPositive count = .ok true ∧ Number.toInt count = .ok n ∧
      s.setValue path count = (s.put path n, none)) ∨
    s.setValue path count = (s.remove path, none) ∨ ∃ f, s.setValue path count = (s, some f) := by
  unfold setValue
  cases Number.isPositive count with
  | error f => exact .inr (.inr ⟨f, rfl⟩)
  | ok b =>
    cases b with
    | false => exact .inr (.inl rfl)
    | true =>
      cases Number.toInt count with
      | error f => exact .inr (.inr ⟨f, rfl⟩)
      | ok n => exact .inl ⟨n, rfl, rfl, rfl⟩


/-- A store that is loaded has the entries of a file, or none. -/
theorem load_eq_ok {p : Path} {w : World} (h : (load p).outcome w = .ok s) :
    ∃ entries, (empty.addEntries entries).2 = .ok s := by
  have hload : Gives (fun s => ∃ entries, (empty.addEntries entries).2 = .ok s) (load p) := by
    have hnone : Gives (fun s => ∃ entries, (empty.addEntries entries).2 = .ok s) (pure empty) :=
      gives_pure ⟨[], rfl⟩
    unfold load
    refine Gives.bind fun there => ?_
    split
    · exact hnone
    · refine Gives.bind fun read => ?_
      split
      · intro w s hs
        cases hs
      · exact Gives.bind fun _ => hnone
      · split
        · exact Gives.bind fun _ => hnone
        · exact Gives.bind fun _ => fun w s hs => ⟨_, outcome_ofExcept hs⟩
  exact hload w s h

/-- What an operation that is not refused can make of a store. -/
inductive Op.Makes (s : Store) : Op → Store → Prop where
  | replace (v : Json) (counts : List (String × Int)) : Makes s (.replace v) (ofCounts counts)
  | put (path : String) {count : Json} {n : Int} (positive : Number.isPositive count = .ok true)
      (whole : Number.toInt count = .ok n) : Makes s (.set path count) (s.put path n)
  | drop (path : String) (count : Json) : Makes s (.set path count) (s.remove path)
  | remove (path : String) : Makes s (.remove path) (s.remove path)
  | clear : Makes s .clear empty
  | load (p : Path) (w : World) {entries : List (String × Json)} {s' : Store}
      (read : (empty.addEntries entries).2 = .ok s') : Makes s (.load p w) s'

/-- An operation is done, or it is refused and leaves the store as it is. -/
theorem Op.run_cases (s : Store) (op : Op) :
    (∃ s', op.run s = (s', none) ∧ op.Makes s s') ∨ ∃ f, op.run s = (s, some f) := by
  cases op with
  | replace v =>
    rcases replaceAll_cases s v with ⟨counts, h⟩ | h
    · exact .inl ⟨_, h, .replace v counts⟩
    · exact .inr h
  | set path count =>
    rcases setValue_cases s path count with ⟨n, hp, hn, h⟩ | h | h
    · exact .inl ⟨_, h, .put path hp hn⟩
    · exact .inl ⟨_, h, .drop path count⟩
    · exact .inr h
  | remove path => exact .inl ⟨_, rfl, .remove path⟩
  | clear => exact .inl ⟨_, rfl, .clear⟩
  | load p w =>
    unfold run
    dsimp only
    cases h : (Store.load p).outcome w with
    | ok s' =>
      obtain ⟨entries, he⟩ := load_eq_ok h
      exact .inl ⟨s', rfl, .load p w he⟩
    | error f => exact .inr ⟨f, rfl⟩

/-- What holds at the start and is preserved by every operation that is done holds after each
sequence of operations. -/
theorem after_induction {P : Store → Prop} {Q : Op → Prop} (h : P s)
    (step : ∀ s op s', Q op → P s → op.Makes s s' → P s') (hops : ∀ op ∈ ops, Q op) :
    P (s.after ops) := by
  induction ops generalizing s with
  | nil => exact h
  | cons op ops ih =>
    obtain ⟨hop, hops⟩ := List.forall_mem_cons.1 hops
    refine ih (s := op.after s) ?_ hops
    unfold Op.after
    rcases op.run_cases s with ⟨s', hr, hmakes⟩ | ⟨f, hr⟩ <;> rw [hr]
    · exact step s op s' hop h hmakes
    · exact h

/-- What holds of the store at the start and is preserved by each count that is recorded holds in
the end. -/
theorem addEntries_induction {P : Store → Prop} {entries : List (String × Json)} (h : P t)
    (step : ∀ t path n, P t → P (t.setCount path n)) (hr : (t.addEntries entries).2 = .ok s) :
    P s := by
  induction entries generalizing t with
  | nil => exact Except.ok.inj hr ▸ h
  | cons e entries ih =>
    obtain ⟨path, v⟩ := e
    unfold addEntries at hr
    split at hr
    · next n hn => exact ih (step t path n h) hr
    · cases hr
    · exact ih h hr

/-! ## Order -/

theorem Ordered.setCount (h : s.Ordered) (path : String) (n : Int) :
    (s.setCount path n).Ordered := by
  unfold Store.setCount
  split
  · exact h.put path n
  · exact h.remove path

/-- Every operation preserves the order of the entries. -/
theorem Ordered.makes (h : s.Ordered) (hm : op.Makes s s') : s'.Ordered := by
  cases hm with
  | replace _ counts => exact ordered_ofCounts counts
  | put path _ _ => exact h.put path _
  | drop path | remove path => exact h.remove path
  | clear => exact ordered_empty
  | load _ _ read =>
    exact addEntries_induction ordered_empty (fun t path n ht => ht.setCount path n) read

/-- The entries of a store are in order after any sequence of operations. -/
theorem ordered_after (h : ofInitial v = .ok s₀) (ops : List Op) : (s₀.after ops).Ordered := by
  obtain ⟨counts, rfl⟩ := ofInitial_eq_ok h
  exact after_induction (Q := fun _ => True) (ordered_ofCounts counts)
    (fun s op s' _ hs hm => hs.makes hm) fun _ _ => trivial

/-! ## Counts above zero -/

/-- Every recorded count is above zero. -/
def Positive (s : Store) : Prop :=
  ∀ e ∈ s.items, 0 < e.2

theorem positive_empty : empty.Positive :=
  fun _ h => absurd h List.not_mem_nil

theorem Positive.remove (h : s.Positive) (path : String) : (s.remove path).Positive :=
  fun e he => h e (List.mem_filter.1 he).1

theorem Positive.put (hs : s.Ordered) (h : s.Positive) (path : String) {n : Int} (hn : 0 < n) :
    (s.put path n).Positive := by
  intro e he
  rcases (mem_insertItem hs).1 he with rfl | ⟨he, -⟩
  · exact hn
  · exact h e he

theorem positive_ofCounts (counts : List (String × Int)) : (ofCounts counts).Positive := by
  have hfold : ∀ s : Store, s.Ordered → s.Positive →
      (counts.foldl (fun s e => if 0 < e.2 then s.put e.1 e.2 else s) s).Positive := by
    induction counts with
    | nil => exact fun s _ h => h
    | cons e counts ih =>
      intro s hs h
      rw [List.foldl_cons]
      split
      · next hn => exact ih _ (hs.put _ _) (h.put hs _ hn)
      · exact ih _ hs h
  exact hfold empty ordered_empty positive_empty

/-- The operation sets a count between zero and one. -/
def Op.SetsFraction : Op → Prop
  | .set _ (.real x) => 0.0 < x ∧ Number.real x < Number.int 1
  | _ => False

theorem twoPow_snd_pos (e : Int) : 0 < (Decimal.twoPow e).2 := by
  unfold Decimal.twoPow
  split
  · exact Nat.one_pos
  · exact Nat.pow_pos Nat.two_pos

/-- A finite number that is not below one is at least one without its fraction. -/
theorem pos_of_truncate? {b : Decimal.Binary} {n : Int}
    (h : Number.compareInt 1 b ≠ some .gt) (hn : b.truncate? = some n) : 0 < n := by
  cases b with
  | nan | infinite => cases hn
  | finite negative m e =>
    have hden := twoPow_snd_pos e
    simp only [Number.compareInt, ne_eq, Option.some.injEq, Int.one_mul,
      Std.compare_eq_gt, Int.not_lt] at h
    obtain rfl := Option.some.inj hn
    cases negative with
    | true =>
      have hneg : -((m * (Decimal.twoPow e).1 : Nat) : Int) ≤ 0 := by omega
      simp only [if_true] at h
      push_cast at hneg
      omega
    | false =>
      simp only [Bool.false_eq_true, if_false] at h ⊢
      have hle : (Decimal.twoPow e).2 ≤ m * (Decimal.twoPow e).1 := by exact_mod_cast h
      have hpos : 0 < m * (Decimal.twoPow e).1 / (Decimal.twoPow e).2 := Nat.div_pos hle hden
      omega

theorem pos_of_toInt {x : Float} {n : Int} (h : ¬ Number.real x < Number.int 1)
    (hn : Number.toInt (.real x) = .ok n) : 0 < n := by
  have hcompare : Number.compareInt 1 (.ofFloat x) ≠ some .gt := by
    intro hgt
    refine h ?_
    change (Number.lt _ _) = true
    simp [Number.lt, Number.compare?, hgt]
  simp only [Number.toInt] at hn
  split at hn
  · next m hm =>
    obtain rfl := Except.ok.inj hn
    exact pos_of_truncate? hcompare hm
  · split at hn <;> cases hn

/-- A value above zero stays above zero when its fraction is dropped, unless it is below one. -/
theorem pos_of_isPositive {count : Json} {n : Int} (hp : Number.isPositive count = .ok true)
    (hn : Number.toInt count = .ok n) (hf : ¬ (Op.set path count).SetsFraction) : 0 < n := by
  cases count with
  | int m =>
    obtain rfl := Except.ok.inj hn
    simpa [Number.isPositive, Number.ofJson?] using hp
  | bool b =>
    obtain rfl := Except.ok.inj hn
    simpa [Number.isPositive, Number.ofJson?] using hp
  | real x =>
    have hx : 0.0 < x := by simpa [Number.isPositive, Number.ofJson?] using hp
    exact pos_of_toInt (fun hlt => hf ⟨hx, hlt⟩) hn
  | null | str | arr | obj => cases hp

/-- Every operation preserves counts above zero, unless it sets a count between zero and one. -/
theorem Positive.makes (hs : s.Ordered) (h : s.Positive) (hf : ¬ op.SetsFraction)
    (hm : op.Makes s s') : s'.Positive := by
  cases hm with
  | replace _ counts => exact positive_ofCounts counts
  | put path hp hn => exact h.put hs path (pos_of_isPositive hp hn hf)
  | drop path | remove path => exact h.remove path
  | clear => exact positive_empty
  | load _ _ read =>
    have hboth : s'.Ordered ∧ s'.Positive := by
      refine addEntries_induction (P := fun s => s.Ordered ∧ s.Positive)
        ⟨ordered_empty, positive_empty⟩ ?_ read
      rintro t path n ⟨ht, hpos⟩
      refine ⟨ht.setCount path n, ?_⟩
      unfold setCount
      split
      · next hn => exact hpos.put ht path hn
      · exact hpos.remove path
    exact hboth.2

/-- Only counts above zero are recorded, in any store and after any operations, as long as no count
between zero and one is set. -/
theorem positive_after (h : ofInitial v = .ok s₀) (hf : ∀ op ∈ ops, ¬ op.SetsFraction) :
    ∀ e ∈ (s₀.after ops).items, 0 < e.2 := by
  obtain ⟨counts, rfl⟩ := ofInitial_eq_ok h
  have hboth : ((ofCounts counts).after ops).Ordered ∧ ((ofCounts counts).after ops).Positive :=
    after_induction (P := fun s => s.Ordered ∧ s.Positive) (Q := fun op => ¬ op.SetsFraction)
      ⟨ordered_ofCounts counts, positive_ofCounts counts⟩
      (fun s op s' hop hs hm => ⟨hs.1.makes hm, hs.2.makes hs.1 hop hm⟩) hf
  exact hboth.2

/-- A store that starts with two values and goes through operations of each kind, some of which are
refused. -/
theorem positive_after_some :
    ofInitial (.obj [("a.js", .int 2), ("b.js", .int (-1))]) = .ok ⟨[("a.js", 2)]⟩ ∧
      ((Store.mk [("a.js", 2)]).after [.clear, .set "b.js" (.int 3), .set "c.js" .null,
        .replace (.obj [("d.js", .bool true), ("e.js", .int 0)]), .set "f.js" (.str "x"),
        .set "g.js" (.int 2), .remove "d.js"]).Positive := by
  have hstart : ofInitial (.obj [("a.js", .int 2), ("b.js", .int (-1))]) = .ok ⟨[("a.js", 2)]⟩ :=
    rfl
  exact ⟨hstart, positive_after hstart (by simp [Op.SetsFraction])⟩

/-- A half is above zero, and is recorded as zero. -/
theorem zero_after_half : ofInitial .null = .ok empty ∧
    ("a.js", 0) ∈ (empty.after [.set "a.js" (.real 0.5)]).items := by
  have hpos : (0.0 : Float) < 0.5 := by decide
  have htrunc : (Decimal.Binary.ofFloat 0.5).truncate? = some 0 := by decide
  have hset : (Op.set "a.js" (.real 0.5)).run empty = (empty.put "a.js" 0, none) := by
    simp [Op.run, setValue, Number.isPositive, Number.ofJson?, Number.toInt, hpos, htrunc]
  have hafter : empty.after [.set "a.js" (.real 0.5)] = empty.put "a.js" 0 :=
    congrArg Prod.fst hset
  rw [hafter]
  exact ⟨rfl, List.mem_singleton.2 rfl⟩

end ConsoleSweep.Store
