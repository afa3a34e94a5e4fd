/-
  A store is a finite map from paths to counts.

  The entries are the map in the order of its paths, and all that can be read off a store is
  read off the map (`Shows`). The operations do on the map what they do on the entries
  (`counts_run`), so the two go side by side through any sequence of operations
  (`counts_after`). An operation is refused exactly if it meets a value that is no count, or
  no number to compare with zero (`isSome_run_iff`), and then the store is as before.
-/
import ConsoleSweep.Proofs.Store.Operations
import Mathlib.Data.Finmap
import Mathlib.Algebra.BigOperators.Group.Finset.Basic

namespace ConsoleSweep.Store

/-- A finite map from paths to counts. -/
abbrev CountMap := Finmap fun _ : String => Int

/-- The map of a store. -/
def counts (s : Store) : CountMap :=
  (s.items.map fun e => (⟨e.1, e.2⟩ : Σ _ : String, Int)).toFinmap

variable {s s' s₀ : Store} {v : Json} {op : Op} {path other : String} {n : Int}

/-! ## The count of a path -/

/-- In an ordered store a path has the count of its one entry. -/
theorem get?_eq_some_iff (h : s.Ordered) : s.get? path = some n ↔ (path, n) ∈ s.items := by
  unfold get?
  constructor
  · intro hl
    obtain ⟨before, rest, hs, -⟩ := List.lookup_eq_some_iff.1 hl
    rw [hs]
    simp
  · intro he
    obtain ⟨before, rest, hs⟩ := List.append_of_mem he
    refine List.lookup_eq_some_iff.2 ⟨before, rest, hs, fun e hb => ?_⟩
    have hlt : e.1 < path := by
      unfold Ordered at h
      rw [hs, List.pairwise_append] at h
      exact h.2.2 e hb (path, n) List.mem_cons_self
    simpa using (ne_of_lt hlt).symm

theorem get?_put (h : s.Ordered) :
    (s.put path n).get? other = if other = path then some n else s.get? other := by
  refine Option.ext fun k => ?_
  rw [get?_eq_some_iff (h.put path n)]
  have hmem : (other, k) ∈ (s.put path n).items ↔
      (other, k) = (path, n) ∨ (other, k) ∈ s.items ∧ other ≠ path := mem_insertItem h
  rw [hmem]
  split
  · next heq => simp [heq, eq_comm]
  · next hne => simp [hne, get?_eq_some_iff h]

theorem get?_remove (h : s.Ordered) :
    (s.remove path).get? other = if other = path then none else s.get? other := by
  refine Option.ext fun k => ?_
  rw [get?_eq_some_iff (h.remove path)]
  have hmem : (other, k) ∈ (s.remove path).items ↔ (other, k) ∈ s.items ∧ other ≠ path := by
    simp [remove, List.mem_filter]
  rw [hmem]
  split
  · next heq => simp [heq]
  · next hne => simp [hne, get?_eq_some_iff h]

/-! ## The map of a store -/

@[simp] theorem lookup_counts (s : Store) (path : String) :
    s.counts.lookup path = s.get? path := by
  unfold counts get?
  rw [Finmap.dlookup_list_toFinmap]
  induction s.items with
  | nil => rfl
  | cons e items ih =>
    obtain ⟨p, n⟩ := e
    by_cases hp : path = p
    · subst hp
      simp
    · rw [List.map_cons, List.dlookup_cons_ne _ _ hp, ih, List.lookup_cons,
        beq_eq_false_iff_ne.2 hp]

theorem counts_put (h : s.Ordered) : (s.put path n).counts = s.counts.insert path n := by
  refine Finmap.ext_lookup fun other => ?_
  rw [lookup_counts, get?_put h]
  split
  · next heq => rw [heq, Finmap.lookup_insert]
  · next hne => rw [Finmap.lookup_insert_of_ne _ hne, lookup_counts]

theorem counts_remove (h : s.Ordered) : (s.remove path).counts = s.counts.erase path := by
  refine Finmap.ext_lookup fun other => ?_
  rw [lookup_counts, get?_remove h]
  split
  · next heq => rw [heq, Finmap.lookup_erase]
  · next hne => rw [Finmap.lookup_erase_ne hne, lookup_counts]

/-- The map with the counts above zero of a list, later ones in the place of earlier ones. -/
def CountMap.ofCounts (counts : List (String × Int)) : CountMap :=
  counts.foldl (fun m e => if 0 < e.2 then m.insert e.1 e.2 else m) ∅

theorem counts_ofCounts (counts : List (String × Int)) :
    (ofCounts counts).counts = CountMap.ofCounts counts := by
  have hfold : ∀ s : Store, s.Ordered →
      (counts.foldl (fun s e => if 0 < e.2 then s.put e.1 e.2 else s) s).counts =
        counts.foldl (fun m e => if 0 < e.2 then m.insert e.1 e.2 else m) s.counts := by
    induction counts with
    | nil => exact fun s _ => rfl
    | cons e counts ih =>
      intro s hs
      rw [List.foldl_cons, List.foldl_cons]
      split
      · rw [ih _ (hs.put _ _), counts_put hs]
      · exact ih s hs
  exact hfold empty ordered_empty

/-! ## What can be read off -/

/-- All that a store shows is read off one map. -/
structure Shows (s : Store) (m : CountMap) : Prop where
  items : s.items.Pairwise (·.1 < ·.1) ∧ ∀ path n, (path, n) ∈ s.items ↔ m.lookup path = some n
  paths : s.paths.Pairwise (· < ·) ∧ ∀ path, path ∈ s.paths ↔ path ∈ m
  entries : s.entries.Pairwise (·.path < ·.path) ∧
    ∀ e, e ∈ s.entries ↔ m.lookup e.path = some e.count
  get : ∀ path, s.get? path = m.lookup path
  contains : ∀ path, s.contains path = true ↔ path ∈ m
  fileCount : s.fileCount = m.keys.card
  totalCalls : s.totalCalls = ∑ path ∈ m.keys, (m.lookup path).getD 0
  json : ∃ files, s.toJson = .obj [("version", .int 1), ("files", .obj files)] ∧
    files.Pairwise (·.1 < ·.1) ∧
    ∀ path v, (path, v) ∈ files ↔ ∃ n, v = .int n ∧ m.lookup path = some n

theorem mem_paths_iff (h : s.Ordered) : path ∈ s.paths ↔ path ∈ s.counts := by
  rw [Finmap.mem_iff]
  simp only [lookup_counts, get?_eq_some_iff h, paths, List.mem_map]
  constructor
  · rintro ⟨e, he, rfl⟩
    exact ⟨e.2, he⟩
  · rintro ⟨n, he⟩
    exact ⟨_, he, rfl⟩

theorem keys_counts (h : s.Ordered) : s.counts.keys = s.paths.toFinset := by
  ext path
  rw [Finmap.mem_keys, List.mem_toFinset, mem_paths_iff h]

theorem totalCalls_eq (h : s.Ordered) :
    s.totalCalls = ∑ path ∈ s.counts.keys, (s.counts.lookup path).getD 0 := by
  have hcounts : s.paths.map (fun path => (s.counts.lookup path).getD 0) = s.items.map (·.2) := by
    unfold paths
    rw [List.map_map]
    refine List.map_congr_left fun e he => ?_
    have hget := (get?_eq_some_iff h).2 he
    simp [hget]
  rw [keys_counts h, List.sum_toFinset _ h.nodup_paths, hcounts]
  unfold totalCalls
  rw [List.sum, List.foldr_map]

/-- An ordered store shows its map. -/
theorem Ordered.shows (h : s.Ordered) : s.Shows s.counts where
  items := ⟨h, fun path n => by rw [lookup_counts, get?_eq_some_iff h]⟩
  paths := ⟨h.paths, fun path => mem_paths_iff h⟩
  entries := by
    refine ⟨List.pairwise_map.2 h, fun e => ?_⟩
    rw [lookup_counts, get?_eq_some_iff h]
    constructor
    · intro he
      obtain ⟨a, ha, rfl⟩ := List.mem_map.1 he
      exact ha
    · intro he
      exact List.mem_map.2 ⟨_, he, rfl⟩
  get path := (lookup_counts s path).symm
  contains path := by
    unfold Store.contains
    rw [← lookup_counts, Finmap.lookup_isSome]
  fileCount := by
    rw [keys_counts h, List.toFinset_card_of_nodup h.nodup_paths]
    simp [Store.fileCount, Store.paths]
  totalCalls := totalCalls_eq h
  json := by
    refine ⟨s.fields, rfl, List.pairwise_map.2 h, fun path v => ?_⟩
    simp only [lookup_counts, get?_eq_some_iff h]
    constructor
    · intro hf
      obtain ⟨e, he, heq⟩ := List.mem_map.1 hf
      obtain ⟨rfl, rfl⟩ := Prod.mk.inj heq
      exact ⟨e.2, rfl, he⟩
    · rintro ⟨n, rfl, he⟩
      exact List.mem_map.2 ⟨_, he, rfl⟩

/-! ## Operations on the map -/

/-- What an operation makes of a map, and the reason if it is refused. -/
def Op.onMap (m : CountMap) : Op → CountMap × Option Fault
  | .replace (.obj fields) =>
    match countsOf fields with
    | .ok counts => (CountMap.ofCounts counts, none)
    | .error f => (m, some f)
  | .replace _ => (m, some .noPart)
  | .set path count =>
    match Number.isPositive count, Number.toInt count with
    | .error f, _ => (m, some f)
    | .ok false, _ => (m.erase path, none)
    | .ok true, .error f => (m, some f)
    | .ok true, .ok n => (m.insert path n, none)
  | .remove path => (m.erase path, none)
  | .clear => (∅, none)
  | .load p w =>
    match (Store.load p).outcome w with
    | .ok s => (s.counts, none)
    | .error f => (m, some f)

/-- The map after an operation. -/
def Op.mapAfter (m : CountMap) (op : Op) : CountMap :=
  (op.onMap m).1

/-- An operation does on the map what it does on the entries. -/
theorem counts_run (h : s.Ordered) (op : Op) :
    ((op.run s).1.counts, (op.run s).2) = op.onMap s.counts := by
  cases op with
  | replace v =>
    cases v with
    | obj fields =>
      unfold Op.run Op.onMap replaceAll
      dsimp only
      cases countsOf fields with
      | error f => rfl
      | ok counts => exact Prod.ext (counts_ofCounts counts) rfl
    | _ => rfl
  | set path count =>
    unfold Op.run Op.onMap setValue
    dsimp only
    cases Number.isPositive count with
    | error f => rfl
    | ok b =>
      cases b with
      | false => exact Prod.ext (counts_remove h) rfl
      | true =>
        cases Number.toInt count with
        | error f => rfl
        | ok n => exact Prod.ext (counts_put h) rfl
  | remove path => exact Prod.ext (counts_remove h) rfl
  | clear => rfl
  | load p w =>
    unfold Op.run Op.onMap
    dsimp only
    cases (Store.load p).outcome w <;> rfl

/-- Store and map go side by side through any sequence of operations. -/
theorem counts_after (h : s.Ordered) (ops : List Op) :
    (s.after ops).counts = ops.foldl Op.mapAfter s.counts := by
  induction ops generalizing s with
  | nil => rfl
  | cons op ops ih =>
    have hafter : (op.after s).Ordered := by
      unfold Op.after
      rcases op.run_cases s with ⟨s', hr, hmakes⟩ | ⟨f, hr⟩ <;> rw [hr]
      · exact h.makes hmakes
      · exact h
    have hstep : (s.after (op :: ops)).counts = ((op.after s).after ops).counts := rfl
    have hmap : (op.after s).counts = op.mapAfter s.counts := congrArg Prod.fst (counts_run h op)
    rw [hstep, ih hafter, hmap, List.foldl_cons]

/-- The map that a new store starts with. -/
def initialMap (v : Json) : Except Fault CountMap :=
  if v.isTruthy then Fault.unlessRefused ((Op.replace v).onMap ∅) else .ok ∅

theorem counts_ofInitial (v : Json) : (ofInitial v).map counts = initialMap v := by
  have hrun := counts_run ordered_empty (.replace v)
  unfold ofInitial initialMap
  split
  · rw [show (∅ : CountMap) = empty.counts from rfl, ← hrun, Op.run]
    rcases replaceAll_cases empty v with ⟨_, hr⟩ | ⟨f, hr⟩ <;> rw [hr] <;> rfl
  · rfl

/-! ## One path, and no path -/

/-- The path that an operation is about. -/
def Op.path? : Op → Option String
  | .set path _ | .remove path => some path
  | _ => none

/-- An operation on a path leaves the counts of the others alone. -/
theorem get?_run (h : s.Ordered) (hp : op.path? = some path) (hne : other ≠ path) :
    (op.run s).1.get? other = s.get? other := by
  rcases op.run_cases s with ⟨s', hr, hmakes⟩ | ⟨f, hr⟩ <;> rw [hr]
  cases hmakes with
  | put p =>
    obtain rfl := Option.some.inj hp
    rw [get?_put h, if_neg hne]
  | drop p | remove p =>
    obtain rfl := Option.some.inj hp
    rw [get?_remove h, if_neg hne]
  | replace | clear | load => cases hp

/-- The value cannot be read as a whole number. -/
def Uncountable : Json → Prop
  | .null | .arr _ | .obj _ => True
  | .str text => Number.readInt? text.toList = none
  | .real x => Decimal.Binary.ofFloat x = .nan ∨ ∃ sign, Decimal.Binary.ofFloat x = .infinite sign
  | .int _ | .bool _ => False

theorem toInt_eq_error_iff (v : Json) : (∃ f, Number.toInt v = .error f) ↔ Uncountable v := by
  cases v with
  | null | arr | obj => simp [Number.toInt, Uncountable]
  | int | bool => simp [Number.toInt, Uncountable]
  | str text => cases hr : Number.readInt? text.toList <;> simp [Number.toInt, Uncountable, hr]
  | real x =>
    cases hb : Decimal.Binary.ofFloat x with
    | nan | infinite =>
      simp only [Number.toInt, Uncountable, hb, Decimal.Binary.truncate?]
      split <;> simp
    | finite => simp [Number.toInt, Uncountable, hb, Decimal.Binary.truncate?]

theorem countsOf_eq_error_iff (fields : List (String × Json)) :
    (∃ f, countsOf fields = .error f) ↔ ∃ field ∈ fields, Uncountable field.2 := by
  induction fields with
  | nil => simp [countsOf, pure, Except.pure]
  | cons field fields ih =>
    obtain ⟨path, v⟩ := field
    have hstep : countsOf ((path, v) :: fields) = do
        let n ← Number.toInt v
        let rest ← countsOf fields
        return (path, n) :: rest := by
      unfold countsOf
      rw [List.mapM_cons]
      dsimp only
      cases Number.toInt v <;> rfl
    rw [hstep, List.exists_mem_cons_iff, ← toInt_eq_error_iff v, ← ih]
    cases Number.toInt v with
    | error f => simp [bind, Except.bind]
    | ok n => cases countsOf fields <;> simp [bind, Except.bind, pure, Except.pure]

theorem isPositive_eq_error_iff (v : Json) :
    (∃ f, Number.isPositive v = .error f) ↔ Number.ofJson? v = none := by
  cases v <;> simp [Number.isPositive, Number.ofJson?]

/-- What an operation is refused for: a value that is no count, one that cannot be compared with
zero, something else than a mapping, or trouble with a file. -/
def Op.Refused : Op → Prop
  | .replace (.obj fields) => ∃ field ∈ fields, Uncountable field.2
  | .replace _ => True
  | .set _ count =>
    Number.ofJson? count = none ∨ Number.isPositive count = .ok true ∧ Uncountable count
  | .remove _ | .clear => False
  | .load p w => ∃ f, (Store.load p).outcome w = .error f

theorem isSome_run_iff (s : Store) (op : Op) : (op.run s).2.isSome = true ↔ op.Refused := by
  cases op with
  | replace v =>
    cases v with
    | obj fields =>
      rw [Op.run, replaceAll, Op.Refused, ← countsOf_eq_error_iff]
      cases countsOf fields <;> simp
    | _ => simp [Op.run, replaceAll, Op.Refused]
  | set path count =>
    rw [Op.run, Op.Refused, ← isPositive_eq_error_iff, ← toInt_eq_error_iff, setValue]
    cases Number.isPositive count with
    | error f => simp
    | ok b =>
      cases b with
      | false => simp
      | true => cases Number.toInt count <;> simp
  | remove path | clear => simp [Op.run, Op.Refused]
  | load p w =>
    rw [Op.run, Op.Refused]
    cases (Store.load p).outcome w <;> simp

/-- A store refines a finite map. It starts as the map of its initial counts and goes along with it
through any sequence of operations, and all that it shows is read off the map. An operation on a
path changes the count of that path only, and an operation that is refused, which happens for a
value that is no count or no number only, changes nothing. -/
theorem refines_map (h : ofInitial v = .ok s₀) (ops : List Op) :
    ∃ m₀, initialMap v = .ok m₀ ∧
      (s₀.after ops).Shows (ops.foldl Op.mapAfter m₀) ∧
      (∀ (op : Op) (path : String), op.path? = some path →
        ∀ other ≠ path, (op.run (s₀.after ops)).1.get? other = (s₀.after ops).get? other) ∧
      (∀ op : Op, (op.run (s₀.after ops)).2.isSome = true ↔ op.Refused) ∧
      ∀ op : Op, op.Refused → (op.run (s₀.after ops)).1 = s₀.after ops := by
  have ho := ordered_after h ops
  have ho₀ : s₀.Ordered := ordered_after h []
  refine ⟨s₀.counts, ?_, ?_, fun op path hp other => get?_run ho hp, isSome_run_iff _, ?_⟩
  · rw [← counts_ofInitial, h]
    rfl
  · rw [← counts_after ho₀ ops]
    exact ho.shows
  · intro op hop
    have hsome := (isSome_run_iff (s₀.after ops) op).2 hop
    rcases op.run_cases (s₀.after ops) with ⟨s', hr, -⟩ | ⟨f, hr⟩
    · rw [hr] at hsome
      cases hsome
    · rw [hr]

/-- `refines_map` after operations of which one is refused. -/
theorem refines_map_some :
    ∃ m₀, initialMap (.obj [("b.js", .int 2), ("a.js", .str " 3 ")]) = .ok m₀ ∧
      ((Store.mk [("a.js", 3), ("b.js", 2)]).after [.set "a.js" .null, .remove "b.js"]).Shows
        ([Op.set "a.js" .null, Op.remove "b.js"].foldl Op.mapAfter m₀) := by
  have hinitial : ofInitial (.obj [("b.js", .int 2), ("a.js", .str " 3 ")]) =
      .ok ⟨[("a.js", 3), ("b.js", 2)]⟩ :=
    rfl
  obtain ⟨m₀, hm, hs, -⟩ := refines_map hinitial [.set "a.js" .null, .remove "b.js"]
  exact ⟨m₀, hm, hs⟩

end ConsoleSweep.Store
