/-
  A look of a watch, step by step.

  What a look sees is when the files below the root were last written (`sight`), which it
  compares with what was seen before. It drops what is gone, and scans all files if changes
  have been awaited for long enough. None of these steps is given up or changes a file, so a
  look comes to the point where the store is told (`run_poll`).
-/
import ConsoleSweep.Proofs.Scan
import ConsoleSweep.Watch

namespace ConsoleSweep.Watcher

open Sweep Disk

variable {w : Watcher} {s : Store} {d d' : Disk} {W : World} {root path : String}
  {settings : CleanerSettings} {files files' paths methods : List String} {stamp : Stamp}

/-! ## Snapshots -/

/-- When each of some files was last written. -/
def stamps (d : Disk) (files : List String) : List (String × Stamp) :=
  files.filterMap fun p => (stampOf? d p).map fun s => (p, s)

theorem mem_stamps : (path, stamp) ∈ stamps d files ↔
    path ∈ files ∧ stampOf? d path = some stamp := by
  unfold stamps
  rw [List.mem_filterMap]
  constructor
  · rintro ⟨p, hp, he⟩
    obtain ⟨s, hs, heq⟩ := Option.map_eq_some_iff.1 he
    obtain ⟨rfl, rfl⟩ := Prod.mk.inj heq
    exact ⟨hp, hs⟩
  · rintro ⟨hp, hs⟩
    exact ⟨path, hp, by rw [hs]; rfl⟩

/-- A path has one entry, or as many as it is listed, all the same. -/
theorem lookup_stamps : (stamps d files).lookup path = some stamp ↔
    path ∈ files ∧ stampOf? d path = some stamp := by
  constructor
  · exact fun h => mem_stamps.1 (mem_of_lookup h)
  · intro h
    cases hl : (stamps d files).lookup path with
    | none =>
      have hne := List.lookup_eq_none_iff.1 hl _ (mem_stamps.2 h)
      simp at hne
    | some other =>
      have hother := (mem_stamps.1 (mem_of_lookup hl)).2
      rw [h.2] at hother
      exact hother.symm

/-- A text has a stamp. -/
theorem stampOf?_of_text? {text : List Char} (h : d.text? path = some text) :
    ∃ stamp, stampOf? d path = some stamp := by
  obtain ⟨f, hf, -⟩ := Option.bind_eq_some_iff.1 h
  refine ⟨f.stamp, ?_⟩
  unfold stampOf? stat
  rw [file?_eq_some.1 hf]

theorem text?_of_read (h : d'.read path = d.read path) : d'.text? path = d.text? path := by
  have key : ∀ d : Disk, d.text? path =
      (d.read path).toOption.bind fun bytes => (Text.decode bytes).toOption := by
    intro d
    cases hr : d.read path with
    | ok bytes =>
      obtain ⟨f, hf, rfl⟩ := read_eq_ok hr
      unfold text?
      rw [hf]
      rfl
    | error e =>
      unfold text?
      cases hf : d.file? path with
      | none => rfl
      | some f =>
        rw [read_of_file? hf] at hr
        cases hr
  rw [key, key, h]

theorem run_snapshot (settings : CleanerSettings) (hW : W.Quiet) (hroot : Path.Normal root) (hn : '\x00' ∉ root.toList) :
    ∃ W', (snapshot root settings).run.run W =
      (.ok (stamps W.disk (Scan.listed W.disk settings root)), W') ∧ W.Still W' := by
  obtain ⟨W₁, hr₁, h₁⟩ := Scan.run_sources settings hW
    (outcome_absolute_of_normal hroot) hn
  refine ⟨W₁, ?_, h₁⟩
  unfold snapshot
  rw [run_bind_eq hr₁, run_bind_eq (run_world W₁), h₁.disk]
  rfl

/-! ## Differences -/

theorem mem_sorted {paths : List String} : path ∈ sorted paths ↔ path ∈ paths :=
  List.mem_mergeSort

variable {before after : List (String × Stamp)}

theorem mem_deleted : path ∈ (compare before after).deleted ↔
    path ∈ before.map (·.1) ∧ after.lookup path = none := by
  unfold compare
  rw [mem_sorted, List.mem_map]
  constructor
  · rintro ⟨e, he, rfl⟩
    obtain ⟨he, hnone⟩ := List.mem_filter.1 he
    exact ⟨List.mem_map_of_mem he, Option.isNone_iff_eq_none.1 hnone⟩
  · rintro ⟨hmem, hnone⟩
    obtain ⟨e, he, rfl⟩ := List.mem_map.1 hmem
    exact ⟨e, List.mem_filter.2 ⟨he, Option.isNone_iff_eq_none.2 hnone⟩, rfl⟩

/-- If nothing is new and nothing has changed, all that there is was there before. -/
theorem lookup_of_unchanged (hc : (compare before after).created = [])
    (hm : (compare before after).modified = []) (h : (path, stamp) ∈ after) :
    before.lookup path = some stamp := by
  cases hl : before.lookup path with
  | none =>
    have hmem : path ∈ (compare before after).created := by
      unfold compare
      rw [mem_sorted]
      refine List.mem_map.2 ⟨(path, stamp), List.mem_filter.2 ⟨h, ?_⟩, rfl⟩
      simp [hl]
    rw [hc] at hmem
    simp at hmem
  | some other =>
    by_cases heq : other = stamp
    · rw [heq]
    · have hmem : path ∈ (compare before after).modified := by
        unfold compare
        rw [mem_sorted]
        refine List.mem_map.2 ⟨(path, stamp), List.mem_filter.2 ⟨h, ?_⟩, rfl⟩
        simp [hl, heq]
      rw [hm] at hmem
      simp at hmem

/-! ## What a look does -/

/-- The store without the entries of some paths. -/
def without (s : Store) (paths : List String) : Store :=
  ⟨s.items.filter fun e => !paths.contains e.1⟩

/-- If there are no paths to drop, the store is as it was. -/
theorem without_nil (s : Store) {paths : List String} (h : paths.isEmpty = true) :
    without s paths = s := by
  rw [List.isEmpty_iff.1 h]
  exact congrArg Store.mk (List.filter_eq_self.2 fun _ _ => rfl)

theorem run_dropDeleted (hW : W.Quiet) (s : Store) (paths : List String) :
    ∃ W', (dropDeleted s paths).run.run W = (.ok (without s paths), W') ∧ W.Still W' := by
  induction paths generalizing W s with
  | nil =>
    rw [without_nil s rfl]
    exact ⟨W, rfl, .refl hW⟩
  | cons path rest ih =>
    have hboth : without (s.remove path) rest = without s (path :: rest) := by
      unfold without Store.remove
      rw [List.filter_filter]
      refine congrArg Store.mk (List.filter_congr fun e _ => ?_)
      by_cases he : e.1 = path <;> simp [he]
    rw [dropDeleted]
    split
    · obtain ⟨_, W₁, hr₁, h₁⟩ :=
        (calm_log logger Log.info ("Dropped deleted file from results: " ++ path)).still hW
      obtain ⟨W₂, hr₂, h₂⟩ := ih h₁.quiet (s.remove path)
      rw [hboth] at hr₂
      exact ⟨W₂, (run_bind_eq hr₁ _).trans hr₂, h₁.trans h₂⟩
    · rw [← hboth]
      exact ih hW (s.remove path)

/-- Whether changes have been awaited for long enough is always known, if times can be
subtracted. -/
theorem isDue_eq_ok {now limit : Number} (hl : w.debounce = some limit)
    (hn : now.isFloatable = true)
    (hp : ∀ since, w.pendingSince = some since → since.isFloatable = true) :
    ∃ due, w.isDue now = .ok due := by
  unfold isDue
  cases hs : w.pendingSince with
  | none => exact ⟨false, rfl⟩
  | some since =>
    have hsum : now.isSummable since = true := by
      unfold Number.isSummable
      split
      · rfl
      · rw [hn, hp since hs]
        rfl
    refine ⟨limit.le (now - since), ?_⟩
    have hminus : now.minus since = .ok (now - since) := if_pos hsum
    dsimp only
    rw [hminus, hl]
    rfl

theorem listed_eq_nil (hdir : (Sweep.isDirectory root).outcome W = .ok false)
    (hn : '\x00' ∉ root.toList) : Scan.listed W.disk settings root = [] := by
  have hstat : W.disk.stat root ≠ .ok .dir := by
    intro hs
    have hnode : (nodeAt? root).run.run W = (.ok (some .dir), W) := by
      unfold nodeAt?
      rw [if_neg (by simpa using hn), run_bind_eq (run_world W), hs]
      rfl
    have hyes : (Sweep.isDirectory root).run.run W = (.ok true, W) := run_bind_eq hnode _
    rw [Sweep.outcome, hyes] at hdir
    cases hdir
  have hwalk : ∃ e, W.disk.walk settings.ignored root = .error e := by
    unfold stat at hstat
    unfold walk
    split
    · next hl => rw [hl] at hstat; exact absurd rfl hstat
    · exact ⟨_, rfl⟩
    · next hl => rw [hl] at hstat; exact absurd rfl hstat
    · exact ⟨_, rfl⟩
    · exact ⟨_, rfl⟩
  obtain ⟨e, he⟩ := hwalk
  unfold Scan.listed sources
  rw [he]
  rfl

/-- A scan of a root that is its own real path. -/
theorem run_scan_real (settings : CleanerSettings) {real : Path} (hW : W.Quiet) (hd : W.disk.Proper)
    (hroot : Path.Normal root) (hn : '\x00' ∉ root.toList)
    (hreal : (Sweep.resolve (Path.ofString root)).outcome W = .ok real)
    (hsame : real.text = root) (hdir : (Sweep.isDirectory root).outcome W = .ok true) :
    ∃ summary W', (Scan.run root settings fun _ => pure ()).run.run W =
      (.ok (Scan.recorded W.disk settings.methods (Scan.listed W.disk settings root), summary),
        W') ∧ W.Still W' := by
  refine Scan.run_scan settings hW hd (fun _ => calm_pure ()) (run_resolve hreal) ?_ ?_ hn
  · rw [hsame]
    exact run_isDirectory hdir
  · rw [hsame]
    exact outcome_absolute_of_normal hroot

/-- The store of a scan of the tree. -/
def scanned (w : Watcher) (d : Disk) : Store :=
  Scan.recorded d w.settings.methods (Scan.listed d w.settings w.root)

theorem run_rescan {real : Path} {b : Bool} (hW : W.Quiet) (hd : W.disk.Proper)
    (hroot : Path.Normal w.root) (hn : '\x00' ∉ w.root.toList)
    (hreal : (Sweep.resolve (Path.ofString w.root)).outcome W = .ok real)
    (hsame : real.text = w.root) (hdir : (Sweep.isDirectory w.root).outcome W = .ok b) :
    ∃ W', w.rescan.run.run W = (.ok (if b then some (w.scanned W.disk) else none), W') ∧
      W.Still W' := by
  have attempted := run_attempt (Scan.run w.root w.settings fun _ => pure ()) W
  unfold rescan
  cases b with
  | true =>
    obtain ⟨summary, W₁, hr₁, h₁⟩ := run_scan_real w.settings hW hd hroot hn hreal hsame hdir
    rw [hr₁] at attempted
    exact ⟨W₁, run_bind_eq attempted _, h₁⟩
  | false =>
    have hfail : (Scan.run w.root w.settings fun _ => pure ()).run.run W =
        (.error (.noDirectory w.root), W) := by
      unfold Scan.run
      rw [run_bind_eq (run_resolve hreal)]
      dsimp only
      rw [hsame, run_bind_eq (run_isDirectory hdir)]
      rfl
    rw [hfail] at attempted
    obtain ⟨_, W₁, hr₁, h₁⟩ := (calm_log logger Log.warning
      ("Rescan skipped: " ++ (Fault.noDirectory w.root).message)).still hW
    exact ⟨W₁, (run_bind_eq attempted _).trans (run_bind_eq hr₁ _), h₁⟩

/-! ## A look -/

/-- What a look at the tree sees. -/
def sight (w : Watcher) (d : Disk) : List (String × Stamp) :=
  stamps d (Scan.listed d w.settings w.root)

/-- How the tree differs from what was seen. -/
def differences (w : Watcher) (d : Disk) : Tick :=
  compare w.seen (w.sight d)

/-- The watch after the differences were noted. -/
def noted (w : Watcher) (d : Disk) (now : Number) : Watcher :=
  w.note (w.sight d) (w.differences d) now

/-- The end of a look: the store is told, if something was dropped from it or it was scanned
anew. -/
def tell (w : Watcher) (s : Store) (t : Tick) (onUpdate : Store → Sweep Unit) :
    Sweep (Watcher × Store × Except Fault Tick) := do
  if t.deleted.isEmpty && !t.rescanned then return (w, s, .ok t)
  match ← Sweep.attempt (onUpdate s) with
  | .ok _ => return (w, s, .ok t)
  | .error f => return (w, s, .error f)

/-- The watch after a look, which may have been the end of a wait. -/
def settled (w : Watcher) (due : Bool) : Watcher :=
  if due then { w with pendingSince := none } else w

@[simp] theorem root_settled (w : Watcher) (due : Bool) : (w.settled due).root = w.root := by
  cases due <;> rfl

@[simp] theorem settings_settled (w : Watcher) (due : Bool) :
    (w.settled due).settings = w.settings := by
  cases due <;> rfl

@[simp] theorem debounce_settled (w : Watcher) (due : Bool) :
    (w.settled due).debounce = w.debounce := by
  cases due <;> rfl

@[simp] theorem seen_settled (w : Watcher) (due : Bool) : (w.settled due).seen = w.seen := by
  cases due <;> rfl

theorem pendingSince_noted {now : Number} {since : Option Number}
    (h : (w.noted d now).pendingSince = since) :
    ((w.differences d).created = [] ∧ (w.differences d).modified = [] ∧ w.pendingSince = since) ∨
      since = some now := by
  unfold noted note at h
  dsimp only at h
  split at h
  · next hnone =>
    rw [Bool.and_eq_true, List.isEmpty_iff, List.isEmpty_iff] at hnone
    exact .inl ⟨hnone.1, hnone.2, h⟩
  · exact .inr h.symm

/-- A wait starts at a time that was read from the clock. -/
theorem isFloatable_of_noted {now since : Number}
    (hp : ∀ since, w.pendingSince = some since → since.isFloatable = true)
    (hn : now.isFloatable = true) (h : (w.noted d now).pendingSince = some since) :
    since.isFloatable = true := by
  rcases pendingSince_noted h with ⟨-, -, hold⟩ | hnew
  · exact hp since hold
  · exact Option.some.inj hnew ▸ hn

/-- A look up to the point where the store is told, if it is known what a scan comes to. -/
theorem run_poll {now : Number} {due : Bool} (s : Store) (found : Option Store) (hW : W.Quiet)
    (hroot : Path.Normal w.root) (hn : '\x00' ∉ w.root.toList)
    (hdue : (w.noted W.disk now).isDue now = .ok due) (hnone : due = false → found = none)
    (hscan : due = true → ∀ W₁, W.Still W₁ → ∃ W₂,
      ((w.noted W.disk now).settled true).rescan.run.run W₁ = (.ok found, W₂) ∧ W₁.Still W₂) :
    ∃ W', W.Still W' ∧ ∀ onUpdate, (w.poll s now onUpdate).run.run W =
      (tell ((w.noted W.disk now).settled due)
        (found.getD (without s (w.differences W.disk).deleted))
        { w.differences W.disk with rescanned := found.isSome } onUpdate).run.run W' := by
  unfold noted differences sight at *
  obtain ⟨W₁, hr₁, h₁⟩ := run_snapshot w.settings hW hroot hn
  generalize stamps W.disk (Scan.listed W.disk w.settings w.root) = seen at *
  obtain ⟨W₂, hr₂, h₂⟩ := run_dropDeleted h₁.quiet s (compare w.seen seen).deleted
  have h₁₂ := h₁.trans h₂
  unfold poll
  cases due with
  | false =>
    obtain rfl := hnone rfl
    refine ⟨W₂, h₁₂, fun onUpdate => ?_⟩
    rw [run_bind_eq hr₁]
    dsimp only
    rw [run_bind_eq hr₂, hdue]
    rfl
  | true =>
    obtain ⟨W₃, hr₃, h₃⟩ := hscan rfl W₂ h₁₂
    refine ⟨W₃, h₁₂.trans h₃, fun onUpdate => ?_⟩
    have attempted :=
      run_attempt ((w.note seen (compare w.seen seen) now).settled true).rescan W₂
    rw [hr₃] at attempted
    rw [run_bind_eq hr₁]
    dsimp only
    rw [run_bind_eq hr₂, hdue]
    exact run_bind_eq attempted _

theorem outcome_tell (W : World) (w : Watcher) (s : Store) (t : Tick)
    (onUpdate : Store → Sweep Unit) :
    ∃ result, (tell w s t onUpdate).outcome W = .ok (w, s, result) := by
  unfold tell
  split
  · exact ⟨_, rfl⟩
  · have attempted := run_attempt (onUpdate s) W
    unfold outcome
    rw [run_bind_eq attempted]
    split
    · exact ⟨_, rfl⟩
    · exact ⟨_, rfl⟩

/-- If there is something to tell, the look ends with it. -/
theorem after_tell (W : World) (w : Watcher) (s : Store) {t : Tick}
    (ht : (t.deleted.isEmpty && !t.rescanned) = false) (onUpdate : Store → Sweep Unit) :
    (tell w s t onUpdate).after W = (onUpdate s).after W := by
  have attempted := run_attempt (onUpdate s) W
  unfold tell after
  rw [ht, if_neg (by simp), run_bind_eq attempted]
  split <;> rfl

end ConsoleSweep.Watcher
