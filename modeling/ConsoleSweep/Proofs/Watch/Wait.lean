/-
  How long a watch waits before it scans again.

  A watch keeps one time only, that of the last changes which are still awaited. Over a whole
  run it stands for the last look that has found something new or changed, as long as no scan
  was attempted since (`Awaited`, `pendingSince_watch`). So a look attempts a scan just if
  there is such a look and it was long enough ago (`rescan_exactly_after_wait`).

  An attempt is told from outside: what the look comes to is not the same for all scans
  (`Attempts`). The surroundings may change from one look to the next in any way.
-/
import ConsoleSweep.Proofs.Disk.Logged
import ConsoleSweep.Proofs.Watch.Run

namespace ConsoleSweep

open Sweep

/-! ## Scans beside the log -/

theorem Sweep.Calm.exists_outcome {α : Type} {work : Sweep α} {w : World} (h : Calm work)
    (hw : w.Sound) : ∃ a, work.outcome w = .ok a := by
  obtain ⟨a, w', hr, -⟩ := h w hw
  exact ⟨a, congrArg Prod.fst hr⟩

namespace Scan

variable {w : World} {root path : String} {files : List String} {settings : CleanerSettings}
  {progress : Nat → Sweep Unit}

theorem calm_readFile (methods : List String) (hn : '\x00' ∉ path.toList) (t : Tally) :
    Calm (readFile methods { t with scanned := t.scanned + 1 } path) := by
  intro w hw
  have hread : ∃ w', _ ∧ GoesOn (fun _ => pure ()) t _ w w' := run_readFile methods hw hn t
  obtain ⟨w', hr, h⟩ := hread
  exact ⟨_, w', hr, h.later⟩

/-- A file is looked at, be it a log or not. -/
theorem calm_scanFile (methods : List String) (hp : ∀ n, Calm (progress n))
    (hn : '\x00' ∉ path.toList) (t : Tally) : Calm (scanFile methods progress t path) := by
  have hread := calm_readFile methods hn t
  unfold scanFile
  dsimp only
  split
  · exact (hp _).bind fun _ => hread
  · exact hread

theorem calm_scanFiles (methods : List String) (hp : ∀ n, Calm (progress n))
    (hn : ∀ path ∈ files, '\x00' ∉ path.toList) (t : Tally) :
    Calm (files.foldlM (scanFile methods progress) t) := by
  induction files generalizing t with
  | nil => exact calm_pure t
  | cons path files ih =>
    obtain ⟨hpath, hrest⟩ := List.forall_mem_cons.1 hn
    exact (calm_scanFile methods hp hpath t).bind fun t => ih hrest t

/-- A scan comes to an end just if its root leads to a directory. -/
theorem outcome_run_iff (settings : CleanerSettings) (hw : w.Orderly)
    (hp : ∀ n, Calm (progress n)) :
    (∃ result, (run root settings progress).outcome w = .ok result) ↔ LeadsToDirectory root w := by
  constructor
  · rintro ⟨result, h⟩
    obtain ⟨real, hreal, h⟩ := outcome_bind_eq_ok h
    have hafter : (Sweep.resolve (Path.ofString root)).after w = w :=
      congrArg Prod.snd (run_resolve hreal)
    rw [hafter] at h
    obtain ⟨b, hdir, h⟩ := outcome_bind_eq_ok h
    cases b with
    | false => rw [after_isDirectory] at h; cases h
    | true => exact ⟨real, hreal, hdir⟩
  · rintro ⟨real, hreal, hdir⟩
    have hnormal := normal_of_resolve hw.proper hw.workDir hreal
    obtain ⟨hn, -⟩ := stat_of_isDirectory hdir
    obtain ⟨m, w₁, hr₁, -, h₁⟩ := run_metrics hw.sound
    obtain ⟨w₂, hr₂, h₂, -⟩ := run_sources_of_sound settings h₁.sound
      (outcome_absolute_of_normal hnormal) hn
    have hlisted := nul_not_mem_listed settings (hw.later h₁).proper hn
    unfold run outcome
    rw [run_bind_eq (run_resolve hreal)]
    dsimp only
    rw [run_bind_eq (run_isDirectory hdir)]
    simp only [Bool.not_true, Bool.false_eq_true, if_false]
    rw [run_bind_eq hr₁, run_bind_eq hr₂]
    refine Calm.exists_outcome (Calm.bind ?_ fun t => ?_) h₂.sound
    · exact calm_scanFiles settings.methods hp hlisted {}
    · exact (calm_log logger Log.info _).bind fun _ => calm_pure _

end Scan

namespace Watcher

variable {w w' : Watcher} {s s' : Store} {W : World} {t tick : Tick} {now limit : Number}
  {scan : Watcher → Sweep (Option Store)} {onUpdate : Store → Sweep Unit}

theorem calm_snapshot (settings : CleanerSettings) {root : String} (hroot : Path.Normal root)
    (hn : '\x00' ∉ root.toList) : Calm (snapshot root settings) := by
  intro W hW
  obtain ⟨W₁, hr₁, h₁, -⟩ :=
    Scan.run_sources_of_sound settings hW (outcome_absolute_of_normal hroot) hn
  refine ⟨stamps W₁.disk (Scan.listed W.disk settings root), W₁, ?_, h₁⟩
  unfold snapshot
  rw [run_bind_eq hr₁, run_bind_eq (run_world W₁)]
  rfl

theorem calm_dropDeleted (s : Store) (paths : List String) : Calm (dropDeleted s paths) := by
  induction paths generalizing s with
  | nil => exact calm_pure s
  | cons path rest ih =>
    unfold dropDeleted
    split
    · exact (calm_log _ _ _).bind fun _ => ih _
    · exact ih _

/-- A scan is done just if the root leads to a directory. -/
theorem outcome_rescan_iff (w : Watcher) (hW : W.Orderly) :
    (∃ found, w.rescan.outcome W = .ok (some found)) ↔ LeadsToDirectory w.root W := by
  rw [← Scan.outcome_run_iff w.settings hW fun _ => calm_pure ()]
  have attempted := run_attempt (Scan.run w.root w.settings fun _ => pure ()) W
  unfold rescan outcome
  rw [run_bind_eq attempted]
  cases hrun : (Scan.run w.root w.settings fun _ => pure ()).outcome W with
  | ok result =>
    unfold outcome at hrun
    rw [hrun]
    exact ⟨fun _ => ⟨result, rfl⟩, fun _ => ⟨result.1, rfl⟩⟩
  | error f =>
    unfold outcome at hrun
    rw [hrun]
    refine ⟨?_, by simp⟩
    rintro ⟨found, h⟩
    dsimp only at h
    split at h
    · obtain ⟨_, hlog, h⟩ := outcome_bind_eq_ok h
      cases h
    · cases h

/-! ## The end of a look -/

/-- Whether changes were awaited for long enough; no, if it cannot be told. -/
def isOver (w : Watcher) (now : Number) : Bool :=
  match w.isDue now with
  | .ok due => due
  | .error _ => false

theorem isOver_iff (hl : w.debounce = some limit) : w.isOver now = true ↔
    ∃ since, w.pendingSince = some since ∧
      ∃ waited, now.minus since = .ok waited ∧ limit.le waited = true := by
  unfold isOver isDue
  cases w.pendingSince with
  | none => simp
  | some since =>
    rw [hl]
    cases hm : now.minus since with
    | error f => simp [hm, bind, Except.bind]
    | ok waited => simp [hm, bind, Except.bind, pure, Except.pure]

/-- The end of a look, from the time when the differences were noted, with a scan to choose. -/
def conclude (scan : Watcher → Sweep (Option Store)) (w : Watcher) (s : Store) (t : Tick)
    (now : Number) (onUpdate : Store → Sweep Unit) :
    Sweep (Watcher × Store × Except Fault Tick) := do
  match w.isDue now with
  | .error f => return (w, s, .error f)
  | .ok due =>
    match ← Sweep.attempt (if due then scan (w.settled due) else pure none) with
    | .error f => return (w.settled due, s, .error f)
    | .ok found => tell (w.settled due) (found.getD s) { t with rescanned := found.isSome } onUpdate

/-- Where nothing is due, the scan does not matter. -/
theorem conclude_of_not_over (s : Store) (t : Tick) (onUpdate : Store → Sweep Unit)
    (h : w.isOver now = false) : ∃ result, ∀ scan,
    conclude scan w s t now onUpdate = match result with
      | some f => pure (w, s, .error f)
      | none => tell w s { t with rescanned := false } onUpdate := by
  unfold conclude
  unfold isOver at h
  cases hdue : w.isDue now with
  | error f => exact ⟨some f, fun scan => rfl⟩
  | ok due =>
    rw [hdue] at h
    obtain rfl : due = false := h
    exact ⟨none, fun scan => rfl⟩

/-- The scan that is due, and what is told of it. -/
theorem run_conclude_of_over (h : w.isOver now = true) :
    (conclude scan w s t now onUpdate).run.run W =
      match (scan (w.settled true)).run.run W with
      | (.error f, W') => (.ok (w.settled true, s, .error f), W')
      | (.ok found, W') => (tell (w.settled true) (found.getD s)
          { t with rescanned := found.isSome } onUpdate).run.run W' := by
  have hdue : w.isDue now = .ok true := by
    unfold isOver at h
    cases hd : w.isDue now with
    | error f => rw [hd] at h; cases h
    | ok due => rw [hd] at h; exact congrArg Except.ok h
  have attempted := run_attempt (scan (w.settled true)) W
  unfold conclude
  rw [hdue]
  dsimp only
  rw [if_pos rfl, run_bind_eq attempted]
  cases (scan (w.settled true)).run.run W with
  | mk r W' => cases r <;> rfl

/-- The watch after a look. -/
theorem outcome_conclude (scan : Watcher → Sweep (Option Store)) (w : Watcher) (s : Store)
    (t : Tick) (now : Number) (onUpdate : Store → Sweep Unit) (W : World) : ∃ s' result,
      (conclude scan w s t now onUpdate).outcome W =
        .ok (w.settled (w.isOver now), s', result) := by
  cases h : w.isOver now with
  | false =>
    obtain ⟨result, hresult⟩ := conclude_of_not_over s t onUpdate h
    rw [hresult]
    cases result with
    | some f => exact ⟨s, .error f, rfl⟩
    | none =>
      obtain ⟨result, hr⟩ := outcome_tell W w s { t with rescanned := false } onUpdate
      exact ⟨s, result, hr⟩
  | true =>
    unfold outcome
    rw [run_conclude_of_over h]
    split
    · exact ⟨s, _, rfl⟩
    · next found W' hr =>
      obtain ⟨result, hr⟩ :=
        outcome_tell W' (w.settled true) (found.getD s) { t with rescanned := found.isSome }
          onUpdate
      exact ⟨_, result, hr⟩

/-- A tick that is answered is the one that was to be told. -/
theorem tick_of_tell (h : (tell w s t onUpdate).outcome W = .ok (w', s', .ok tick)) : tick = t := by
  have hanswer : ∀ r, (Except.ok (w, s, r) : Except Fault (Watcher × Store × Except Fault Tick)) =
      .ok (w', s', .ok tick) → r = .ok tick := fun r hr =>
    (Prod.mk.inj (Prod.mk.inj (Except.ok.inj hr)).2).2
  unfold tell at h
  split at h
  · exact (Except.ok.inj (hanswer _ h)).symm
  · have attempted := run_attempt (onUpdate s) W
    unfold outcome at h
    rw [run_bind_eq attempted] at h
    split at h
    · exact (Except.ok.inj (hanswer _ h)).symm
    · cases hanswer _ h

/-- A store that is told without a fault. -/
theorem outcome_tell_of_told (ht : ∀ s W, ∃ u, (onUpdate s).outcome W = .ok u) :
    (tell w s t onUpdate).outcome W = .ok (w, s, .ok t) := by
  unfold tell
  split
  · rfl
  · obtain ⟨u, hu⟩ := ht s W
    have attempted := run_attempt (onUpdate s) W
    unfold outcome at hu ⊢
    rw [run_bind_eq attempted, hu]
    rfl

/-- A tick has the differences, and tells of a scan if there was one. -/
theorem tick_of_conclude (hW : W.Orderly)
    (h : (conclude rescan w s t now onUpdate).outcome W = .ok (w', s', .ok tick)) :
    tick.created = t.created ∧ tick.modified = t.modified ∧
      (tick.rescanned = true ↔ w.isOver now = true ∧ LeadsToDirectory w.root W) := by
  cases hover : w.isOver now with
  | false =>
    obtain ⟨result, hresult⟩ := conclude_of_not_over s t onUpdate hover
    rw [hresult] at h
    cases result with
    | some f => cases h
    | none =>
      obtain rfl := tick_of_tell h
      simp
  | true =>
    have hscan := outcome_rescan_iff (w.settled true) hW
    rw [root_settled] at hscan
    unfold outcome at h hscan
    rw [run_conclude_of_over hover] at h
    split at h
    · cases h
    · next found W' hr =>
      obtain rfl := tick_of_tell h
      rw [hr] at hscan
      refine ⟨rfl, rfl, ?_⟩
      rw [← hscan]
      cases found with
      | none => simp
      | some found => simp

/-- Where a scan is due and can be done, there is a tick, if the store can be told. -/
theorem exists_tick_of_conclude (hW : W.Orderly) (hover : w.isOver now = true)
    (hroot : LeadsToDirectory w.root W) (ht : ∀ s W, ∃ u, (onUpdate s).outcome W = .ok u) :
    ∃ w' s' tick, (conclude rescan w s t now onUpdate).outcome W = .ok (w', s', .ok tick) := by
  rw [← root_settled w true] at hroot
  obtain ⟨found, hfound⟩ := (outcome_rescan_iff (w.settled true) hW).2 hroot
  unfold outcome at hfound ⊢
  rw [run_conclude_of_over hover]
  split
  · next f W' hr => rw [hr] at hfound; cases hfound
  · exact ⟨_, _, _, outcome_tell_of_told ht⟩

/-! ## Looks in their surroundings -/

/-- A look with a scan to choose. -/
def pollWith (scan : Watcher → Sweep (Option Store)) (w : Watcher) (s : Store) (now : Number)
    (onUpdate : Store → Sweep Unit) : Sweep (Watcher × Store × Except Fault Tick) := do
  let seen ← snapshot w.root w.settings
  let t := compare w.seen seen
  let s ← dropDeleted s t.deleted
  conclude scan (w.note seen t now) s t now onUpdate

theorem poll_eq (w : Watcher) (s : Store) (now : Number) (onUpdate : Store → Sweep Unit) :
    w.poll s now onUpdate = pollWith rescan w s now onUpdate :=
  rfl

/-- The surroundings of a look: the tree and all else, the clock, the store as it is by then, and
what is done when the store is told. -/
structure Turn where
  world : World
  now : Number
  store : Store
  onUpdate : Store → Sweep Unit

variable {turn : Turn}

/-- What a look comes to, with a scan to choose. -/
def lookWith (scan : Watcher → Sweep (Option Store)) (w : Watcher) (turn : Turn) :
    Except Fault (Watcher × Store × Except Fault Tick) :=
  (pollWith scan w turn.store turn.now turn.onUpdate).outcome turn.world

/-- A look attempts a scan if it matters to the look which scan there is. -/
def Attempts (w : Watcher) (turn : Turn) : Prop :=
  ∃ scan scan', lookWith scan w turn ≠ lookWith scan' w turn

/-- What a look sees. -/
def view (w : Watcher) (W : World) : List (String × Stamp) :=
  ((snapshot w.root w.settings).outcome W).toOption.getD []

/-- What has changed since the look before. -/
def changes (w : Watcher) (turn : Turn) : Tick :=
  compare w.seen (w.view turn.world)

/-- Something is new, or was changed. -/
def Notices (w : Watcher) (turn : Turn) : Prop :=
  (w.changes turn).created ≠ [] ∨ (w.changes turn).modified ≠ []

/-- The watch once the changes were noted. -/
def awaiting (w : Watcher) (turn : Turn) : Watcher :=
  w.note (w.view turn.world) (w.changes turn) turn.now

/-- The root of a watch, as it is asked for when the watch starts. -/
structure Rooted (w : Watcher) : Prop where
  normal : Path.Normal w.root
  plain : '\x00' ∉ w.root.toList

/-- A look comes to its end, where the scan may be. -/
theorem run_pollWith (hw : w.Rooted) (hW : turn.world.Orderly) :
    ∃ s W', turn.world.Later Nowhere W' ∧ ∀ scan,
      (pollWith scan w turn.store turn.now turn.onUpdate).run.run turn.world =
        (conclude scan (w.awaiting turn) s (w.changes turn) turn.now turn.onUpdate).run.run W' := by
  obtain ⟨seen, W₁, hr₁, h₁⟩ := calm_snapshot w.settings hw.normal hw.plain turn.world hW.sound
  have hseen : w.view turn.world = seen := by
    unfold view outcome
    rw [hr₁]
    rfl
  obtain ⟨s, W₂, hr₂, h₂⟩ :=
    calm_dropDeleted turn.store (compare w.seen seen).deleted W₁ h₁.sound
  refine ⟨s, W₂, h₁.trans h₂, fun scan => ?_⟩
  unfold pollWith awaiting changes
  rw [run_bind_eq hr₁, hseen]
  exact run_bind_eq hr₂ _

/-- An attempt is made just if the wait is over. -/
theorem attempts_iff (hw : w.Rooted) (hW : turn.world.Orderly) :
    Attempts w turn ↔ (w.awaiting turn).isOver turn.now = true := by
  obtain ⟨s, W', -, hrun⟩ := run_pollWith hw hW
  unfold Attempts lookWith outcome
  simp only [hrun]
  constructor
  · rintro ⟨scan, scan', hne⟩
    by_contra hover
    obtain ⟨result, hresult⟩ := conclude_of_not_over s (w.changes turn) turn.onUpdate
      (Bool.not_eq_true _ ▸ hover)
    rw [hresult, hresult] at hne
    exact hne rfl
  · intro hover
    refine ⟨fun _ => fail .noWorkDir, fun _ => fail .unresolvable, ?_⟩
    rw [run_conclude_of_over hover, run_conclude_of_over hover]
    intro hsame
    cases hsame

/-! ## Runs -/

/-- The watch after a look. -/
def next (w : Watcher) (turn : Turn) : Watcher :=
  match (w.poll turn.store turn.now turn.onUpdate).outcome turn.world with
  | .ok (w', _, _) => w'
  | .error _ => w

/-- The watch before the `k`-th look of a run. -/
def watch (w : Watcher) (turns : ℕ → Turn) : ℕ → Watcher
  | 0 => w
  | k + 1 => (watch w turns k).next (turns k)

/-- A look always comes to a watch and a store, and notes what it has noticed. -/
theorem outcome_poll (hw : w.Rooted) (hW : turn.world.Orderly) : ∃ s' result,
    (w.poll turn.store turn.now turn.onUpdate).outcome turn.world =
      .ok ((w.awaiting turn).settled ((w.awaiting turn).isOver turn.now), s', result) := by
  obtain ⟨s, W', -, hrun⟩ := run_pollWith hw hW
  obtain ⟨s', result, hr⟩ := outcome_conclude rescan (w.awaiting turn) s (w.changes turn) turn.now
    turn.onUpdate W'
  refine ⟨s', result, ?_⟩
  rw [poll_eq, outcome, hrun]
  exact hr

theorem next_eq (hw : w.Rooted) (hW : turn.world.Orderly) :
    w.next turn = (w.awaiting turn).settled ((w.awaiting turn).isOver turn.now) := by
  obtain ⟨s', result, hr⟩ := outcome_poll hw hW
  unfold next
  rw [hr]

variable {turns : ℕ → Turn} {j k : ℕ}

theorem Rooted.next (hw : w.Rooted) (hW : turn.world.Orderly) :
    (w.next turn).Rooted ∧ (w.next turn).debounce = w.debounce := by
  rw [next_eq hw hW, debounce_settled]
  refine ⟨⟨?_, ?_⟩, rfl⟩
  · rw [root_settled]
    exact hw.normal
  · rw [root_settled]
    exact hw.plain

/-- The limit stays the same all along. -/
theorem Rooted.watch (hw : w.Rooted) (hW : ∀ i < k, (turns i).world.Orderly) :
    (watch w turns k).Rooted ∧ (watch w turns k).debounce = w.debounce := by
  induction k with
  | zero => exact ⟨hw, rfl⟩
  | succ k ih =>
    obtain ⟨hrooted, hlimit⟩ := ih fun i hi => hW i (by omega)
    obtain ⟨hnext, hsame⟩ := hrooted.next (hW k (by omega))
    exact ⟨hnext, hsame.trans hlimit⟩

/-- Of the looks before the `k`-th, the `j`-th is the last one that has noticed changes. -/
structure LastNotice (w : Watcher) (turns : ℕ → Turn) (j k : ℕ) : Prop where
  before : j < k
  noticed : (watch w turns j).Notices (turns j)
  last : ∀ i, j < i → i < k → ¬ (watch w turns i).Notices (turns i)

/-- From the `j`-th look on, no look before the `k`-th has attempted a scan. -/
def Unscanned (w : Watcher) (turns : ℕ → Turn) (j k : ℕ) : Prop :=
  ∀ i, j ≤ i → i < k → ¬ (watch w turns i).Attempts (turns i)

theorem lastNotice_succ_of_notices (h : (watch w turns k).Notices (turns k)) :
    LastNotice w turns j (k + 1) ↔ j = k := by
  constructor
  · intro hj
    by_contra hne
    have := hj.before
    exact hj.last k (by omega) (by omega) h
  · rintro rfl
    exact ⟨by omega, h, fun i hi hik => by omega⟩

theorem lastNotice_succ_of_not_notices (h : ¬ (watch w turns k).Notices (turns k)) :
    LastNotice w turns j (k + 1) ↔ LastNotice w turns j k := by
  constructor
  · intro hj
    have hne : j ≠ k := by
      rintro rfl
      exact h hj.noticed
    have := hj.before
    exact ⟨by omega, hj.noticed, fun i hi hik => hj.last i hi (by omega)⟩
  · intro hj
    refine ⟨by have := hj.before; omega, hj.noticed, fun i hi hik => ?_⟩
    rcases Nat.lt_succ_iff_lt_or_eq.1 hik with hik | rfl
    · exact hj.last i hi hik
    · exact h

/-- What is awaited when the changes of a look were noted, if this is known for the looks before. -/
theorem pendingSince_awaiting
    (h : ∀ since, (watch w turns k).pendingSince = some since ↔
      ∃ j, LastNotice w turns j k ∧ Unscanned w turns j k ∧ (turns j).now = since)
    (since : Number) :
    ((watch w turns k).awaiting (turns k)).pendingSince = some since ↔
      ∃ j, LastNotice w turns j (k + 1) ∧ Unscanned w turns j k ∧ (turns j).now = since := by
  unfold awaiting note
  dsimp only
  split
  · next hnone =>
    have hnot : ¬ (watch w turns k).Notices (turns k) := by
      simpa [Notices] using hnone
    rw [h]
    simp only [lastNotice_succ_of_not_notices hnot]
  · next hsome =>
    have hnotices : (watch w turns k).Notices (turns k) := by
      simpa [Notices, or_iff_not_imp_left] using hsome
    simp only [lastNotice_succ_of_notices hnotices, exists_eq_left, Option.some.injEq]
    exact (and_iff_right fun i hi hik => by omega).symm

/-- The time that a watch keeps is that of the last look with changes, if no scan was attempted
since. -/
theorem pendingSince_watch (hw : w.Rooted) (hnone : w.pendingSince = none)
    (hW : ∀ i < k, (turns i).world.Orderly) (since : Number) :
    (watch w turns k).pendingSince = some since ↔
      ∃ j, LastNotice w turns j k ∧ Unscanned w turns j k ∧ (turns j).now = since := by
  induction k generalizing since with
  | zero =>
    constructor
    · intro h
      cases hnone.symm.trans h
    · rintro ⟨j, hj, -⟩
      exact absurd hj.before (Nat.not_lt_zero j)
  | succ k ih =>
    have hbefore : ∀ i < k, (turns i).world.Orderly := fun i hi => hW i (by omega)
    obtain ⟨hrooted, -⟩ := hw.watch hbefore
    have hattempts := attempts_iff hrooted (hW k (by omega))
    have hawaiting := pendingSince_awaiting (ih hbefore) since
    rw [watch, next_eq hrooted (hW k (by omega))]
    cases hover : ((watch w turns k).awaiting (turns k)).isOver (turns k).now with
    | true =>
      -- The look attempts a scan, and nothing is awaited any more.
      constructor
      · intro h
        cases h
      · rintro ⟨j, hj, hu, -⟩
        have := hj.before
        exact absurd (hattempts.2 hover) (hu k (by omega) (by omega))
    | false =>
      have hnot : ¬ (watch w turns k).Attempts (turns k) := by
        rw [hattempts, hover]
        simp
      refine hawaiting.trans (exists_congr fun j => and_congr_right fun hj => ?_)
      refine and_congr_left fun _ => ⟨fun hu i hi hik => ?_, fun hu i hi hik => hu i hi (by omega)⟩
      rcases Nat.lt_succ_iff_lt_or_eq.1 hik with hik | rfl
      · exact hu i hi hik
      · exact hnot

/-- A watch that was started knows a path for its root, and awaits nothing. -/
theorem rooted_of_new {root : String} {settings : CleanerSettings} {debounce : Option Number}
    (hW : W.Orderly) (h : (new root settings debounce).outcome W = .ok w) :
    w.Rooted ∧ w.debounce = debounce ∧ w.pendingSince = none := by
  obtain ⟨real, hreal, h⟩ := outcome_bind_eq_ok h
  have hafter : (Sweep.resolve (Path.ofString root)).after W = W :=
    congrArg Prod.snd (run_resolve hreal)
  rw [hafter] at h
  obtain ⟨seen, hseen, h⟩ := outcome_bind_eq_ok h
  obtain ⟨files, hfiles, -⟩ := outcome_bind_eq_ok hseen
  have hnormal := normal_of_resolve hW.proper hW.workDir hreal
  obtain ⟨top, htop, hn⟩ := Scan.absolute_of_sources hfiles
  obtain rfl : real.text = top :=
    Except.ok.inj ((outcome_absolute_of_normal hnormal).symm.trans htop)
  obtain rfl := Except.ok.inj h
  exact ⟨⟨hnormal, hn⟩, rfl, rfl⟩

/-- In any run of a watch, a look attempts a scan just if there is a last look so far that has
noticed changes, no scan was attempted from then on, and the time since then has come to the limit.
A tick tells of a scan just if one was attempted and the root leads to a directory, and there is a
tick in this case, if the store can be told. -/
theorem rescan_exactly_after_wait {root : String} {settings : CleanerSettings} {limit : Number}
    {w : Watcher} {W : World} (start : W.Orderly)
    (built : (new root settings (some limit)).outcome W = .ok w) (turns : ℕ → Turn) (k : ℕ)
    (orderly : ∀ i ≤ k, (turns i).world.Orderly) :
    ((watch w turns k).Attempts (turns k) ↔
      ∃ j, LastNotice w turns j (k + 1) ∧ Unscanned w turns j k ∧
        ∃ waited, (turns k).now.minus (turns j).now = .ok waited ∧ limit.le waited = true) ∧
    ∃ s' result,
      ((watch w turns k).poll (turns k).store (turns k).now (turns k).onUpdate).outcome
        (turns k).world = .ok (watch w turns (k + 1), s', result) ∧
      (∀ tick, result = .ok tick →
        (tick.rescanned = true ↔ (watch w turns k).Attempts (turns k) ∧
          LeadsToDirectory (watch w turns k).root (turns k).world) ∧
        (tick.created ≠ [] ∨ tick.modified ≠ [] ↔ (watch w turns k).Notices (turns k))) ∧
      ((watch w turns k).Attempts (turns k) →
        LeadsToDirectory (watch w turns k).root (turns k).world →
        (∀ s W, ∃ u, ((turns k).onUpdate s).outcome W = .ok u) → ∃ tick, result = .ok tick) := by
  obtain ⟨hw, hlimit, hnone⟩ := rooted_of_new start built
  have hbefore : ∀ i < k, (turns i).world.Orderly := fun i hi => orderly i hi.le
  have hW := orderly k le_rfl
  obtain ⟨hrooted, hsame⟩ := hw.watch hbefore
  have hattempts := attempts_iff hrooted hW
  have hroot : ((watch w turns k).awaiting (turns k)).root = (watch w turns k).root := rfl
  have hdebounce : ((watch w turns k).awaiting (turns k)).debounce = some limit :=
    hsame.trans hlimit
  obtain ⟨s, W', hl, hrun⟩ := run_pollWith hrooted hW
  obtain ⟨s', result, hconclude⟩ := outcome_conclude rescan ((watch w turns k).awaiting (turns k)) s
    ((watch w turns k).changes (turns k)) (turns k).now (turns k).onUpdate W'
  have hdirectory : LeadsToDirectory (watch w turns k).root W' ↔
      LeadsToDirectory (watch w turns k).root (turns k).world := leadsToDirectory_of_later hW hl
  refine ⟨?_, s', result, ?_, ?_, ?_⟩
  · rw [hattempts, isOver_iff hdebounce]
    simp only [pendingSince_awaiting (pendingSince_watch hw hnone hbefore)]
    constructor
    · rintro ⟨since, ⟨j, hj, hu, rfl⟩, hwaited⟩
      exact ⟨j, hj, hu, hwaited⟩
    · rintro ⟨j, hj, hu, hwaited⟩
      exact ⟨_, ⟨j, hj, hu, rfl⟩, hwaited⟩
  · rw [poll_eq, watch, next_eq hrooted hW, outcome, hrun]
    exact hconclude
  · rintro tick rfl
    obtain ⟨hcreated, hmodified, hrescanned⟩ := tick_of_conclude (hW.later hl) hconclude
    rw [hrescanned, hroot, hdirectory, hattempts, hcreated, hmodified]
    exact ⟨Iff.rfl, Iff.rfl⟩
  · intro hattempt hdir ht
    rw [← hdirectory, ← hroot] at hdir
    obtain ⟨w', s', tick, htick⟩ :=
      exists_tick_of_conclude (s := s) (t := (watch w turns k).changes (turns k)) (hW.later hl)
        (hattempts.1 hattempt) hdir ht
    rw [hconclude] at htick
    exact ⟨tick, (Prod.mk.inj (Prod.mk.inj (Except.ok.inj htick)).2).2⟩

/-! ## A file that is written twice -/

open Scan (bothPaths logOnly oneCall twins)

/-- The second of two files was written again. -/
def rewritten : World :=
  Scan.beside (.file oneCall (.at 1))

/-- Two looks at the file that was written again, with two seconds between them. -/
def twoLooks (k : ℕ) : Turn :=
  ⟨rewritten, if k = 0 then .int 5 else .int 7, bothPaths, fun _ => pure ()⟩

theorem orderly_beside {n : Node} (h : (Scan.beside n).disk.Proper) : (Scan.beside n).Orderly :=
  ⟨(Scan.quiet_beside n).sound, h, rfl, fun _ hp => absurd hp (Disk.not_open rfl)⟩

theorem new_twins : (new "/" logOnly (some (.int 2))).outcome twins = .ok overTwins := by
  have hreal : (Sweep.resolve (Path.ofString "/")).outcome twins = .ok ⟨"/", []⟩ := by cbv
  have hlisted : Scan.listed twins.disk logOnly "/" = ["/a.js", "/b.js"] :=
    Scan.listed_beside Scan.entryDir?_twins
  refine (run_new logOnly (Scan.quiet_beside _) hreal normal_slash (by decide) _).trans ?_
  exact congrArg (fun files => Except.ok (Watcher.mk "/" logOnly (some (.int 2))
    (stamps twins.disk files) none)) hlisted

theorem rooted_overTwins : overTwins.Rooted :=
  ⟨normal_slash, by decide⟩

theorem orderly_twoLooks (k : ℕ) : (twoLooks k).world.Orderly :=
  orderly_beside (by decide)

theorem view_rewritten (hroot : w.root = "/") (hsettings : w.settings = logOnly) :
    w.view rewritten = [("/a.js", .at 0), ("/b.js", .at 1)] := by
  have hlisted : Scan.listed rewritten.disk logOnly "/" = ["/a.js", "/b.js"] := by
    refine Scan.listed_beside fun name hname => ?_
    rcases List.mem_pair.1 hname with rfl | rfl <;> cbv
  obtain ⟨W', hr, -⟩ :=
    run_snapshot logOnly (Scan.quiet_beside (.file oneCall (.at 1))) normal_slash (by decide)
  have hstamps : stamps rewritten.disk ["/a.js", "/b.js"] =
      [("/a.js", .at 0), ("/b.js", .at 1)] := by cbv
  unfold view outcome
  rw [hroot, hsettings, show rewritten = Scan.beside (.file oneCall (.at 1)) from rfl, hr]
  exact (congrArg (stamps rewritten.disk) hlisted).trans hstamps

theorem changes_first : overTwins.changes (twoLooks 0) = ⟨[], ["/b.js"], [], false⟩ := by
  have hold : overTwins.seen = [("/a.js", .at 0), ("/b.js", .at 0)] := by cbv
  unfold changes
  rw [hold, show (twoLooks 0).world = rewritten from rfl, view_rewritten rfl rfl]
  simp [compare, sorted, List.lookup]

theorem changes_second :
    (watch overTwins twoLooks 1).changes (twoLooks 1) = ⟨[], [], [], false⟩ := by
  have hnext : watch overTwins twoLooks 1 = _ := next_eq rooted_overTwins (orderly_twoLooks 0)
  have hview : overTwins.view rewritten = [("/a.js", .at 0), ("/b.js", .at 1)] :=
    view_rewritten rfl rfl
  unfold changes
  rw [hnext, seen_settled, show (twoLooks 1).world = rewritten from rfl, view_rewritten]
  · rw [show ((watch overTwins twoLooks 0).awaiting (twoLooks 0)).seen =
      overTwins.view rewritten from rfl, hview]
    simp [compare, sorted, List.lookup]
  · exact root_settled _ _
  · exact settings_settled _ _

/-- The first look notices the change and waits, and the second one scans. -/
theorem rescan_after_two_seconds :
    ¬ overTwins.Attempts (twoLooks 0) ∧ ∃ w' s' tick,
      ((watch overTwins twoLooks 1).poll bothPaths (.int 7) fun _ => pure ()).outcome rewritten =
        .ok (w', s', .ok tick) ∧ tick.rescanned = true := by
  have start : twins.Orderly := orderly_beside (by decide)
  have hnotices : overTwins.Notices (twoLooks 0) := by
    unfold Notices
    rw [changes_first]
    simp
  have hnone : ¬ (watch overTwins twoLooks 1).Notices (twoLooks 1) := by
    unfold Notices
    rw [changes_second]
    simp
  have hfirst : ¬ overTwins.Attempts (twoLooks 0) := by
    rw [show overTwins = watch overTwins twoLooks 0 from rfl,
      (rescan_exactly_after_wait start new_twins twoLooks 0 fun i _ => orderly_twoLooks i).1]
    rintro ⟨j, hj, -, waited, hwaited, hle⟩
    have := hj.before
    obtain rfl : j = 0 := by omega
    obtain rfl : Number.int 0 = waited := Except.ok.inj hwaited
    exact absurd hle (by decide)
  refine ⟨hfirst, ?_⟩
  obtain ⟨hattempts, s', result, hrun, htick, hsome⟩ :=
    rescan_exactly_after_wait start new_twins twoLooks 1 fun i _ => orderly_twoLooks i
  have hattempt : (watch overTwins twoLooks 1).Attempts (twoLooks 1) := by
    refine hattempts.2 ⟨0, ⟨by decide, hnotices, ?_⟩, ?_, .int 2, rfl, by decide⟩
    · intro i hi hi'
      obtain rfl : i = 1 := by omega
      exact hnone
    · intro i hi hi'
      obtain rfl : i = 0 := by omega
      exact hfirst
  have hroot : LeadsToDirectory (watch overTwins twoLooks 1).root rewritten := by
    have hnext : watch overTwins twoLooks 1 = _ := next_eq rooted_overTwins (orderly_twoLooks 0)
    rw [hnext, root_settled]
    exact ⟨⟨"/", []⟩, by cbv, by cbv⟩
  obtain ⟨tick, rfl⟩ := hsome hattempt hroot fun _ _ => ⟨(), rfl⟩
  exact ⟨_, s', tick, hrun, (htick tick rfl).1.2 ⟨hattempt, hroot⟩⟩

end Watcher

end ConsoleSweep
