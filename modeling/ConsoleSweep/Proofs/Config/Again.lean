/-
  The configuration is read again.

  What comes of reading the configuration depends on little of the tree: on the working
  directory, on the real path of the root, and on what is seen at the settings file and at
  the places of the files of variables (`Config.Consults`). In another tree with the same
  answers to these questions it comes to the same (`alikeAt_loadConfig`). No handler is in
  place by then, so that nothing is logged into a file or counted. `Alike` says this of a
  piece of work in general, with rules for the ways in which work is put together.
-/
import ConsoleSweep.Program
import ConsoleSweep.Proofs.Config.Load

namespace ConsoleSweep

/-- Nothing has changed but the environment, the journal and the diagnostics. -/
structure World.Untouched (w w' : World) : Prop where
  disk : w'.disk = w.disk
  logging : w'.logging = w.logging
  metrics : w'.metrics = w.metrics
  now : w'.now = w.now
  out : w'.out = w.out

namespace World.Untouched

variable {w w' w'' : World}

theorem refl (w : World) : w.Untouched w :=
  ⟨rfl, rfl, rfl, rfl, rfl⟩

theorem trans (h : w.Untouched w') (h' : w'.Untouched w'') : w.Untouched w'' :=
  ⟨h'.disk.trans h.disk, h'.logging.trans h.logging, h'.metrics.trans h.metrics,
    h'.now.trans h.now, h'.out.trans h.out⟩

end World.Untouched

/-- What is seen at a path: what it leads to, or nothing if it cannot be followed. A name that is
too long is an error. -/
def Disk.seen (d : Disk) (path : String) : Except Errno (Option Node) :=
  match d.stat path with
  | .ok n => .ok (some n)
  | .error .missing | .error .notDirectory | .error .tooManyLinks => .ok none
  | .error e => .error e

theorem Disk.seen_eq_some {d : Disk} {path : String} {n : Node} :
    d.seen path = .ok (some n) ↔ d.stat path = .ok n := by
  unfold seen
  split
  · next m h => simp [h]
  all_goals next h => simp [h]

namespace Sweep

variable {α β : Type} {d d' : Disk} {w : World}

/-! ## Work that only looks -/

/-- The work leaves its surroundings as they are. -/
def Looks (work : Sweep α) : Prop :=
  ∀ w, work.after w = w

theorem looks_pure (a : α) : Looks (pure a) :=
  fun _ => rfl

theorem looks_fail (f : Fault) : Looks (fail f : Sweep α) :=
  fun _ => rfl

theorem looks_world : Looks world :=
  fun _ => rfl

theorem Looks.bind {work : Sweep α} {next : α → Sweep β} (hw : Looks work)
    (hn : ∀ a, Looks (next a)) : Looks (work >>= next) := by
  intro w
  cases ho : work.outcome w with
  | error f => rw [after_bind_error ho, hw w]
  | ok a => rw [after_bind_ok ho, hw w, hn a w]

theorem Looks.ite {p : Prop} [Decidable p] {x y : Sweep α} (hx : Looks x) (hy : Looks y) :
    Looks (if p then x else y) := by
  split
  · exact hx
  · exact hy

theorem Looks.run_eq {work : Sweep α} (h : Looks work) {a : α} (ho : work.outcome w = .ok a) :
    work.run.run w = (.ok a, w) :=
  Prod.ext ho (h w)

theorem looks_cwd : Looks cwd := by
  refine looks_world.bind fun w => ?_
  split
  · exact looks_pure _
  · exact looks_fail _

theorem looks_checkPath (path : String) : Looks (checkPath path) := by
  unfold checkPath
  exact (looks_fail _).ite (looks_pure _)

theorem looks_nodeAt? (path : String) : Looks (nodeAt? path) := by
  refine (looks_pure _).ite (looks_world.bind fun w => ?_)
  split
  · exact looks_pure _
  · exact looks_pure _
  · exact looks_pure _
  · exact looks_pure _
  · exact looks_fail _

theorem looks_pathExists (p : Path) : Looks (pathExists p) :=
  (looks_nodeAt? _).bind fun _ => looks_pure _

theorem looks_resolve (p : Path) : Looks (resolve p) := by
  refine (looks_checkPath _).bind fun _ => looks_world.bind fun w => ?_
  dsimp only
  split
  · exact looks_fail _
  · split
    · exact looks_fail _
    · exact looks_pure _

theorem looks_expandHome (p : Path) : Looks (expandHome p) := by
  unfold expandHome
  split
  · split
    · refine looks_world.bind fun w => ?_
      dsimp only
      split
      · exact looks_fail _
      · exact Looks.ite ((looks_fail _).bind fun _ => looks_pure _) (looks_pure _)
    · exact looks_pure _
  · exact looks_pure _

theorem outcome_nodeAt? (path : String) (w : World) : (nodeAt? path).outcome w =
    if path.toList.contains '\x00' then .ok none
    else match w.disk.seen path with
      | .ok n => .ok n
      | .error e => .error (.os e path) := by
  unfold nodeAt?
  rw [outcome_ite]
  split
  · rfl
  · rw [outcome_bind_ok (a := w) rfl]
    unfold Disk.seen
    cases w.disk.stat path with
    | ok n => rfl
    | error e => cases e <;> rfl

/-! ## The same in two trees -/

/-- In the second tree the work comes to the same as in these surroundings, with the same effect on
all but the tree. It leaves both trees alone. -/
def AlikeAt (d' : Disk) (work : Sweep α) (w : World) : Prop :=
  w.Untouched (work.after w) ∧
    work.run.run { w with disk := d' } = (work.outcome w, { work.after w with disk := d' })

/-- As long as no handler is in place, the work comes to the same in both trees. -/
def Alike (d d' : Disk) (work : Sweep α) : Prop :=
  ∀ w, w.disk = d → w.logging.handlers = [] → AlikeAt d' work w

theorem AlikeAt.bind {work : Sweep α} {next : α → Sweep β} (hw : AlikeAt d' work w)
    (hn : ∀ a, work.outcome w = .ok a → AlikeAt d' (next a) (work.after w)) :
    AlikeAt d' (work >>= next) w := by
  obtain ⟨hu, hr⟩ := hw
  unfold AlikeAt
  cases ho : work.outcome w with
  | error f =>
    rw [after_bind_error ho, outcome_bind_error ho]
    rw [ho] at hr
    exact ⟨hu, run_bind_fault hr next⟩
  | ok a =>
    rw [ho] at hr
    obtain ⟨hu', hr'⟩ := hn a ho
    rw [after_bind_ok ho, outcome_bind_ok ho]
    exact ⟨hu.trans hu', (run_bind_eq hr next).trans hr'⟩

/-- One piece of work after the other. What comes next may rely on where the value came from. -/
theorem Alike.bind_of {work : Sweep α} {next : α → Sweep β} (hw : Alike d d' work)
    (hn : ∀ w a, w.disk = d → work.outcome w = .ok a → Alike d d' (next a)) :
    Alike d d' (work >>= next) := by
  intro w hd hh
  have hu := (hw w hd hh).1
  exact (hw w hd hh).bind fun a ho =>
    hn w a hd ho _ (hu.disk.trans hd) (hu.logging ▸ hh)

theorem Alike.bind {work : Sweep α} {next : α → Sweep β} (hw : Alike d d' work)
    (hn : ∀ a, Alike d d' (next a)) : Alike d d' (work >>= next) :=
  hw.bind_of fun _ a _ _ => hn a

theorem Alike.ite {p : Prop} [Decidable p] {x y : Sweep α} (hx : Alike d d' x)
    (hy : Alike d d' y) : Alike d d' (if p then x else y) := by
  split
  · exact hx
  · exact hy

theorem AlikeAt.attempt {work : Sweep α} (h : AlikeAt d' work w) :
    AlikeAt d' (attempt work) w := by
  refine ⟨h.1, ?_⟩
  rw [run_attempt, h.2]
  rfl

theorem Alike.attempt {work : Sweep α} (h : Alike d d' work) : Alike d d' (attempt work) :=
  fun w hd hh => (h w hd hh).attempt

/-- Work that only looks, at what is the same. -/
theorem alike_of_looks {work : Sweep α} (hl : Looks work)
    (ho : ∀ w, w.disk = d → work.outcome { w with disk := d' } = work.outcome w) :
    Alike d d' work := by
  intro w hd _
  unfold AlikeAt
  rw [hl w]
  exact ⟨.refl w, Prod.ext (ho w hd) (hl _)⟩

theorem alike_pure (a : α) : Alike d d' (pure a) :=
  alike_of_looks (looks_pure a) fun _ _ => rfl

theorem alike_fail (f : Fault) : Alike d d' (fail f : Sweep α) :=
  alike_of_looks (looks_fail f) fun _ _ => rfl

theorem alike_ofExcept (e : Except Fault α) : Alike d d' (ofExcept e) := by
  cases e with
  | ok a => exact alike_pure a
  | error f => exact alike_fail f

theorem alike_lookupVar (name : String) : Alike d d' (lookupVar name) :=
  alike_of_looks (fun _ => rfl) fun _ _ => rfl

/-- Work that goes by something in its surroundings that is the same. -/
theorem alike_world {next : World → Sweep β}
    (hs : ∀ w, w.disk = d → next { w with disk := d' } = next w)
    (hn : ∀ w, w.disk = d → w.logging.handlers = [] → Alike d d' (next w)) :
    Alike d d' (world >>= next) := by
  intro w hd hh
  obtain ⟨hu, hr⟩ := hn w hd hh w hd hh
  have ho : world.outcome w = .ok w := rfl
  unfold AlikeAt
  rw [after_bind_ok ho, outcome_bind_ok ho, run_bind_eq (run_world _), hs w hd]
  exact ⟨hu, hr⟩

theorem alike_modify {f : World → World} (hu : ∀ w : World, w.Untouched (f w))
    (hd : ∀ (w : World) (d' : Disk), f { w with disk := d' } = { f w with disk := d' }) :
    Alike d d' (modify f : Sweep Unit) :=
  fun w _ _ => ⟨hu w, Prod.ext rfl (hd w d')⟩

theorem alike_forM (xs : List α) {f : α → Sweep PUnit} (h : ∀ x, Alike d d' (f x)) :
    Alike d d' (xs.forM f) := by
  induction xs with
  | nil => exact alike_pure _
  | cons x xs ih => exact (h x).bind fun _ => ih

theorem alike_option_forM (x : Option α) {f : α → Sweep PUnit}
    (h : ∀ a, x = some a → Alike d d' (f a)) : Alike d d' (x.forM f) := by
  cases x with
  | none => exact alike_pure _
  | some a => exact h a rfl

/-! ## The basic operations -/

theorem alike_cwd (h : d'.cwd = d.cwd) : Alike d d' cwd := by
  refine alike_of_looks looks_cwd fun w hd => ?_
  rw [outcome_cwd, outcome_cwd, hd, h]

theorem alike_expandHome (p : Path) : Alike d d' (expandHome p) :=
  alike_of_looks (looks_expandHome p) fun w _ =>
    @outcome_expandHome { w with disk := d' } w rfl rfl p

theorem alike_pathExists {p : Path} (h : d'.seen p.text = d.seen p.text) :
    Alike d d' (pathExists p) := by
  have hnode : Alike d d' (nodeAt? p.text) := by
    refine alike_of_looks (looks_nodeAt? _) fun w hd => ?_
    rw [outcome_nodeAt?, outcome_nodeAt?, hd, h]
  exact hnode.bind fun _ => alike_pure _

theorem alike_readText {path : String} (h : d'.stat path = d.stat path) :
    Alike d d' (readText path) := by
  have hread : d'.read path = d.read path := by
    unfold Disk.read
    rw [h]
  have hbytes : Alike d d' (readBytes path) := by
    refine Alike.bind ((alike_fail _).ite (alike_pure _)) fun _ => ?_
    refine alike_world (fun w hd => ?_) fun w _ _ => ?_
    · rw [hd, hread]
    · cases w.disk.read path with
      | ok bytes => exact alike_pure _
      | error e => exact alike_fail _
  refine hbytes.bind fun bytes => ?_
  split
  · exact alike_pure _
  · exact alike_fail _

theorem alike_setVar (name value : String) : Alike d d' (setVar name value) := by
  have last : Alike d d' (modify fun w : World =>
      { w with env := (name, value) :: w.env.filter (·.1 ≠ name) } : Sweep Unit) :=
    alike_modify (fun _ => ⟨rfl, rfl, rfl, rfl, rfl⟩) fun _ _ => rfl
  unfold setVar
  refine Alike.ite ((alike_fail _).bind fun _ => ?_) ?_ <;>
    exact Alike.ite ((alike_fail _).bind fun _ => last) last

theorem alike_warn (s : String) : Alike d d' (warn s) :=
  alike_modify (fun _ => ⟨rfl, rfl, rfl, rfl, rfl⟩) fun _ _ => rfl

/-- Without handlers, a record goes to the terminal at most. -/
theorem alike_log (logger : String) (level : Log.Level) (message : String) :
    Alike d d' (log logger level message) := by
  refine alike_world (fun _ _ => rfl) fun w _ _ => ?_
  refine Alike.bind ?_ fun _ => alike_world (fun _ _ => rfl) fun w' _ hh => ?_
  · exact alike_modify (fun _ => ⟨rfl, rfl, rfl, rfl, rfl⟩) fun _ _ => rfl
  · dsimp only
    rw [hh]
    refine Alike.ite ((alike_ofExcept _).bind fun _ => ?_) (alike_pure _)
    exact Alike.ite ((alike_warn _).ite (alike_pure _)) (alike_pure _)

end Sweep

open Sweep

namespace Config

variable {d d' : Disk} {w : World} {c : Config}

/-! ## Variables -/

theorem alike_envFilesOff : Alike d d' envFilesOff :=
  (alike_lookupVar _).bind fun _ => alike_pure _

/-- A file of variables that is the same in both trees. -/
theorem alike_loadEnvFile {p : Path} (h : d'.stat p.text = d.stat p.text) :
    Alike d d' (loadEnvFile p) := by
  have hfile : d'.isFile p.text = d.isFile p.text := by
    unfold Disk.isFile
    rw [h]
  unfold loadEnvFile
  refine alike_envFilesOff.bind fun _ => Alike.ite (alike_pure _) ?_
  refine alike_world (fun w hd => ?_) fun w _ _ => Alike.ite (alike_pure _) ?_
  · dsimp only
    rw [hd, hfile]
  · refine (alike_readText h).bind fun text => ?_
    refine (alike_forM _ fun s => ?_).bind fun _ =>
      alike_world (fun _ _ => rfl) fun _ _ _ => alike_forM _ fun s => ?_
    · cases s with
      | broken line => exact alike_log _ _ _
      | _ => exact alike_pure _
    · obtain ⟨name, value⟩ := s
      cases value with
      | none => exact alike_pure _
      | some value =>
        exact (alike_lookupVar _).bind fun _ => (alike_setVar _ _).ite (alike_pure _)

theorem alike_firstExisting {paths : List Path}
    (h : ∀ p ∈ paths, d'.seen p.text = d.seen p.text) : Alike d d' (firstExisting paths) := by
  induction paths with
  | nil => exact alike_pure _
  | cons p rest ih =>
    obtain ⟨hp, hrest⟩ := List.forall_mem_cons.1 h
    exact (alike_pathExists hp).bind fun _ => (alike_pure _).ite (ih hrest)

/-- A path that was found to exist leads to something. -/
theorem exists_stat_of_pathExists {p : Path} (h : (pathExists p).outcome w = .ok true) :
    ∃ n, w.disk.stat p.text = .ok n := by
  obtain ⟨found, hfound, hsome⟩ := outcome_bind_eq_ok h
  rw [outcome_nodeAt?] at hfound
  split at hfound
  · obtain rfl := Except.ok.inj hfound
    cases hsome
  · cases hs : w.disk.seen p.text with
    | error e =>
      rw [hs] at hfound
      cases hfound
    | ok seen =>
      rw [hs] at hfound
      obtain rfl : seen = found := Except.ok.inj hfound
      cases seen with
      | none => cases hsome
      | some n => exact ⟨n, Disk.seen_eq_some.1 hs⟩

theorem mem_of_firstExisting {paths : List Path} {p : Path}
    (h : (firstExisting paths).outcome w = .ok (some p)) :
    p ∈ paths ∧ ∃ n, w.disk.stat p.text = .ok n := by
  induction paths with
  | nil => cases h
  | cons q rest ih =>
    obtain ⟨b, hb, h⟩ := outcome_bind_eq_ok h
    rw [looks_pathExists q w] at h
    cases b with
    | true =>
      obtain rfl := Option.some.inj (Except.ok.inj h)
      exact ⟨List.mem_cons_self, exists_stat_of_pathExists hb⟩
    | false =>
      obtain ⟨hmem, hstat⟩ := ih h
      exact ⟨List.mem_cons_of_mem _ hmem, hstat⟩

theorem stat_eq_of_seen {path : String} {n : Node} (h : d'.seen path = d.seen path)
    (hn : d.stat path = .ok n) : d'.stat path = d.stat path := by
  rw [Disk.seen_eq_some.2 hn] at h
  rw [hn, Disk.seen_eq_some.1 h]

theorem alike_cleanerFromEnv : Alike d d' cleanerFromEnv :=
  alike_of_looks (fun w => congrArg Prod.snd (run_cleanerFromEnv w)) fun w _ =>
    (congrArg Prod.fst (run_cleanerFromEnv { w with disk := d' })).trans
      (congrArg Prod.fst (run_cleanerFromEnv w)).symm

theorem alike_runtimeFromEnv : Alike d d' runtimeFromEnv :=
  alike_of_looks (fun w => congrArg Prod.snd (run_runtimeFromEnv w)) fun w _ =>
    (congrArg Prod.fst (run_runtimeFromEnv { w with disk := d' })).trans
      (congrArg Prod.fst (run_runtimeFromEnv w)).symm

theorem alike_buildCleaner (raw : Settings.Raw) (source : String) :
    Alike d d' (buildCleaner raw source) := by
  unfold buildCleaner
  split
  · exact alike_pure _
  · exact (alike_log _ _ _).bind fun _ => alike_pure _

theorem alike_buildRuntime (raw : Settings.Raw) (source : String) :
    Alike d d' (buildRuntime raw source) := by
  unfold buildRuntime
  split
  · exact alike_pure _
  · exact (alike_log _ _ _).bind fun _ => alike_pure _

/-- The path is that of a file which is looked for when the configuration of the project is read:
the settings file, or a file of variables. -/
def Consults (root : Path) (w : World) (path : String) : Prop :=
  path = (settingsFile { root }).text ∨ path = (root.child envName).text ∨
    (∃ s, cwd.outcome w = .ok s ∧ path = ((Path.ofString s).child ".env").text) ∨
    ∃ p, home.outcome w = .ok p ∧ path = (p.child envName).text

theorem alikeAt_loadEnv (hh : w.logging.handlers = []) (hc : d'.cwd = w.disk.cwd)
    (hs : ∀ path, Consults c.root w path → d'.seen path = w.disk.seen path) :
    AlikeAt d' c.loadEnv w := by
  unfold loadEnv
  refine (alike_cwd hc w rfl hh).bind fun s hcwd => ?_
  rw [looks_cwd w]
  refine (alike_expandHome _ w rfl hh).bind fun p hhome => ?_
  rw [looks_expandHome _ w]
  have hplaces : ∀ q ∈ [c.root.child envName, (Path.ofString s).child ".env", p.child envName],
      d'.seen q.text = w.disk.seen q.text := by
    intro q hq
    simp only [List.mem_cons, List.not_mem_nil, or_false] at hq
    rcases hq with rfl | rfl | rfl
    · exact hs _ (.inr (.inl rfl))
    · exact hs _ (.inr (.inr (.inl ⟨s, hcwd, rfl⟩)))
    · exact hs _ (.inr (.inr (.inr ⟨p, hhome, rfl⟩)))
  refine Alike.bind_of (alike_firstExisting hplaces) (fun w' found hd hfound => ?_) w rfl hh
  refine Alike.bind (alike_option_forM found fun q hq => ?_) fun _ => ?_
  · subst hq
    obtain ⟨hmem, n, hn⟩ := mem_of_firstExisting hfound
    rw [hd] at hn
    exact alike_loadEnvFile (stat_eq_of_seen (hplaces q hmem) hn)
  · refine Alike.bind (alike_option_forM _ fun _ _ => alike_log _ _ _) fun _ => ?_
    exact alike_cleanerFromEnv.bind fun _ => alike_runtimeFromEnv.bind fun _ =>
      (alike_buildCleaner _ _).bind fun _ => (alike_buildRuntime _ _).bind fun _ => alike_pure _

/-! ## The settings file -/

theorem alike_loadJson {p : Path} (h : d'.seen p.text = d.seen p.text) (default : Json) :
    Alike d d' (loadJson p default) := by
  unfold loadJson
  refine (alike_pathExists h).bind_of fun w b hd hb => ?_
  cases b with
  | false => exact alike_pure _
  | true =>
    obtain ⟨n, hn⟩ := exists_stat_of_pathExists hb
    rw [hd] at hn
    refine (alike_readText (stat_eq_of_seen h hn)).attempt.bind fun text => ?_
    split
    · exact Alike.ite ((alike_log _ _ _).bind fun _ => alike_pure _) (alike_fail _)
    · split
      · exact alike_pure _
      · split
        · exact alike_pure _
        · exact Alike.ite ((alike_log _ _ _).bind fun _ => alike_pure _) (alike_fail _)

theorem alike_loadSettings (h : d'.seen c.settingsFile.text = d.seen c.settingsFile.text) :
    Alike d d' c.loadSettings := by
  refine (alike_loadJson h _).bind fun v => ?_
  dsimp only
  split
  case' h_1 => refine (alike_pure _).bind ?_
  case' h_2 => refine (alike_log _ _ _).bind fun _ => (alike_pure _).bind ?_
  all_goals
    intro data
    refine (alike_ofExcept _).bind fun _ => (alike_ofExcept _).bind fun _ => ?_
    exact (alike_buildCleaner _ _).bind fun _ => (alike_buildRuntime _ _).bind fun _ =>
      alike_pure _

theorem alikeAt_loadAll {root : Path} (hh : w.logging.handlers = []) (hc : d'.cwd = w.disk.cwd)
    (hs : ∀ path, Consults root w path → d'.seen path = w.disk.seen path) :
    AlikeAt d' (loadAll { root }) w := by
  have hload := alikeAt_loadEnv (c := { root }) hh hc hs
  refine hload.attempt.bind fun outcome ho => ?_
  cases outcome with
  | error f => exact alike_pure _ _ hload.1.disk (hload.1.logging ▸ hh)
  | ok c =>
    have hrun : (loadEnv { root }).run.run w = (.ok c, (loadEnv { root }).after w) :=
      Prod.ext (Except.ok.inj ho) rfl
    obtain ⟨loadedEnv, hc'⟩ := exists_of_run_loadEnv hrun
    have hfile : c.settingsFile.text = (settingsFile { root }).text := by
      rw [hc']
      rfl
    refine Alike.bind (alike_loadSettings (d := w.disk) ?_).attempt (fun outcome => ?_) _
      hload.1.disk (hload.1.logging ▸ hh)
    · rw [hfile]
      exact hs _ (.inl rfl)
    split
    · exact alike_pure _
    · exact alike_pure _

/-! ## The root -/

theorem root_withVars (c : Config) (env : List (String × String)) :
    (c.withVars env).root = c.root := rfl

theorem gives_loadSettings (c : Config) : Gives (fun c' => c'.root = c.root) c.loadSettings := by
  refine Gives.bind fun v => ?_
  dsimp only
  split
  case' h_1 => refine Gives.bind ?_
  case' h_2 => refine Gives.bind fun _ => Gives.bind ?_
  all_goals
    intro data
    exact Gives.bind fun _ => Gives.bind fun _ => Gives.bind fun _ => Gives.bind fun _ =>
      gives_pure rfl

/-- The configuration that is read is one of the same root. -/
theorem root_of_loadAll {root : Path} {r : Config × Option Fault}
    (h : (loadAll { root }).outcome w = .ok r) : r.1.root = root := by
  obtain ⟨outcome, ho, h⟩ := outcome_bind_eq_ok h
  cases outcome with
  | error f =>
    obtain rfl := Except.ok.inj h
    rfl
  | ok c =>
    have hrun : (loadEnv { root }).run.run w = (.ok c, (loadEnv { root }).after w) :=
      Prod.ext (Except.ok.inj ho) rfl
    obtain ⟨loadedEnv, hc⟩ := exists_of_run_loadEnv hrun
    have hroot : c.root = root := by
      rw [hc, root_withVars]
    obtain ⟨outcome', ho', h⟩ := outcome_bind_eq_ok h
    cases outcome' with
    | error f =>
      obtain rfl := Except.ok.inj h
      exact hroot
    | ok c' =>
      obtain rfl := Except.ok.inj h
      exact (gives_loadSettings c _ c' (Except.ok.inj ho')).trans hroot

theorem root_override {c c' : Config} {cleaner runtime : Settings.Raw} {stop : Option Fault}
    (h : c.override cleaner runtime = (c', stop)) : c'.root = c.root := by
  unfold override overrideCleaner overrideRuntime at h
  grind

end Config

namespace Program

variable {d' : Disk} {w : World} {o : Options} {c : Config}

/-- A configuration that was read is one of the real path of the root that was asked for. -/
theorem exists_of_loadConfig (h : (loadConfig o).outcome w = .ok c) :
    ∃ text, o.configRoot = some text ∧
      (resolve (Path.ofString text)).outcome w = .ok c.root := by
  unfold loadConfig at h
  cases hroot : o.configRoot with
  | none =>
    rw [hroot] at h
    cases h
  | some text =>
    rw [hroot] at h
    refine ⟨text, rfl, ?_⟩
    obtain ⟨root, hr, h⟩ := outcome_bind_eq_ok h
    obtain ⟨⟨c', stop⟩, hc, h⟩ := outcome_bind_eq_ok h
    have heq := Config.root_of_loadAll hc
    cases stop with
    | some f => cases h
    | none =>
      obtain rfl : c' = c := Except.ok.inj h
      rw [hr, ← heq]

/-- The configuration comes to the same in a tree where the root has the same real path, and where
the same is seen at the files that are consulted. -/
theorem alikeAt_loadConfig (h : (loadConfig o).outcome w = .ok c)
    (hh : w.logging.handlers = []) (hc : d'.cwd = w.disk.cwd)
    (hr : ∀ p, (resolve p).outcome w = .ok c.root →
      (resolve p).outcome { w with disk := d' } = .ok c.root)
    (hs : ∀ path, Config.Consults c.root w path → d'.seen path = w.disk.seen path) :
    AlikeAt d' (loadConfig o) w := by
  obtain ⟨text, hroot, hreal⟩ := exists_of_loadConfig h
  have hresolve : AlikeAt d' (resolve (Path.ofString text)) w := by
    unfold AlikeAt
    rw [looks_resolve _ w, hreal]
    exact ⟨.refl w, (looks_resolve _).run_eq (hr _ hreal)⟩
  unfold loadConfig
  rw [hroot]
  refine hresolve.bind fun root ho => ?_
  obtain rfl : root = c.root := Except.ok.inj (ho.symm.trans hreal)
  rw [looks_resolve _ w]
  have hall := Config.alikeAt_loadAll hh hc hs
  have hu := hall.1
  refine hall.bind fun ⟨c', stop⟩ _ => ?_
  dsimp only
  split
  · exact alike_pure _ _ hu.disk (hu.logging ▸ hh)
  · exact alike_fail _ _ hu.disk (hu.logging ▸ hh)

end Program

end ConsoleSweep
