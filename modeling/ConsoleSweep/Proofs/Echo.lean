/-
  What was done once can be done again.

  Making directories and opening files changes the tree once. In a tree that has grown from
  there, the same work comes to the same value and has nothing left to do there but to open
  the files again, which are found at the same places. `Echoes` says this of a piece of work
  that comes to a value. A logger is opened in this way (`Logger.echoes_create`).
-/
import ConsoleSweep.Proofs.Config.Again
import ConsoleSweep.Proofs.Disk.Grown

namespace ConsoleSweep

namespace Disk

variable {d d' : Disk}

theorem held_makeDir {path : String} (h : d.makeDir path = .ok d') : d'.held = d.held := by
  obtain ⟨dir, name, -, -, rfl⟩ := makeDir_eq_ok h
  rfl

theorem held_makeDirs (d : Disk) (root : String) (parts : List String) :
    (d.makeDirs root parts).1.held = d.held := by
  fun_induction makeDirs d root parts with
  | case1 parts here d' h => exact held_makeDir h
  | case2 here h => rfl
  | case3 parts here h hne d' e h' ih =>
    rw [h'] at ih
    exact ih
  | case4 parts here h hne d₁ h₁ d₂ h₂ ih =>
    rw [h₁] at ih
    exact (held_makeDir h₂).trans ih
  | case5 parts here h hne d₁ h₁ h₂ ih =>
    rw [h₁] at ih
    exact ih
  | case6 parts here settled h hne d₁ h₁ e he h₂ ih =>
    rw [h₁] at ih
    simp only [settled]
    split <;> exact ih
  | case7 parts here settled e he h =>
    simp only [settled]
    split <;> rfl

theorem seen_with_held (d : Disk) (held : List Anchor) (path : String) :
    ({ d with held } : Disk).seen path = d.seen path := by
  unfold seen
  rw [stat_with_held]

/-- A file that was opened comes last among the open ones, and is at the place that its path leads
to, which is not locked. -/
theorem exists_of_hold {path : String} {number : Nat} (h : d.hold path = .ok (d', number)) :
    ∃ p, d'.held = d.held ++ [⟨p, 0⟩] ∧ number = d.held.length ∧ d.Targets path p ∧
      HasFile d' p ∧ d.refuses p = false := by
  obtain ⟨rfl, ⟨p, bytes, stamp, hl, hr, rfl⟩ | ⟨dir, name, hl, hm, rfl⟩⟩ := hold_eq_ok h
  · exact ⟨p, rfl, rfl, ⟨_, hl, rfl⟩, ⟨bytes, stamp, isAt_of_locate hl⟩, hr⟩
  · unfold mayMake at hm
    rw [Bool.and_eq_true, Bool.not_eq_true', Bool.not_eq_true'] at hm
    refine ⟨dir ++ [name], rfl, rfl, ⟨_, hl, rfl⟩, ⟨[], .write d.writes, ?_⟩, hm.2⟩
    exact (node?_putFile (by simp) [] _).trans (if_pos rfl)

/-- In a tree that has grown from there, the file is opened again at the same place. -/
theorem hold_again {path : String} {number : Nat} {e : Disk} (h : d.hold path = .ok (d', number))
    (hg : Grows d' e) (he : e.held = d.held) :
    e.hold path = .ok ({ e with held := d'.held }, number) := by
  have hgrows : Grows d d' := (keeps_hold (P := fun _ => True) trivial h).grows
  obtain ⟨p, hheld, rfl, ⟨found, hl, hf⟩, hfile, hr⟩ := exists_of_hold h
  obtain ⟨bytes, stamp, hnode⟩ := hg.file p hfile
  have hr' : e.refuses p = false := by
    unfold refuses
    rw [(hgrows.trans hg).medium]
    exact hr
  unfold hold
  simp only [locate_of_grows (hgrows.trans hg) hnode hl hf, hr', Bool.false_eq_true, if_false, he,
    hheld]

end Disk

namespace Sweep

variable {α β : Type} {w w' : World}

/-! ## Echoes -/

/-- If the work comes to a value, it does so again in every tree that has grown from the one it has
left, with the same files open as before. It leaves that tree alone, and has the same files open
as the first time in the end. -/
def Echoes (work : Sweep α) : Prop :=
  ∀ w a w', work.run.run w = (.ok a, w') → Disk.Grows w.disk w'.disk ∧
    ∀ e, Disk.Grows w'.disk e → e.held = w.disk.held →
      work.run.run { w with disk := e } =
        (.ok a, { w' with disk := { e with held := w'.disk.held } })

theorem Echoes.bind {work : Sweep α} {next : α → Sweep β} (hw : Echoes work)
    (hn : ∀ a, Echoes (next a)) : Echoes (work >>= next) := by
  intro w b w' h
  obtain ⟨a, w₁, ha, hb⟩ := exists_of_run_bind h
  obtain ⟨hg₁, hr₁⟩ := hw w a w₁ ha
  obtain ⟨hg₂, hr₂⟩ := hn a w₁ b w' hb
  refine ⟨hg₁.trans hg₂, fun e hg he => ?_⟩
  rw [run_bind_eq (hr₁ e (hg₂.trans hg) he)]
  exact hr₂ { e with held := w₁.disk.held } (hg.with_held _) rfl

theorem Echoes.ite {p : Prop} [Decidable p] {x y : Sweep α} (hx : Echoes x) (hy : Echoes y) :
    Echoes (if p then x else y) := by
  split
  · exact hx
  · exact hy

/-- Work that only looks, and does not see more of the tree than the working directory. -/
theorem echoes_of_looks {work : Sweep α} (hl : Looks work)
    (ho : ∀ (w : World) (e : Disk), e.cwd = w.disk.cwd →
      work.outcome { w with disk := e } = work.outcome w) : Echoes work := by
  intro w a w' h
  obtain rfl : w = w' := (hl w).symm.trans (congrArg Prod.snd h)
  have hw : work.outcome w = .ok a := congrArg Prod.fst h
  refine ⟨.refl _, fun e hg he => ?_⟩
  rw [← he]
  exact hl.run_eq ((ho w e hg.cwd).trans hw)

theorem echoes_pure (a : α) : Echoes (pure a) :=
  echoes_of_looks (looks_pure a) fun _ _ _ => rfl

theorem echoes_ofExcept (e : Except Fault α) : Echoes (ofExcept e) := by
  cases e with
  | ok a => exact echoes_pure a
  | error f =>
    intro w a w' h
    cases congrArg Prod.fst h

theorem echoes_lookupVar (name : String) : Echoes (lookupVar name) :=
  echoes_of_looks (fun _ => rfl) fun _ _ _ => rfl

theorem echoes_world {next : World → Sweep β}
    (hs : ∀ (w : World) (e : Disk), next { w with disk := e } = next w)
    (hn : ∀ w, Echoes (next w)) : Echoes (world >>= next) := by
  intro w a w' h
  rw [run_bind_eq (run_world w)] at h
  obtain ⟨hg, hr⟩ := hn w w a w' h
  refine ⟨hg, fun e hge he => ?_⟩
  rw [run_bind_eq (run_world _), hs]
  exact hr e hge he

theorem echoes_modify {f : World → World}
    (hf : ∀ (w : World) (e : Disk), f { w with disk := e } = { f w with disk := e }) :
    Echoes (modify f : Sweep Unit) := by
  intro w a w' h
  obtain rfl : f w = w' := congrArg Prod.snd h
  have hsame : f w = { f w with disk := w.disk } := hf w w.disk
  have hd : (f w).disk = w.disk := by rw [hsame]
  rw [hd]
  refine ⟨.refl _, fun e _ he => ?_⟩
  rw [← he]
  exact Prod.ext rfl (hf w e)

theorem echoes_absolute (path : String) : Echoes (absolute path) := by
  have hcwd : Echoes cwd := echoes_of_looks looks_cwd fun w e he => by
    rw [outcome_cwd, outcome_cwd, he]
  unfold absolute
  exact (echoes_pure _).ite (hcwd.bind fun _ => echoes_pure _)

/-- Directories that were made, and what was made on the way. -/
theorem exists_of_run_makeDirs {p : Path} (h : (makeDirs p).run.run w = (.ok (), w')) :
    '\x00' ∉ p.text.toList ∧ ∃ d, w.disk.makeDirs p.root p.parts = (d, none) ∧
      w' = { w with disk := d } := by
  obtain ⟨u, w₁, hc, h⟩ := exists_of_run_bind h
  have hn := nul_not_mem_of_checkPath (w := w) (u := u) (congrArg Prod.fst hc)
  obtain rfl : w = w₁ := congrArg Prod.snd ((run_checkPath hn w).symm.trans hc)
  refine ⟨hn, ?_⟩
  rw [run_bind_eq (run_world w)] at h
  split at h
  · next d hd => exact ⟨d, hd, (congrArg Prod.snd h).symm⟩
  · cases congrArg Prod.fst h

theorem stat_of_run_makeDirs {p : Path} (h : (makeDirs p).run.run w = (.ok (), w')) :
    w'.disk.stat p.text = .ok .dir := by
  obtain ⟨-, d, hd, rfl⟩ := exists_of_run_makeDirs h
  exact Disk.stat_of_makeDirs hd

theorem echoes_makeDirs (p : Path) : Echoes (makeDirs p) := by
  intro w a w' h
  obtain ⟨hn, d, hd, rfl⟩ := exists_of_run_makeDirs h
  have hgrows : Disk.Grows w.disk d := Disk.grows_of_makeDirs hd
  have hheld : d.held = w.disk.held := by
    have hh := Disk.held_makeDirs w.disk p.root p.parts
    rwa [hd] at hh
  refine ⟨hgrows, fun e hg he => ?_⟩
  have hstat := Disk.stat_of_grows hg (stat_of_run_makeDirs h)
  rw [hheld, ← he]
  exact run_makeDirs (w := { w with disk := e }) hn hstat

theorem echoes_holdFile (path : String) : Echoes (holdFile path) := by
  intro w number w' h
  obtain ⟨u, w₁, hc, h⟩ := exists_of_run_bind h
  have hn := nul_not_mem_of_checkPath (w := w) (u := u) (congrArg Prod.fst hc)
  obtain rfl : w = w₁ := congrArg Prod.snd ((run_checkPath hn w).symm.trans hc)
  rw [run_bind_eq (run_world w)] at h
  cases hd : w.disk.hold path with
  | error e =>
    rw [hd] at h
    cases congrArg Prod.fst h
  | ok r =>
    obtain ⟨d, n⟩ := r
    rw [hd] at h
    obtain rfl : n = number := Except.ok.inj (congrArg Prod.fst h)
    obtain rfl : { w with disk := d } = w' := congrArg Prod.snd h
    refine ⟨(Disk.keeps_hold (P := fun _ => True) trivial hd).grows, fun e hg he => ?_⟩
    unfold holdFile
    rw [run_bind_eq (run_checkPath hn _), run_bind_eq (run_world _)]
    dsimp only
    rw [Disk.hold_again hd hg he]
    rfl

end Sweep

open Sweep

/-! ## Loggers -/

namespace Logger

theorem echoes_isOn (name default : String) : Echoes (isOn name default) :=
  (echoes_lookupVar _).bind fun _ => echoes_pure _

theorem echoes_addHandler (h : Log.Handler) : Echoes (addHandler h) :=
  echoes_modify fun _ _ => rfl

theorem echoes_openFile (dir : Path) (name : String) : Echoes (openFile dir name) :=
  (echoes_absolute _).bind fun _ => echoes_holdFile _

theorem echoes_prepare (level : Log.Level) : Echoes (prepare level) := by
  have last : Echoes (do if ← isOn "METRICS_ENABLED" "1" then addHandler ⟨0, .counters⟩) :=
    (echoes_isOn _ _).bind fun _ => (echoes_addHandler _).ite (echoes_pure _)
  unfold prepare
  refine echoes_world (fun _ _ => rfl) fun _ => Echoes.ite (echoes_pure _) ?_
  refine (echoes_lookupVar _).bind fun _ => (echoes_ofExcept _).bind fun _ => ?_
  refine Echoes.bind (echoes_modify fun _ _ => rfl) fun _ => (echoes_addHandler _).bind fun _ => ?_
  refine (echoes_isOn _ _).bind fun _ => Echoes.ite ?_ last
  refine (echoes_lookupVar _).bind fun _ => (echoes_makeDirs _).bind fun _ => ?_
  refine echoes_world (fun _ _ => rfl) fun _ => (echoes_ofExcept _).bind fun _ => ?_
  refine (echoes_openFile _ _).bind fun _ => (echoes_addHandler _).bind fun _ => ?_
  refine (echoes_isOn _ _).bind fun _ => Echoes.ite ?_ last
  exact (echoes_openFile _ _).bind fun _ => (echoes_addHandler _).bind fun _ => last

/-- A logger is opened again, with the same log files. -/
theorem echoes_create (name : String) (level : Option String) : Echoes (create name level) := by
  unfold create
  cases level
  case' some word => refine (echoes_pure word).bind ?_
  case' none => refine (echoes_lookupVar _).bind fun _ => (echoes_pure _).bind ?_
  all_goals
    intro word
    refine Echoes.bind (echoes_modify fun _ _ => rfl) fun _ => (echoes_ofExcept _).bind fun _ => ?_
    refine Echoes.bind (echoes_modify fun _ _ => rfl) fun _ =>
      echoes_world (fun _ _ => rfl) fun _ => ?_
    refine Echoes.ite ((echoes_prepare _).bind fun _ => ?_) (echoes_pure _)
    exact Echoes.bind (echoes_modify fun _ _ => rfl) fun _ => echoes_pure _

end Logger

end ConsoleSweep
