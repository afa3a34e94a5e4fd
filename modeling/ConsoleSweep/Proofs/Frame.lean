/-
  What a piece of work leaves as it was.

  `Turns I J P work` says that `work` leaves files alone but for those that are open or that
  a path in `P` leads to, in the sense of `Disk.Keeps`, and that it leads from `I` to `J`,
  which are properties of what it sees of its surroundings besides the files. It holds
  whether the work is done or given up in the middle. Most work preserves what it starts
  with, and has a `Frame`. The rules follow the ways in which work is put together; the
  frames of the basic operations stand behind them.
-/
import ConsoleSweep.Proofs.Disk.Kept
import ConsoleSweep.World

namespace ConsoleSweep

/-- What a piece of work sees of its surroundings besides the files, the log and the counters. -/
structure View where
  env : List (String × String)
  homes : List (String × String)
  now : Number
  cwd : Anchor
  input : List Char

/-- The view of the surroundings. -/
def World.view (w : World) : View :=
  ⟨w.env, w.homes, w.now, w.disk.cwd, w.input⟩

namespace Sweep

variable {α β : Type}

/-- What comes of a piece of work: its value, or the fault it was given up with. -/
def outcome (work : Sweep α) (w : World) : Except Fault α :=
  (work.run.run w).1

/-- The surroundings after a piece of work. -/
def after (work : Sweep α) (w : World) : World :=
  (work.run.run w).2

@[simp] theorem after_attempt (work : Sweep α) (w : World) :
    (attempt work).after w = work.after w := rfl

theorem run_pure (a : α) (w : World) : (pure a : Sweep α).run.run w = (.ok a, w) := rfl

theorem run_attempt (work : Sweep α) (w : World) : (attempt work).run.run w =
    (.ok (work.run.run w).1, (work.run.run w).2) := rfl

theorem run_bind (work : Sweep α) (next : α → Sweep β) (w : World) :
    (work >>= next).run.run w =
      match work.run.run w with
      | (.ok a, w') => (next a).run.run w'
      | (.error f, w') => (.error f, w') := by
  change (match work.run.run w with
    | (r, w') => (ExceptT.bindCont next r).run w') = _
  cases work.run.run w with
  | mk r w' => cases r <;> rfl

theorem run_bind_ok {work : Sweep α} {w : World} {a : α} (h : work.outcome w = .ok a)
    (next : α → Sweep β) : (work >>= next).run.run w = (next a).run.run (work.after w) := by
  have hw : work.run.run w = (.ok a, work.after w) := Prod.ext h rfl
  rw [run_bind, hw]

theorem run_bind_error {work : Sweep α} {w : World} {f : Fault} (h : work.outcome w = .error f)
    (next : α → Sweep β) : (work >>= next).run.run w = (.error f, work.after w) := by
  have hw : work.run.run w = (.error f, work.after w) := Prod.ext h rfl
  rw [run_bind, hw]

theorem after_bind_ok {work : Sweep α} {w : World} {a : α} (h : work.outcome w = .ok a)
    (next : α → Sweep β) : (work >>= next).after w = (next a).after (work.after w) :=
  congrArg Prod.snd (run_bind_ok h next)

theorem after_bind_error {work : Sweep α} {w : World} {f : Fault} (h : work.outcome w = .error f)
    (next : α → Sweep β) : (work >>= next).after w = work.after w :=
  congrArg Prod.snd (run_bind_error h next)

theorem outcome_bind_ok {work : Sweep α} {w : World} {a : α} (h : work.outcome w = .ok a)
    (next : α → Sweep β) : (work >>= next).outcome w = (next a).outcome (work.after w) :=
  congrArg Prod.fst (run_bind_ok h next)

theorem outcome_bind_error {work : Sweep α} {w : World} {f : Fault}
    (h : work.outcome w = .error f) (next : α → Sweep β) :
    (work >>= next).outcome w = .error f :=
  congrArg Prod.fst (run_bind_error h next)

/-- What two pieces of work come to, one after the other. -/
theorem outcome_bind_eq_ok {work : Sweep α} {next : α → Sweep β} {w : World} {b : β}
    (h : (work >>= next).outcome w = .ok b) :
    ∃ a, work.outcome w = .ok a ∧ (next a).outcome (work.after w) = .ok b := by
  cases ha : work.outcome w with
  | error f =>
    rw [outcome_bind_error ha] at h
    simp at h
  | ok a =>
    rw [outcome_bind_ok ha] at h
    exact ⟨a, rfl, h⟩

theorem outcome_ite {p : Prop} [Decidable p] (x y : Sweep α) (w : World) :
    (if p then x else y).outcome w = if p then x.outcome w else y.outcome w := by
  split <;> rfl

theorem outcome_ofExcept {e : Except Fault α} {a : α} {w : World}
    (h : (ofExcept e).outcome w = .ok a) : e = .ok a := by
  cases e with
  | ok b => exact h
  | error f => exact h

/-! ## What is read of the surroundings -/

theorem outcome_cwd (w : World) : cwd.outcome w =
    match w.disk.cwd.place? with
    | some p => .ok p.text
    | none => .error .noWorkDir := by
  unfold cwd
  rw [outcome_bind_ok (a := w) rfl]
  cases w.disk.cwd.place? <;> rfl

/-- The normal form of a path depends on the working directory alone. -/
theorem outcome_absolute {w w' : World} (h : w.view = w'.view) (path : String) :
    (absolute path).outcome w = (absolute path).outcome w' := by
  have hc : cwd.outcome w = cwd.outcome w' := by
    have : w.disk.cwd = w'.disk.cwd := congrArg View.cwd h
    rw [outcome_cwd, outcome_cwd, this]
  unfold absolute
  split
  · rfl
  · cases ho : cwd.outcome w with
    | error f => rw [outcome_bind_error ho, outcome_bind_error (hc ▸ ho)]
    | ok s =>
      rw [outcome_bind_ok ho, outcome_bind_ok (hc ▸ ho)]
      rfl

/-- What `~` stands for depends on the environment and the home directories alone. -/
theorem outcome_expandHome {w w' : World} (he : w.env = w'.env) (hh : w.homes = w'.homes)
    (p : Path) : (expandHome p).outcome w = (expandHome p).outcome w' := by
  unfold expandHome
  split
  · split
    · rw [outcome_bind_ok (a := w) rfl, outcome_bind_ok (a := w') rfl, he, hh]
      simp only
      split
      · rfl
      · rw [outcome_ite, outcome_ite]
        rfl
    · rfl
  · rfl

theorem outcome_readLine (w : World) : readLine.outcome w =
    .ok (if w.input = [] then none else some (w.input.takeWhile (· ≠ '\n'))) := by
  unfold readLine
  rw [outcome_bind_ok (a := w) rfl]
  cases h : w.input with
  | nil => rfl
  | cons x text =>
    rw [if_neg (List.cons_ne_nil x text)]
    rfl

theorem after_readLine (w : World) : readLine.after w =
    { w with input := (w.input.dropWhile (· ≠ '\n')).drop 1 } := by
  unfold readLine
  rw [after_bind_ok (a := w) rfl]
  cases h : w.input with
  | nil =>
    have hw : w = { w with input := [] } := by rw [← h]
    exact hw
  | cons x text => rfl

/-! ## Frames -/

/-- The work leads from `I` to `J`, and it preserves files but for those that are open or that `P`
leads to. -/
@[irreducible] def Turns (I J : View → Prop) (P : String → Prop) (work : Sweep α) : Prop :=
  ∀ w, I w.view → J (work.after w).view ∧ Disk.Keeps P w.disk (work.after w).disk

/-- The work preserves `I`, and files as above. -/
@[irreducible] def Frame (I : View → Prop) (P : String → Prop) (work : Sweep α) : Prop :=
  Turns I I P work

variable {I J K : View → Prop} {P : String → Prop}

theorem turns_iff {work : Sweep α} : Turns I J P work ↔
    ∀ w, I w.view → J (work.after w).view ∧ Disk.Keeps P w.disk (work.after w).disk := by
  unfold Turns
  exact Iff.rfl

theorem frame_iff_turns {work : Sweep α} : Frame I P work ↔ Turns I I P work := by
  unfold Frame
  exact Iff.rfl

theorem frame_iff {work : Sweep α} : Frame I P work ↔
    ∀ w, I w.view → I (work.after w).view ∧ Disk.Keeps P w.disk (work.after w).disk :=
  frame_iff_turns.trans turns_iff

/-- One piece of work after the other. What comes next may rely on where the value came from. -/
theorem Turns.bind_of {work : Sweep α} {next : α → Sweep β} (hw : Turns I J P work)
    (hJ : ∀ v, J v → K v)
    (hn : ∀ w a, I w.view → work.outcome w = .ok a → Turns J K P (next a)) :
    Turns I K P (work >>= next) := by
  refine turns_iff.2 fun w hI => ?_
  obtain ⟨hv, hk⟩ := turns_iff.1 hw w hI
  cases h : work.outcome w with
  | error f =>
    rw [after_bind_error h]
    exact ⟨hJ _ hv, hk⟩
  | ok a =>
    obtain ⟨hv', hk'⟩ := turns_iff.1 (hn w a hI h) _ hv
    rw [after_bind_ok h]
    exact ⟨hv', hk.trans hk'⟩

theorem Frame.bind_of {work : Sweep α} {next : α → Sweep β} (hw : Frame I P work)
    (hn : ∀ w a, I w.view → work.outcome w = .ok a → Frame I P (next a)) :
    Frame I P (work >>= next) :=
  frame_iff_turns.2 ((frame_iff_turns.1 hw).bind_of (fun _ h => h) fun w a hI h =>
    frame_iff_turns.1 (hn w a hI h))

theorem Frame.bind {work : Sweep α} {next : α → Sweep β} (hw : Frame I P work)
    (hn : ∀ a, Frame I P (next a)) : Frame I P (work >>= next) :=
  hw.bind_of fun _ a _ _ => hn a

/-- Work that turns comes after work that does not. -/
theorem Frame.bind_turns {work : Sweep α} {next : α → Sweep β} (hw : Frame I P work)
    (hJ : ∀ v, I v → J v) (hn : ∀ a, Turns I J P (next a)) : Turns I J P (work >>= next) :=
  (frame_iff_turns.1 hw).bind_of hJ fun _ a _ _ => hn a

/-- Work that does not turn comes after work that does. -/
theorem Turns.bind {work : Sweep α} {next : α → Sweep β} (hw : Turns I J P work)
    (hn : ∀ a, Frame J P (next a)) : Turns I J P (work >>= next) :=
  hw.bind_of (fun _ h => h) fun _ a _ _ => frame_iff_turns.1 (hn a)

theorem Frame.turns {work : Sweep α} (hw : Frame I P work) (hJ : ∀ v, I v → J v) :
    Turns I J P work := by
  refine turns_iff.2 fun w hI => ?_
  obtain ⟨hv, hk⟩ := frame_iff.1 hw w hI
  exact ⟨hJ _ hv, hk⟩

/-- Work that changes neither the view nor the files. -/
theorem frame_of_same {work : Sweep α}
    (h : ∀ w, (work.after w).view = w.view ∧ (work.after w).disk = w.disk) : Frame I P work := by
  refine frame_iff.2 fun w hI => ?_
  rw [(h w).1, (h w).2]
  exact ⟨hI, Disk.Keeps.refl P w.disk⟩

theorem frame_pure (a : α) : Frame I P (pure a) :=
  frame_of_same fun _ => ⟨rfl, rfl⟩

theorem frame_fail (f : Fault) : Frame I P (fail f : Sweep α) :=
  frame_of_same fun _ => ⟨rfl, rfl⟩

theorem frame_world : Frame I P world :=
  frame_of_same fun _ => ⟨rfl, rfl⟩

theorem Frame.attempt {work : Sweep α} (hw : Frame I P work) : Frame I P (attempt work) := by
  refine frame_iff.2 fun w hI => ?_
  rw [after_attempt]
  exact frame_iff.1 hw w hI

theorem Frame.ite {p : Prop} [Decidable p] {x y : Sweep α} (hx : Frame I P x)
    (hy : Frame I P y) : Frame I P (if p then x else y) := by
  split
  · exact hx
  · exact hy

theorem frame_ofExcept (e : Except Fault α) : Frame I P (ofExcept e) := by
  cases e with
  | ok a => exact frame_pure a
  | error f => exact frame_fail f

theorem frame_modify {f : World → World} (h : ∀ w, (f w).view = w.view ∧ (f w).disk = w.disk) :
    Frame I P (modify f : Sweep Unit) :=
  frame_of_same h

theorem frame_forM (xs : List α) {f : α → Sweep PUnit} (h : ∀ x, Frame I P (f x)) :
    Frame I P (xs.forM f) := by
  induction xs with
  | nil => exact frame_pure _
  | cons x xs ih => exact (h x).bind fun _ => ih

theorem frame_foldlM (xs : List α) {f : β → α → Sweep β} (h : ∀ b x, Frame I P (f b x)) (b : β) :
    Frame I P (xs.foldlM f b) := by
  induction xs generalizing b with
  | nil => exact frame_pure b
  | cons x xs ih => exact (h b x).bind fun b' => ih b'

theorem frame_option_forM (x : Option α) {f : α → Sweep PUnit} (h : ∀ a, Frame I P (f a)) :
    Frame I P (x.forM f) := by
  cases x with
  | none => exact frame_pure _
  | some a => exact h a

/-! ## Results -/

/-- If the work comes to a value, `Q` holds for it. -/
def Gives (Q : α → Prop) (work : Sweep α) : Prop :=
  ∀ w a, work.outcome w = .ok a → Q a

theorem gives_pure {Q : α → Prop} {a : α} (h : Q a) : Gives Q (pure a) := by
  intro w b hb
  obtain rfl : a = b := Except.ok.inj hb
  exact h

theorem Gives.bind_of {Q : α → Prop} {R : β → Prop} {work : Sweep α} {next : α → Sweep β}
    (hw : Gives Q work) (hn : ∀ a, Q a → Gives R (next a)) : Gives R (work >>= next) := by
  intro w b hb
  obtain ⟨a, ha, hb⟩ := outcome_bind_eq_ok hb
  exact hn a (hw w a ha) _ b hb

theorem Gives.bind {R : β → Prop} {work : Sweep α} {next : α → Sweep β}
    (hn : ∀ a, Gives R (next a)) : Gives R (work >>= next) := by
  intro w b hb
  obtain ⟨a, -, hb⟩ := outcome_bind_eq_ok hb
  exact hn a _ b hb

/-! ## Environment and terminal -/

theorem frame_lookupVar (name : String) : Frame I P (lookupVar name) :=
  frame_of_same fun _ => ⟨rfl, rfl⟩

theorem frame_print (s : String) : Frame I P (print s) :=
  frame_of_same fun _ => ⟨rfl, rfl⟩

theorem frame_say (s : String) : Frame I P (say s) :=
  frame_print _

theorem frame_warn (s : String) : Frame I P (warn s) :=
  frame_of_same fun _ => ⟨rfl, rfl⟩

/-! ## Files -/

theorem frame_cwd : Frame I P cwd := by
  refine frame_world.bind fun w => ?_
  split
  · exact frame_pure _
  · exact frame_fail _

theorem frame_absolute (path : String) : Frame I P (absolute path) := by
  unfold absolute
  exact (frame_pure _).ite (frame_cwd.bind fun _ => frame_pure _)

theorem frame_checkPath (path : String) : Frame I P (checkPath path) := by
  unfold checkPath
  exact (frame_fail _).ite (frame_pure _)

theorem frame_refused (path : String) (e : Except Errno α) : Frame I P (refused path e) := by
  cases e with
  | ok a => exact frame_pure a
  | error e => exact frame_fail _

theorem frame_readBytes (path : String) : Frame I P (readBytes path) :=
  (frame_checkPath path).bind fun _ => frame_world.bind fun _ => frame_refused path _

theorem frame_readText (path : String) : Frame I P (readText path) := by
  refine (frame_readBytes path).bind fun bytes => ?_
  split
  · exact frame_pure _
  · exact frame_fail _

/-- Surroundings with another tree that keeps the old one. -/
theorem view_of_keeps {w : World} {d : Disk} (h : Disk.Keeps P w.disk d) :
    ({ w with disk := d } : World).view = w.view := by
  unfold World.view
  simp only [h.grows.cwd]

/-- An operation on files that answers with the new tree. -/
theorem frame_change {path : String} (change : Disk → Except Errno Disk)
    (h : ∀ d d', change d = .ok d' → Disk.Keeps P d d') :
    Frame I P (do
      let w ← world
      let disk ← refused path (change w.disk)
      modify fun w => { w with disk }) := by
  refine frame_iff.2 fun w hI => ?_
  rw [after_bind_ok (a := w) rfl]
  change I ((refused path (change w.disk) >>= _).after w).view ∧
    Disk.Keeps P w.disk ((refused path (change w.disk) >>= _).after w).disk
  cases hc : change w.disk with
  | error e => exact ⟨hI, Disk.Keeps.refl P w.disk⟩
  | ok d =>
    have hk := h w.disk d hc
    refine ⟨?_, hk⟩
    have hv := view_of_keeps hk
    exact hv ▸ hI

theorem frame_writeBytes {path : String} (hP : P path) (bytes : Text.Bytes) :
    Frame I P (writeBytes path bytes) :=
  (frame_checkPath path).bind fun _ =>
    frame_change (fun d => d.write path bytes) fun _ _ h => Disk.keeps_update hP h

theorem frame_writeText {path : String} (hP : P path) (text : List Char) :
    Frame I P (writeText path text) :=
  frame_writeBytes hP _

theorem frame_appendText {path : String} (hP : P path) (text : List Char) :
    Frame I P (appendText path text) :=
  (frame_checkPath path).bind fun _ =>
    frame_change (fun d => d.append path (Text.encode text)) fun _ _ h => Disk.keeps_update hP h

theorem frame_holdFile {path : String} (hP : P path) : Frame I P (holdFile path) := by
  refine (frame_checkPath path).bind fun _ => frame_iff.2 fun w hI => ?_
  rw [after_bind_ok (a := w) rfl]
  change I ((refused path (w.disk.hold path) >>= _).after w).view ∧
    Disk.Keeps P w.disk ((refused path (w.disk.hold path) >>= _).after w).disk
  cases hc : w.disk.hold path with
  | error e => exact ⟨hI, Disk.Keeps.refl P w.disk⟩
  | ok r =>
    obtain ⟨d, number⟩ := r
    have hk : Disk.Keeps P w.disk d := Disk.keeps_hold hP hc
    refine ⟨?_, hk⟩
    have hv := view_of_keeps hk
    exact hv ▸ hI

theorem frame_makeDirs (p : Path) : Frame I P (makeDirs p) := by
  refine (frame_checkPath p.text).bind fun _ => frame_iff.2 fun w hI => ?_
  rw [after_bind_ok (a := w) rfl]
  have hk := Disk.keeps_makeDirs P w.disk p.root p.parts
  have hv := view_of_keeps hk
  have hw : world.after w = w := rfl
  rw [hw]
  split
  · next d h =>
    rw [h] at hk hv
    exact ⟨hv ▸ hI, hk⟩
  · next d e path h =>
    rw [h] at hk hv
    exact ⟨hv ▸ hI, hk⟩

theorem frame_nodeAt? (path : String) : Frame I P (nodeAt? path) := by
  unfold nodeAt?
  refine (frame_pure _).ite (frame_world.bind fun w => ?_)
  split
  · exact frame_pure _
  · exact frame_pure _
  · exact frame_pure _
  · exact frame_pure _
  · exact frame_fail _

theorem frame_pathExists (p : Path) : Frame I P (pathExists p) :=
  (frame_nodeAt? p.text).bind fun _ => frame_pure _

theorem frame_isDirectory (path : String) : Frame I P (isDirectory path) :=
  (frame_nodeAt? path).bind fun _ => frame_pure _

theorem frame_resolve (p : Path) : Frame I P (resolve p) := by
  refine (frame_checkPath p.text).bind fun _ => frame_world.bind fun w => ?_
  simp only
  split
  · exact frame_fail _
  · split
    · exact frame_fail _
    · exact frame_pure _

theorem frame_expandHome (p : Path) : Frame I P (expandHome p) := by
  unfold expandHome
  split
  · split
    · refine frame_world.bind fun w => ?_
      simp only
      split
      · exact frame_fail _
      · refine Frame.ite ?_ ?_
        · exact (frame_fail _).bind fun _ => frame_pure _
        · exact frame_pure _
    · exact frame_pure _
  · exact frame_pure _

/-! ## Counters -/

theorem frame_metrics : Frame I P metrics := by
  refine frame_of_same fun w => ?_
  unfold metrics
  rw [after_bind_ok (a := w) rfl]
  cases hm : w.metrics with
  | none => simp only; exact ⟨rfl, rfl⟩
  | some m => exact ⟨rfl, rfl⟩

theorem frame_count (change : Metrics → Number → Metrics × Option Fault) :
    Frame I P (count change) := by
  unfold count
  refine frame_metrics.bind fun m => frame_world.bind fun w => ?_
  refine Frame.bind (frame_modify ?_) fun _ => ?_
  · intro w; exact ⟨rfl, rfl⟩
  · split
    · exact frame_fail _
    · exact frame_pure _

theorem frame_snapshot : Frame I P snapshot := by
  unfold snapshot
  refine frame_metrics.bind fun m => frame_world.bind fun w => ?_
  refine Frame.bind (frame_modify ?_) fun _ => frame_ofExcept _
  intro w; exact ⟨rfl, rfl⟩

theorem frame_writeSnapshot {p : Path} (hP : P p.text) : Frame I P (writeSnapshot p) := by
  unfold writeSnapshot
  refine frame_snapshot.bind fun shown => (frame_makeDirs p.parent).bind fun _ =>
    (frame_appendText hP []).bind fun _ => ?_
  refine Frame.ite ?_ ?_
  · exact (frame_fail _).bind fun _ => frame_appendText hP _
  · exact frame_appendText hP _

/-! ## Log -/

theorem frame_countRecord (r : Log.Record) : Frame I P (countRecord r) := by
  unfold countRecord
  split
  · exact frame_pure _
  · split
    · exact frame_fail _
    · exact (frame_count _).bind fun _ => (frame_count _).ite (frame_pure _)

theorem frame_complain : Frame I P complain :=
  frame_warn _

theorem frame_logLine (file : Nat) (line : String) : Frame I P (logLine file line) := by
  unfold logLine
  refine frame_world.bind fun _ => Frame.ite (frame_iff.2 fun w hI => ?_) frame_complain
  have hk := Disk.keeps_appendHeld P w.disk file (Text.encode (line ++ "\n").toList)
  have hv := view_of_keeps hk
  exact ⟨hv ▸ hI, hk⟩

theorem frame_deliver (r : Log.Record) (message : String) (sink : Log.Sink) :
    Frame I P (deliver r message sink) := by
  cases sink with
  | silent => exact frame_pure _
  | terminal => exact frame_warn _
  | plainFile file => exact frame_logLine file _
  | jsonFile file =>
    rw [deliver]
    cases r.jsonLine with
    | ok line => exact frame_logLine file _
    | error _ => exact frame_complain
  | counters => exact frame_countRecord r

theorem frame_emit (r : Log.Record) : Frame I P (emit r) := by
  unfold emit
  refine Frame.bind (frame_modify ?_) fun _ => frame_world.bind fun w => ?_
  · intro w; exact ⟨rfl, rfl⟩
  · simp only
    split
    · refine (frame_ofExcept _).bind fun message => ?_
      split
      · exact Frame.ite (frame_warn _) (frame_pure _)
      · refine frame_forM _ fun h => ?_
        exact Frame.ite (frame_deliver r message h.sink) (frame_pure _)
    · exact frame_pure _

theorem frame_log (logger : String) (level : Log.Level) (message : String) :
    Frame I P (log logger level message) :=
  frame_world.bind fun _ => frame_emit _

theorem frame_logWith (logger : String) (level : Log.Level) (message : String)
    (extras : List (String × Json)) (isInternal : Bool) :
    Frame I P (logWith logger level message extras isInternal) :=
  frame_world.bind fun _ => frame_emit _

end Sweep

end ConsoleSweep
