/-
  The parts of a scan that ended well.

  A scan records the results, saves them, prints them and adds the counters to their file.
  Here it is told from the whole what each part has come to, and what the parts leave behind
  for a later command: the text of the store (`Store.text?_of_save`), and a file for the
  counters that can be added to again (`Prepared`).
-/
import ConsoleSweep.Proofs.Consent
import ConsoleSweep.Proofs.Echo
import ConsoleSweep.Proofs.Snapshot
import ConsoleSweep.Proofs.Store.Files
import ConsoleSweep.Proofs.Store.Operations

namespace ConsoleSweep

/-- Something was done in between that prints nothing and writes no files but the open ones. -/
structure World.Aside (w w' : World) : Prop where
  hushed : w.Hushed w'
  view : w'.view = w.view
  keeps : ∀ P, Disk.Keeps P w.disk w'.disk

namespace World.Aside

variable {w w' w'' : World}

theorem refl (w : World) : w.Aside w :=
  ⟨.refl w, rfl, fun P => .refl P _⟩

theorem trans (h : w.Aside w') (h' : w'.Aside w'') : w.Aside w'' :=
  ⟨h.hushed.trans h'.hushed, h'.view.trans h.view, fun P => (h.keeps P).trans (h'.keeps P)⟩

theorem grows (h : w.Aside w') : Disk.Grows w.disk w'.disk :=
  (h.keeps fun _ => True).grows

end World.Aside

namespace Sweep

variable {w w' : World} {path : String} {p : Path} {k : Nat}

theorem Frame.of_run {α : Type} {I : View → Prop} {P : String → Prop} {work : Sweep α}
    (hf : Frame I P work) (hI : I w.view) {r : Except Fault α} (h : work.run.run w = (r, w')) :
    I w'.view ∧ Disk.Keeps P w.disk w'.disk := by
  have hk := frame_iff.1 hf w hI
  unfold after at hk
  rwa [h] at hk

theorem aside_of_run {α : Type} {work : Sweep α} (hh : Hush work)
    (hf : ∀ P, Frame (· = w.view) P work) {r : Except Fault α}
    (h : work.run.run w = (r, w')) : w.Aside w' :=
  ⟨hh.of_run h, ((hf fun _ => True).of_run rfl h).1, fun P => ((hf P).of_run rfl h).2⟩

/-! ## Files that are added to -/

theorem exists_file_of_appendText {text : List Char}
    (h : (appendText path text).run.run w = (.ok (), w')) :
    '\x00' ∉ path.toList ∧
      ∃ f, w'.disk.file? path = some f ∧ w'.disk.refuses f.place = false := by
  obtain ⟨u, w₁, hc, h⟩ := exists_of_run_bind h
  have hn := nul_not_mem_of_checkPath (w := w) (u := u) (congrArg Prod.fst hc)
  obtain rfl : w = w₁ := congrArg Prod.snd ((run_checkPath hn w).symm.trans hc)
  refine ⟨hn, ?_⟩
  rw [run_bind_eq (run_world w)] at h
  cases hd : w.disk.append path (Text.encode text) with
  | error e =>
    rw [hd] at h
    cases congrArg Prod.fst h
  | ok d =>
    rw [hd] at h
    obtain rfl : { w with disk := d } = w' := congrArg Prod.snd h
    exact Disk.exists_file?_of_written hd

/-- A file that is there and may be written is added to. -/
theorem run_appendText {f : Disk.File} (hn : '\x00' ∉ path.toList)
    (hf : w.disk.file? path = some f) (hr : w.disk.refuses f.place = false) (text : List Char) :
    (appendText path text).run.run w = (.ok (), { w with
      disk := w.disk.replaceFile f.place f.bytes (f.bytes ++ Text.encode text) }) :=
  run_appendText_of_append hn (Disk.update_of_file? hf hr)

/-- There is a file at the path that may be written, and the directory above it is there by the name
it has in the path. -/
structure Prepared (d : Disk) (p : Path) : Prop where
  noNul : '\x00' ∉ p.text.toList
  noNulAbove : '\x00' ∉ p.parent.text.toList
  above : d.stat p.parent.text = .ok .dir
  file : ∃ f, d.file? p.text = some f ∧ d.refuses f.place = false

theorem Prepared.of_grows {d d' : Disk} (h : Prepared d p) (hg : Disk.Grows d d') :
    Prepared d' p := by
  obtain ⟨f, hf, hr⟩ := h.file
  obtain ⟨f', hf', hplace⟩ := Disk.file?_of_grows hg hf
  have hr' : d'.refuses f'.place = false := by
    unfold Disk.refuses at hr ⊢
    rwa [hplace, hg.medium]
  exact ⟨h.noNul, h.noNulAbove, Disk.stat_of_grows hg h.above, f', hf', hr'⟩

theorem grows_of_appendText {text : List Char} {r : Except Fault Unit}
    (h : (appendText path text).run.run w = (r, w')) : Disk.Grows w.disk w'.disk :=
  have hf : Frame (· = w.view) (fun _ => True) (appendText path text) :=
    frame_appendText trivial text
  (hf.of_run rfl h).2.grows

/-! ## The file for the counters -/

/-- A snapshot that was added to a file could be dated, and the file is there. -/
theorem prepared_of_writeSnapshot (ht : w.Timely)
    (h : (writeSnapshot p).run.run w = (.ok (), w')) :
    Metrics.Datable w.now ∧ Prepared w'.disk p := by
  obtain ⟨shown, w₁, hshown, h⟩ := exists_of_run_bind h
  obtain ⟨u, w₂, hmade, h⟩ := exists_of_run_bind h
  obtain ⟨u', w₃, hopened, h⟩ := exists_of_run_bind h
  rw [run_snapshot] at hshown
  cases hw : shown.isWritable with
  | false =>
    rw [hw, Bool.not_false, if_pos rfl] at h
    cases congrArg Prod.fst h
  | true =>
    rw [hw, Bool.not_true, if_neg Bool.false_ne_true] at h
    refine ⟨Metrics.datable_of_snapshot ht.counters (congrArg Prod.fst hshown) hw, ?_⟩
    obtain ⟨hnul, hfile⟩ := exists_file_of_appendText h
    obtain ⟨habove, -⟩ := exists_of_run_makeDirs hmade
    have hdir := stat_of_run_makeDirs hmade
    have hgrows := (grows_of_appendText hopened).trans (grows_of_appendText h)
    exact ⟨hnul, habove, Disk.stat_of_grows hgrows hdir, hfile⟩

/-- A snapshot of small sums is added to a file that is there. -/
theorem run_writeSnapshot (hf : w.Few k) (hk : k < 10) (ht : w.Timely)
    (hd : Metrics.Datable w.now) (hp : Prepared w.disk p) :
    ∃ w', (writeSnapshot p).run.run w = (.ok (), w') ∧ w'.Sound := by
  obtain ⟨shown, hshown, hw, hplain⟩ := hf.counters.snapshot hk ht.counters hd
  have htaken : snapshot.run.run w =
      (.ok shown, { w with metrics := some (w.counters.snapshot w.now).1 }) := by
    rw [run_snapshot, hshown]
  generalize hw₁ : { w with metrics := some (w.counters.snapshot w.now).1 } = w₁ at htaken
  have hd₁ : w₁.disk = w.disk := by rw [← hw₁]
  have hs₁ : w₁.Sound := by
    rw [← hw₁]
    rintro _ ⟨⟩
    exact hplain
  have hp₁ : Prepared w₁.disk p := hd₁ ▸ hp
  have hmade := run_makeDirs (w := w₁) hp₁.noNulAbove hp₁.above
  obtain ⟨f, hf, hr⟩ := hp₁.file
  have hopened := run_appendText hp₁.noNul hf hr []
  obtain ⟨f', hf', hr'⟩ := (hp₁.of_grows (grows_of_appendText hopened)).file
  have hadded := run_appendText hp₁.noNul hf' hr' (shown.line ++ ['\n'])
  unfold writeSnapshot
  rw [run_bind_eq htaken, run_bind_eq hmade, run_bind_eq hopened, hw, Bool.not_true,
    if_neg Bool.false_ne_true, hadded]
  exact ⟨_, rfl, hs₁⟩

/-- A path that leads to a directory. -/
theorem stat_of_isDirectory (h : (isDirectory path).outcome w = .ok true) :
    '\x00' ∉ path.toList ∧ w.disk.stat path = .ok .dir := by
  obtain ⟨found, hfound, hdir⟩ := outcome_bind_eq_ok h
  have hsome : found = some .dir := by simpa using Except.ok.inj hdir
  rw [outcome_nodeAt?, hsome] at hfound
  split at hfound
  · cases hfound
  · next hn =>
    refine ⟨by simpa using hn, ?_⟩
    split at hfound
    · next n hseen =>
      rw [Except.ok.inj hfound] at hseen
      exact Disk.seen_eq_some.1 hseen
    · cases hfound

end Sweep

open Sweep

theorem Logger.calm_log (l : Logger) (level : Log.Level) (message : String) :
    Calm (l.log level message) :=
  Sweep.calm_log _ _ _

theorem Logger.aside_of_log {w w' : World} (l : Logger) {level : Log.Level} {message : String}
    {r : Except Fault Unit} (h : (l.log level message).run.run w = (r, w')) : w.Aside w' :=
  aside_of_run (hush_log _ _ _) (fun _ => Sweep.frame_log _ _ _) h

namespace Program

variable {c : Config} {log : Logger} {w w' : World} {code code' k : Nat}

/-! ## Printing -/

/-- The lines for some files. -/
def linesText (line : FileCount → String) : List FileCount → String
  | [] => ""
  | entry :: entries => line entry ++ "\n" ++ linesText line entries

/-- What is printed of the results, as seen from a directory: the line on what was found, and a line
for each file. -/
def resultsText (s : Store) (cwd root : String) : String :=
  foundLine s ++ "\n" ++ linesText (fileLine cwd root) s.entries

theorem run_sayAll (line : FileCount → String) (entries : List FileCount) (w : World) :
    (entries.forM fun entry => Sweep.say (line entry)).run.run w =
      (.ok (), { w with out := w.out ++ linesText line entries }) := by
  induction entries generalizing w with
  | nil =>
    have hw : { w with out := w.out ++ "" } = w := by rw [String.append_empty]
    exact Prod.ext rfl hw.symm
  | cons entry entries ih =>
    refine (ih { w with out := w.out ++ (line entry ++ "\n") }).trans ?_
    rw [linesText, String.append_assoc]

theorem run_printResults {s : Store} {root : Path} {cwd : String}
    (h : Sweep.cwd.outcome w = .ok cwd) : (printResults s root).run.run w =
      (.ok (), { w with out := w.out ++ resultsText s cwd root.text }) := by
  have hsaid : (Sweep.say (foundLine s)).run.run w =
      (.ok (), { w with out := w.out ++ (foundLine s ++ "\n") }) := rfl
  have hcwd := looks_cwd.run_eq (w := { w with out := w.out ++ (foundLine s ++ "\n") })
    ((outcome_cwd _).trans ((outcome_cwd w).symm.trans h))
  unfold printResults
  rw [run_bind_eq hsaid, run_bind_eq hcwd, run_sayAll, String.append_assoc]
  rfl

theorem exists_of_run_printResults {s : Store} {root : Path}
    (h : (printResults s root).run.run w = (.ok (), w')) :
    ∃ cwd, Sweep.cwd.outcome w = .ok cwd ∧
      w' = { w with out := w.out ++ resultsText s cwd root.text } := by
  obtain ⟨u, w₁, hsaid, hrest⟩ := exists_of_run_bind h
  obtain ⟨cwd, w₂, hcwd, -⟩ := exists_of_run_bind hrest
  obtain rfl : { w with out := w.out ++ (foundLine s ++ "\n") } = w₁ := congrArg Prod.snd hsaid
  have hcwd' : Sweep.cwd.outcome w = .ok cwd := by
    have ho : Sweep.cwd.outcome { w with out := w.out ++ (foundLine s ++ "\n") } = .ok cwd :=
      congrArg Prod.fst hcwd
    rwa [outcome_cwd] at ho ⊢
  refine ⟨cwd, hcwd', ?_⟩
  rw [run_printResults hcwd'] at h
  exact (congrArg Prod.snd h).symm

/-! ## Scanning -/

/-- The results of a scan come in order, and no count is zero. -/
theorem gives_scan (root : String) (settings : CleanerSettings) (progress : Nat → Sweep Unit) :
    Gives (fun r => r.1.Ordered ∧ r.1.Positive) (Scan.run root settings progress) := by
  refine Gives.bind fun real => Gives.bind fun isDir => ?_
  dsimp only
  split
  case' isTrue => refine Gives.bind fun _ => ?_
  all_goals
    refine Gives.bind fun _ => Gives.bind fun files => Gives.bind fun t => Gives.bind fun _ => ?_
    exact gives_pure ⟨Store.ordered_ofCounts _, Store.positive_ofCounts _⟩

/-- A scan that was not given up is one of a directory. -/
theorem isDirectory_of_scan {root : String} {settings : CleanerSettings}
    {progress : Nat → Sweep Unit} {r : Store × ScanSummary}
    (h : (Scan.run root settings progress).outcome w = .ok r) :
    ∃ real, (resolve (Path.ofString root)).outcome w = .ok real ∧
      w.disk.stat real.text = .ok .dir := by
  obtain ⟨real, hreal, h⟩ := outcome_bind_eq_ok h
  obtain ⟨isDir, hdir, h⟩ := outcome_bind_eq_ok h
  rw [looks_resolve _ w] at hdir
  refine ⟨real, hreal, ?_⟩
  cases isDir with
  | true => exact (stat_of_isDirectory hdir).2
  | false => cases h

theorem outcome_of_run_timed {α : Type} {work : Sweep α} {operation : String} {a : α}
    (h : (log.timed operation work).run.run w = (.ok a, w')) : work.outcome w = .ok a := by
  unfold Logger.timed at h
  rw [run_bind_eq (run_world w), run_bind_eq (run_attempt work w)] at h
  obtain ⟨_, _, -, h⟩ := exists_of_run_bind h
  obtain ⟨_, _, -, h⟩ := exists_of_run_bind h
  obtain ⟨_, _, -, h⟩ := exists_of_run_bind h
  exact outcome_ofExcept (congrArg Prod.fst h)

/-- Work that is timed comes to the same, and what is logged about it leaves no trace but in the
log. -/
theorem run_timed (log : Logger) (operation : String) {α : Type} {work : Sweep α} {a : α}
    {gap : Number} (hr : work.run.run w = (.ok a, w')) (hw : w'.Quiet) (hgap : w'.now.minus w.now = .ok gap)
    (hfloat : gap.isFloatable = true) : ∃ w'',
      (log.timed operation work).run.run w = (.ok a, w'') ∧ w'.Still w'' ∧ w'.Aside w'' := by
  have hattempt : (attempt work).run.run w = (.ok (.ok a), w') := by
    rw [run_attempt, hr]
  obtain ⟨u, w'', hlogged, hlater⟩ := log.calm_log Log.info
    ("PERFORMANCE: " ++ operation ++ " took " ++ Decimal.fixed 2 gap.toFloat ++ "s") w' hw.sound
  have hgap' : (ofExcept (w'.now.minus w.now)).run.run w' = (.ok gap, w') := by
    rw [hgap]
    rfl
  have htook : (log.performance operation gap).run.run w' = (.ok (), w'') := by
    unfold Logger.performance
    rw [hfloat, Bool.not_true, if_neg Bool.false_ne_true]
    exact hlogged
  refine ⟨w'', ?_, hlater.still hw, log.aside_of_log hlogged⟩
  unfold Logger.timed
  rw [run_bind_eq (run_world w), run_bind_eq hattempt, run_bind_eq (run_world w'),
    run_bind_eq hgap', run_bind_eq htook]
  rfl

theorem outcome_storeFile (he : w.env = w'.env) (hh : w.homes = w'.homes) :
    (storeFile c).outcome w = (storeFile c).outcome w' := by
  have hpath : c.storePath.outcome w = c.storePath.outcome w' :=
    c.outcome_resolvePath he hh (some c.runtime.storePath)
  unfold storeFile
  cases ho : c.storePath.outcome w with
  | error f => rw [outcome_bind_error ho, outcome_bind_error (hpath ▸ ho)]
  | ok found =>
    rw [outcome_bind_ok ho, outcome_bind_ok (hpath ▸ ho)]
    cases found <;> rfl

/-- The results of a scan of a directory were saved at the end. -/
structure Saved (c : Config) (root : Path) (s : Store) (w w' : World) : Prop where
  ordered : s.Ordered
  positive : s.Positive
  directory : ∃ real, (resolve (Path.ofString root.text)).outcome w = .ok real ∧
    w.disk.stat real.text = .ok .dir
  saved : ∃ w₁ p, w.Aside w₁ ∧ (storeFile c).outcome w = .ok p ∧
    (s.save p).run.run w₁ = (.ok (), w')

theorem saved_of_scanAndSave {root : Path} {s : Store}
    (h : (scanAndSave c log root).run.run w = (.ok (some s), w')) : Saved c root s w w' := by
  unfold scanAndSave at h
  dsimp only at h
  rw [run_bind_eq (run_attempt _ w)] at h
  cases hr : (log.timed "scan" (Scan.run root.text c.cleaner fun n =>
    Sweep.warn ("Scanned " ++ Text.ofNat n ++ " files..."))).run.run w with
  | mk r w₁ =>
    rw [hr] at h
    have haside : w.Aside w₁ :=
      aside_of_run (log.hush_timed _ (Scan.hush_run _ _ fun _ => hush_warn _))
        (fun _ => log.frame_timed _ (Scan.frame_run _ _ fun _ => frame_warn _)) hr
    cases r with
    | error f =>
      dsimp only at h
      split at h
      · obtain ⟨_, _, -, h⟩ := exists_of_run_bind h
        obtain ⟨_, _, -, h⟩ := exists_of_run_bind h
        cases congrArg Prod.fst h
      · cases congrArg Prod.fst h
    | ok r =>
      obtain ⟨s', summary⟩ := r
      have hscan := outcome_of_run_timed hr
      obtain ⟨hordered, hpositive⟩ := gives_scan _ _ _ w _ hscan
      have hlast : ∀ w₂, w₁.Aside w₂ →
          (do s'.save (← storeFile c); return some s' : Sweep (Option Store)).run.run w₂ =
            (.ok (some s), w') → Saved c root s w w' := by
        intro w₂ h₂ h
        obtain ⟨p, w₃, hp, h⟩ := exists_of_run_bind h
        obtain rfl : w₂ = w₃ := (looks_storeFile w₂).symm.trans (congrArg Prod.snd hp)
        obtain ⟨u, w₄, hsaved, h⟩ := exists_of_run_bind h
        obtain rfl : s' = s := Option.some.inj (Except.ok.inj (congrArg Prod.fst h))
        obtain rfl : w₄ = w' := congrArg Prod.snd h
        have hall := haside.trans h₂
        have hstore : (storeFile c).outcome w = .ok p :=
          (outcome_storeFile (congrArg View.env hall.view).symm
            (congrArg View.homes hall.view).symm).trans (congrArg Prod.fst hp)
        exact ⟨hordered, hpositive, isDirectory_of_scan hscan, w₂, p, hall, hstore, hsaved⟩
      dsimp only at h
      split at h
      · obtain ⟨u, w₂, hlogged, h⟩ := exists_of_run_bind h
        exact hlast w₂ (log.aside_of_log hlogged) h
      · exact hlast w₁ (.refl w₁) h

/-! ## The end of a command -/

/-- The code of a command stays as it is at the end. -/
theorem gives_conclude (log : Logger) (code : Nat) : Gives (· = code) (conclude c log code) := by
  refine Gives.bind fun found => ?_
  cases found with
  | none => exact gives_pure rfl
  | some p => exact Gives.bind fun _ => Gives.bind fun _ => gives_pure rfl

theorem ready_of_conclude (ht : w.Timely)
    (h : (conclude c log code).run.run w = (.ok code', w')) :
    ∃ found, c.metricsPath.outcome w = .ok found ∧
      ∀ p, found = some p → Metrics.Datable w.now ∧ Prepared w'.disk p := by
  obtain ⟨found, w₁, hfound, h⟩ := exists_of_run_bind h
  have hlooks : w₁ = w := (congrArg Prod.snd hfound).symm.trans (looks_resolvePath _ w)
  rw [hlooks] at h
  refine ⟨found, congrArg Prod.fst hfound, ?_⟩
  cases found with
  | none => simp
  | some p =>
    obtain ⟨u, w₂, hwritten, h⟩ := exists_of_run_bind h
    obtain ⟨u', w₃, hlogged, h⟩ := exists_of_run_bind h
    obtain rfl : w₃ = w' := congrArg Prod.snd h
    obtain ⟨hd, hp⟩ := prepared_of_writeSnapshot ht hwritten
    rintro _ ⟨⟩
    exact ⟨hd, hp.of_grows (log.aside_of_log hlogged).grows⟩

/-- The counters are added to their file at the end of a command that has counted little. -/
theorem run_conclude {found : Option Path} (ho : c.metricsPath.outcome w = .ok found)
    (hp : ∀ p, found = some p → Metrics.Datable w.now ∧ Prepared w.disk p)
    (hf : w.Few k) (hk : k < 10) (ht : w.Timely) (log : Logger) (code : Nat) :
    ∃ w', (conclude c log code).run.run w = (.ok code, w') := by
  have hlook : c.metricsPath.run.run w = (.ok found, w) := (looks_resolvePath _).run_eq ho
  unfold conclude
  rw [run_bind_eq hlook]
  cases found with
  | none => exact ⟨w, rfl⟩
  | some p =>
    obtain ⟨hd, hprepared⟩ := hp p rfl
    obtain ⟨w₁, hwritten, hs⟩ := run_writeSnapshot hf hk ht hd hprepared
    obtain ⟨u, w₂, hlogged, -⟩ := log.calm_log Log.debug
      ("Wrote metrics snapshot to " ++ p.text) w₁ hs
    refine ⟨w₂, ?_⟩
    dsimp only
    rw [run_bind_eq hwritten, run_bind_eq hlogged]
    rfl

end Program

end ConsoleSweep
