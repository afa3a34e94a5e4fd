/-
  The accounts of a clean run.

  A file can be cleaned if its path leads to a text that has nothing to remove in it, or that
  may be written (`Ready`); else it is listed as failed. Whatever happens to one file, the run
  goes on with the next (`run_cleanOne`). What was cleaned can be cleaned again, so what
  becomes of each path of a run can be read off the files as they were before it, also if two
  paths lead to the same file (`run_cleanEach`). If no two of them do (`Apart`), cleaning one
  file does not change what there is to clean in the others, and each file holds in the end
  what cleaning it once comes to (`Accounts`). Files are only written where a text is cleaned,
  and in the report; open files belong to the log and are left out.

  A run with a report ends early at a path that cannot be written into it (`Reportable`).
-/
import Mathlib
import ConsoleSweep.Clean
import ConsoleSweep.Proofs.Report
import ConsoleSweep.Proofs.Store
import ConsoleSweep.Proofs.Text.Utf8

namespace ConsoleSweep

theorem Removal.removeCalls_nil (methods : List String) : removeCalls methods [] = [] := by
  have hround : ∀ names, round names [] = [] := fun _ => rfl
  have hsettle : ∀ names, settle (round names) roundLimit [] = [] := fun names => by
    rw [roundLimit, settle, if_pos (hround names)]
  unfold removeCalls
  simp only [hsettle, if_true, ite_self]

namespace Clean

open Sweep Disk

variable {methods : List String} {report : Option Path} {w w' : World} {path : String}

/-! ## One file -/

/-- The path leads to a text that can be cleaned: there is nothing to remove from it, or it may be
written. -/
structure Ready (methods : List String) (d : Disk) (path : String) (f : File)
    (text : List Char) : Prop where
  found : d.file? path = some f
  read : Text.decode f.bytes = .ok text
  free : Removal.removeCalls methods text = text ∨ d.refuses f.place = false

/-- Whether the path leads to a text that can be cleaned. -/
def canClean (methods : List String) (d : Disk) (path : String) : Bool :=
  match d.file? path with
  | none => false
  | some f =>
    match Text.decode f.bytes with
    | .ok text => decide (Removal.removeCalls methods text = text) || !d.refuses f.place
    | .error _ => false

theorem Ready.unique {d : Disk} {f f' : File} {text text' : List Char}
    (h : Ready methods d path f text) (h' : Ready methods d path f' text') :
    f = f' ∧ text = text' := by
  obtain rfl : f = f' := Option.some.inj (h.found.symm.trans h'.found)
  exact ⟨rfl, Except.ok.inj (h.read.symm.trans h'.read)⟩

theorem canClean_iff {d : Disk} : canClean methods d path = true ↔
    ∃ f text, Ready methods d path f text := by
  unfold canClean
  constructor
  · intro h
    split at h
    · cases h
    · next f hf =>
      split at h
      · next text ht => exact ⟨f, text, hf, ht, by simpa using h⟩
      · cases h
  · rintro ⟨f, text, hf, ht, hfree⟩
    simpa [hf, ht] using hfree

/-- What cannot be cleaned is no text, or has something to remove in it and may not be written. -/
theorem canClean_eq_false {d : Disk} (h : canClean methods d path = false) :
    d.text? path = none ∨ ∃ f text, d.file? path = some f ∧ Text.decode f.bytes = .ok text ∧
      Removal.removeCalls methods text ≠ text ∧ d.refuses f.place = true := by
  cases ht : d.text? path with
  | none => exact .inl rfl
  | some text =>
    obtain ⟨f, hf, hd⟩ := Option.bind_eq_some_iff.1 ht
    have hd := decode_of_toOption hd
    refine .inr ⟨f, text, hf, hd, ?_⟩
    unfold canClean at h
    simpa [hf, hd] using h

/-- The file holds the old text without its calls. If there was nothing to remove, it was not
written. -/
def Cleaned (methods : List String) (f : File) (text : List Char) (d : Disk) : Prop :=
  ∃ stamp, d.node? f.place =
      some (.file (Text.encode (Removal.removeCalls methods text)) stamp) ∧
    (Removal.removeCalls methods text = text → stamp = f.stamp)

theorem Cleaned.later {A : Place → Prop} {f : File} {text : List Char}
    (h : Cleaned methods f text w.disk) (hl : w.Later A w') (ho : ¬ Open w.disk f.place)
    (hA : ¬ A f.place) : Cleaned methods f text w'.disk := by
  obtain ⟨stamp, hn, hs⟩ := h
  exact ⟨stamp, (hl.disk.node?_eq (not_or.2 ⟨ho, hA⟩)).trans hn, hs⟩

theorem text?_eq_some {d : Disk} {f : File} {text : List Char} (hf : d.file? path = some f)
    (hd : Text.decode f.bytes = .ok text) : d.text? path = some text := by
  unfold text?
  rw [hf, Option.bind_some, hd]
  rfl

/-- A text is written anew if there is anything to remove from it. -/
theorem run_strip {f : File} {text : List Char} (hs : w.Sound) (hn : '\x00' ∉ path.toList)
    (hr : Ready methods w.disk path f text) :
    ∃ changed w', (strip methods path).run.run w = (.ok changed, w') ∧
      w.Later (· = f.place) w' ∧ Cleaned methods f text w'.disk := by
  obtain ⟨hf, hd, hfree⟩ := hr
  unfold strip
  rw [run_bind_eq (run_readText hn (text?_eq_some hf hd))]
  dsimp only
  by_cases hc : Removal.removeCalls methods text = text
  · rw [if_pos hc]
    refine ⟨false, w, rfl, .refl hs, f.stamp, ?_, fun _ => rfl⟩
    rw [hc, Text.encode_of_decode hd]
    exact node?_of_file? hf
  · -- An empty file has nothing to remove in it, so this one is no device.
    have hsome : f.bytes ≠ [] := by
      intro hnil
      rw [hnil] at hd
      obtain rfl : [] = text := Except.ok.inj hd
      exact hc (Removal.removeCalls_nil methods)
    rw [if_neg hc, run_bind_eq (run_writeText hn hf (hfree.resolve_left hc) _),
      replaceFile_eq_putFile (.inl hsome)]
    have hfile : HasFile w.disk f.place := ⟨_, _, node?_of_file? hf⟩
    have hput := node?_putFile (d := w.disk) hfile.ne_nil
      (Text.encode (Removal.removeCalls methods text)) f.place
    refine ⟨true, _, rfl, ⟨rfl, hs, .put (.refl _) (.inr rfl) (.inl hfile) _⟩, .write w.disk.writes,
      ?_, ?_⟩
    · exact hput.trans (if_pos rfl)
    · exact fun h => absurd h hc

/-- What cannot be cleaned is left as it is, and that is trouble with the file. -/
theorem run_strip_failed (hn : '\x00' ∉ path.toList) (h : canClean methods w.disk path = false) :
    ∃ f, (strip methods path).run.run w = (.error f, w) ∧ f.Blocks path := by
  rcases canClean_eq_false h with ht | ⟨f, text, hf, hd, hc, hr⟩
  · obtain ⟨f, hrun, hf⟩ := run_readText_none hn ht
    exact ⟨f, run_bind_fault hrun _, hf⟩
  · refine ⟨.os .denied path, ?_, .inl ⟨.denied, rfl⟩⟩
    unfold strip
    rw [run_bind_eq (run_readText hn (text?_eq_some hf hd))]
    dsimp only
    rw [if_neg hc]
    exact run_bind_fault (run_writeText_of_refuses hn hf hr _) _

/-- The place of the report. -/
def InReport (d : Disk) (report : Option Path) (p : Place) : Prop :=
  ∃ r, report = some r ∧ d.Targets r.text p

/-- The path can be written into the report, if there is one. -/
def Reportable (d : Disk) (report : Option Path) (path : String) : Prop :=
  report.isSome = true → d.medium.canHold path.toList = true

/-- Adding to the report never stops a run, unless the path cannot be written. -/
theorem run_addToReport (hs : w.Sound) (hr : ∀ p, report = some p → Report.Placed w p)
    (calls : Int) {failure : Option Fault} (hf : ∀ f, failure = some f → f.Blocks path) :
    ∃ r w', (addToReport report path calls failure).run.run w = (r, w') ∧
      w.Later (InReport w.disk report) w' ∧ (Reportable w.disk report path → r = .ok ()) := by
  unfold addToReport
  cases report with
  | none => exact ⟨_, w, rfl, .refl hs, fun _ => rfl⟩
  | some p =>
    have fits : Reportable w.disk (some p) path → w.disk.medium.canHold path.toList = true ∧
        w.disk.medium.canHold ((failure.map Fault.message).getD "").toList = true := by
      intro h
      refine ⟨h rfl, ?_⟩
      cases failure with
      | none => rfl
      | some f => exact (hf f rfl).canHold (h rfl)
    obtain ⟨r, w₁, hr₁, h₁, hfault⟩ := Report.adds_appendCleaned path calls failure.isNone
      ((failure.map Fault.message).getD "") fits w hs rfl (hr p rfl)
    have h₁ : w.Later (InReport w.disk (some p)) w₁ := h₁.mono fun q hq => ⟨p, rfl, hq⟩
    have ha := run_attempt (Report.appendCleaned p (.str path) (.int calls)
      failure.isNone (.str ((failure.map Fault.message).getD ""))) w
    rw [hr₁] at ha
    dsimp only
    rw [run_bind_eq ha]
    cases r with
    | ok u => exact ⟨_, w₁, rfl, h₁, fun _ => rfl⟩
    | error f =>
      dsimp only
      rcases hfault f rfl with hrefusal | ⟨rfl, hstray⟩
      · rw [if_pos hrefusal]
        obtain ⟨a, w₂, hr₂, h₂⟩ := calm_log logger Log.warning
          ("Could not append to clean report " ++ p.text ++ ": " ++ f.message) w₁ h₁.sound
        exact ⟨_, w₂, hr₂, h₁.trans h₂.of_nowhere, fun _ => rfl⟩
      · exact ⟨_, w₁, rfl, h₁, fun h => absurd h hstray⟩

theorem inReport_iff {A : Place → Prop} {d d' : Disk} {p : Place} (h : Writes A d d') :
    InReport d' report p ↔ InReport d report p := by
  unfold InReport
  simp only [targets_iff_of_writes h]

theorem reportable_iff {A : Place → Prop} {d d' : Disk} (h : Writes A d d') :
    Reportable d' report path ↔ Reportable d report path := by
  unfold Reportable
  rw [h.medium_eq]

/-- The end of the work on a file: what became of it is counted and added to the report. -/
def record (report : Option Path) (path : String) (calls : Int) (failure : Option Fault)
    (result : Run) : Sweep (Run × Option Fault) := do
  Sweep.count fun m now => m.recordCleaned now failure.isNone
  match ← Sweep.attempt (addToReport report path calls failure) with
  | .ok _ => return (result, none)
  | .error f => return (result, some f)

theorem run_record (hs : w.Sound) (hr : ∀ p, report = some p → Report.Placed w p) (calls : Int)
    {failure : Option Fault} (hf : ∀ f, failure = some f → f.Blocks path) (result : Run) :
    ∃ stop w', (record report path calls failure result).run.run w = (.ok (result, stop), w') ∧
      w.Later (InReport w.disk report) w' ∧ (Reportable w.disk report path → stop = none) := by
  obtain ⟨_, w₁, hr₁, h₁⟩ := calm_record "clean.files" failure.isNone 1 w hs
  obtain ⟨r, w₂, hr₂, h₂, hnone⟩ := run_addToReport h₁.sound
    (fun p hp => (hr p hp).later h₁) calls hf
  have ha := run_attempt (addToReport report path calls failure) w₁
  rw [hr₂] at ha
  have hl : w.Later (InReport w.disk report) w₂ :=
    h₁.of_nowhere.trans (h₂.mono fun p => (inReport_iff h₁.disk).1)
  have hnone : Reportable w.disk report path → r = .ok () := fun h =>
    hnone ((reportable_iff h₁.disk).2 h)
  cases r with
  | ok u => exact ⟨none, w₂, (run_bind_eq hr₁ _).trans (run_bind_eq ha _), hl, fun _ => rfl⟩
  | error f =>
    exact ⟨some f, w₂, (run_bind_eq hr₁ _).trans (run_bind_eq ha _), hl,
      fun h => by cases hnone h⟩

/-- The place of a text that the path leads to and that can be cleaned. -/
def AtReady (methods : List String) (d : Disk) (path : String) (p : Place) : Prop :=
  ∃ f text, Ready methods d path f text ∧ f.place = p

/-- The run after a file, which could be cleaned or not. -/
def Run.settle (cleaned : Bool) (r : Run) (path : String) : Run :=
  if cleaned then r.succeed path else r.fail path

/-- A file is cleaned if that can be done; then what became of it is recorded. -/
theorem run_cleanOne_record (methods : List String) (hs : w.Sound) (hn : '\x00' ∉ path.toList)
    (report : Option Path) (r : Run) :
    ∃ failure w₁, (cleanOne methods report r path).run.run w =
        (record report path ((r.store.get? path).getD 0) failure
          (r.settle (canClean methods w.disk path) path)).run.run w₁ ∧
      (∀ f, failure = some f → f.Blocks path) ∧
      w.Later (AtReady methods w.disk path) w₁ ∧
      ∀ f text, Ready methods w.disk path f text → ¬ Open w.disk f.place →
        Cleaned methods f text w₁.disk := by
  unfold cleanOne
  dsimp only
  have attempted := run_attempt (strip methods path) w
  cases hc : canClean methods w.disk path with
  | true =>
    obtain ⟨f, text, hready⟩ := canClean_iff.1 hc
    obtain ⟨changed, w₁, hr₁, h₁, cleaned⟩ := run_strip hs hn hready
    obtain ⟨_, w₂, hr₂, h₂⟩ := calm_log logger Log.debug
      ("Cleaned " ++ path ++ " (changed=" ++ (Json.bool changed).shown ++ ")") w₁ h₁.sound
    rw [hr₁] at attempted
    refine ⟨none, w₂, ?_, by simp, ?_, ?_⟩
    · rw [run_bind_eq attempted]
      exact run_bind_eq hr₂ _
    · refine (h₁.mono ?_).trans h₂.of_nowhere
      rintro p rfl
      exact ⟨f, text, hready, rfl⟩
    · intro f' text' hready' ho
      obtain ⟨rfl, rfl⟩ := hready.unique hready'
      exact cleaned.later h₂ (fun h => ho (h₁.disk.open_iff.1 h)) id
  | false =>
    obtain ⟨f, hr₁, hblocks⟩ := run_strip_failed hn hc
    have hf := hblocks.isFileTrouble
    obtain ⟨_, w₂, hr₂, h₂⟩ := calm_log logger Log.warning
      ("Failed to clean " ++ path ++ ": " ++ f.message) w hs
    have hfilter : (some f).filter (fun f => !f.isFileTrouble) = none := by
      simp [Option.filter, hf]
    rw [hr₁] at attempted
    refine ⟨some f, w₂, ?_, ?_, h₂.of_nowhere, ?_⟩
    · rw [run_bind_eq attempted]
      dsimp only
      rw [if_pos hf]
      refine (run_bind_eq hr₂ _).trans ?_
      rw [run_bind_eq (run_pure (some f) w₂), hfilter]
      rfl
    · rintro _ ⟨⟩
      exact hblocks
    · intro g text hready
      rw [canClean_iff.2 ⟨g, text, hready⟩] at hc
      cases hc

/-- Where cleaning a path may write: at the place of its text, and in the report. -/
def Reach (methods : List String) (d : Disk) (report : Option Path) (path : String)
    (p : Place) : Prop :=
  AtReady methods d path p ∨ InReport d report p

/-- With a report that is placed well and can take the path, the run goes on in any case. -/
theorem run_cleanOne (methods : List String) (hs : w.Sound) (hn : '\x00' ∉ path.toList)
    (hr : ∀ p, report = some p → Report.Placed w p) (r : Run) :
    ∃ stop w', (cleanOne methods report r path).run.run w =
        (.ok (r.settle (canClean methods w.disk path) path, stop), w') ∧
      w.Later (Reach methods w.disk report path) w' ∧
      (Reportable w.disk report path → stop = none) ∧
      ∀ f text, Ready methods w.disk path f text → ¬ Open w.disk f.place →
        ¬ InReport w.disk report f.place → Cleaned methods f text w'.disk := by
  obtain ⟨failure, w₁, hr₁, hblocks, h₁, cleaned⟩ := run_cleanOne_record methods hs hn report r
  obtain ⟨stop, w₂, hr₂, h₂, hnone⟩ := run_record h₁.sound
    (fun p hp => (hr p hp).later h₁) ((r.store.get? path).getD 0) hblocks
    (r.settle (canClean methods w.disk path) path)
  have h₂ : w₁.Later (InReport w.disk report) w₂ := h₂.mono fun p => (inReport_iff h₁.disk).1
  refine ⟨stop, w₂, hr₁.trans hr₂, ?_, fun h => hnone ((reportable_iff h₁.disk).2 h), ?_⟩
  · exact (h₁.mono fun p => .inl).trans (h₂.mono fun p => .inr)
  · intro f text hready ho hi
    exact (cleaned f text hready ho).later h₂ (fun h => ho (h₁.disk.open_iff.1 h)) hi

/-! ## Paths that can be cleaned -/

/-- The paths can be cleaned one after the other: none has a NUL, and none leads to an open file or
to the report. -/
structure Cleanable (d : Disk) (report : Option Path) (paths : List String) : Prop where
  plain : ∀ path ∈ paths, '\x00' ∉ path.toList
  closed : ∀ path ∈ paths, ∀ p, d.Targets path p → ¬ Open d p
  unreported : ∀ path ∈ paths, ∀ p, d.Targets path p → ¬ InReport d report p

/-- None of the paths leads to the file of `key`, but `key` itself. -/
def Own (d : Disk) (key : String) (paths : List String) : Prop :=
  ∀ path ∈ paths, ∀ f g, d.file? key = some f → d.file? path = some g → f.place = g.place →
    path = key

/-- The paths can be cleaned one after the other, and do not get in each other's way: each has no
NUL and can be written into the report, no two lead to the same file, and none leads to an open
file or to the report. -/
structure Apart (d : Disk) (report : Option Path) (paths : List String) : Prop where
  plain : ∀ path ∈ paths, '\x00' ∉ path.toList
  reportable : ∀ path ∈ paths, Reportable d report path
  alone : ∀ a ∈ paths, ∀ b ∈ paths, ∀ f g, d.file? a = some f → d.file? b = some g →
    f.place = g.place → a = b
  closed : ∀ path ∈ paths, ∀ p, d.Targets path p → ¬ Open d p
  unreported : ∀ path ∈ paths, ∀ p, d.Targets path p → ¬ InReport d report p

section

variable {A : Place → Prop} {d d' : Disk} {paths sub : List String} {a b : String} {p : Place}

theorem Apart.cleanable (h : Apart d report paths) : Cleanable d report paths :=
  ⟨h.plain, h.closed, h.unreported⟩

theorem Apart.own (h : Apart d report paths) (ha : a ∈ paths) : Own d a paths :=
  fun b hb f g hf hg hplace => h.alone b hb a ha g f hg hf hplace.symm

theorem Own.eq_of_targets {f : File} (h : Own d a paths) (hf : d.file? a = some f) (hb : b ∈ paths)
    (ht : d.Targets b f.place) : b = a := by
  obtain ⟨g, hg, hplace⟩ := file?_of_targets ht ⟨_, _, node?_of_file? hf⟩
  exact h b hb f g hf hg hplace.symm

theorem Own.later (h : Own d a paths) (hw : Writes A d d') (same : d'.file? a = d.file? a)
    (hsub : sub ⊆ paths) : Own d' a sub := by
  intro b hb f g hf hg hplace
  have ht : d'.Targets b f.place := hplace ▸ targets_of_file? hg
  exact h.eq_of_targets (same ▸ hf) (hsub hb) ((targets_iff_of_writes hw).1 ht)

theorem Cleanable.later (h : Cleanable w.disk report paths) (hl : w.Later A w')
    (hsub : sub ⊆ paths) : Cleanable w'.disk report sub := by
  refine ⟨fun b hb => h.plain b (hsub hb), ?_, ?_⟩
  · intro b hb p hp ho
    exact h.closed b (hsub hb) p ((targets_iff_of_writes hl.disk).1 hp) (hl.disk.open_iff.1 ho)
  · intro b hb p hp hi
    exact h.unreported b (hsub hb) p ((targets_iff_of_writes hl.disk).1 hp)
      ((inReport_iff hl.disk).1 hi)

theorem Cleanable.file?_eq (h : Cleanable w.disk report paths) (hl : w.Later A w') (hb : b ∈ paths)
    (hA : ∀ p, w.disk.Targets b p → ¬ A p) : w'.disk.file? b = w.disk.file? b :=
  file?_of_writes hl.disk fun p hp => not_or.2 ⟨h.closed b hb p hp, hA p hp⟩

theorem Ready.congr {f : File} {text : List Char} (h : d'.file? path = d.file? path)
    (hm : d'.medium = d.medium) : Ready methods d' path f text ↔ Ready methods d path f text := by
  have hrefuses : ∀ p, d'.refuses p = d.refuses p := fun p => by
    unfold refuses
    rw [hm]
  constructor
  · rintro ⟨hf, hd, hfree⟩
    exact ⟨h ▸ hf, hd, hrefuses f.place ▸ hfree⟩
  · rintro ⟨hf, hd, hfree⟩
    exact ⟨h.trans hf, hd, (hrefuses f.place).symm ▸ hfree⟩

theorem canClean_iff_atReady : canClean methods d path = true ↔ ∃ p, AtReady methods d path p := by
  rw [canClean_iff]
  constructor
  · rintro ⟨f, text, h⟩
    exact ⟨f.place, f, text, h, rfl⟩
  · rintro ⟨_, f, text, h, -⟩
    exact ⟨f, text, h⟩

theorem atReady_congr (h : d'.file? path = d.file? path) (hm : d'.medium = d.medium) :
    AtReady methods d' path p ↔ AtReady methods d path p := by
  unfold AtReady
  simp only [Ready.congr h hm]

/-- Every path that leads to the place of a text that can be cleaned leads to that text. -/
theorem Ready.of_targets {f : File} {text : List Char} (h : Ready methods d a f text)
    (hb : d.Targets b f.place) : Ready methods d b f text := by
  have hn := node?_of_file? h.found
  obtain ⟨g, hg, hplace⟩ := file?_of_targets hb ⟨_, _, hn⟩
  have hn' := node?_of_file? hg
  rw [hplace, hn] at hn'
  obtain ⟨hbytes, hstamp⟩ := Node.file.inj (Option.some.inj hn')
  obtain rfl : g = f := by
    cases f
    cases g
    simp_all
  exact ⟨hg, h.read, h.free⟩

/-- What was cleaned is a text that can be cleaned again, and nothing else was written; so the same
paths lead to texts that can be cleaned as before. -/
theorem Cleanable.atReady_iff (h : Cleanable w.disk report paths) (ha : a ∈ paths) (hb : b ∈ paths)
    (hl : w.Later (Reach methods w.disk report a) w')
    (cleaned : ∀ f text, Ready methods w.disk a f text → ¬ Open w.disk f.place →
      ¬ InReport w.disk report f.place → Cleaned methods f text w'.disk) :
    AtReady methods w'.disk b p ↔ AtReady methods w.disk b p := by
  by_cases hreach : ∃ q, w.disk.Targets b q ∧ AtReady methods w.disk a q
  · obtain ⟨_, hbq, f, text, hready, rfl⟩ := hreach
    have hready' : Ready methods w.disk b f text := hready.of_targets hbq
    have hto : w.disk.Targets a f.place := targets_of_file? hready.found
    obtain ⟨stamp, hn, -⟩ := cleaned f text hready (h.closed a ha _ hto) (h.unreported a ha _ hto)
    have again : Ready methods w'.disk b
        ⟨f.place, Text.encode (Removal.removeCalls methods text), stamp⟩
        (Removal.removeCalls methods text) := by
      refine ⟨file?_of_node? hl.disk hready'.found hn, Text.decode_encode _, ?_⟩
      rw [hl.disk.refuses_eq]
      exact hready.free.imp (congrArg (Removal.removeCalls methods)) id
    constructor
    · rintro ⟨f₁, text₁, h₁, rfl⟩
      obtain ⟨rfl, -⟩ := again.unique h₁
      exact ⟨f, text, hready', rfl⟩
    · rintro ⟨f₁, text₁, h₁, rfl⟩
      obtain ⟨rfl, -⟩ := hready'.unique h₁
      exact ⟨_, _, again, rfl⟩
  · refine atReady_congr (h.file?_eq hl hb ?_) hl.disk.medium_eq
    rintro q hq (hat | hi)
    · exact hreach ⟨q, hq, hat⟩
    · exact h.unreported b hb q hq hi

theorem reach_iff (hw : Writes A d d')
    (h : AtReady methods d' path p ↔ AtReady methods d path p) :
    Reach methods d' report path p ↔ Reach methods d report path p := by
  unfold Reach
  rw [h, inReport_iff hw]

theorem canClean_congr (h : ∀ p, AtReady methods d' path p ↔ AtReady methods d path p) :
    canClean methods d' path = canClean methods d path := by
  rw [Bool.eq_iff_iff, canClean_iff_atReady, canClean_iff_atReady]
  exact exists_congr h

end

/-! ## All files -/

/-- The run after some files, of which those that can be cleaned are known. -/
def Run.account (cleaned : String → Bool) (r : Run) (paths : List String) : Run :=
  paths.foldl (fun r path => r.settle (cleaned path) path) r

theorem Run.account_congr {cleaned cleaned' : String → Bool} {paths : List String}
    (h : ∀ path ∈ paths, cleaned path = cleaned' path) (r : Run) :
    r.account cleaned paths = r.account cleaned' paths := by
  induction paths generalizing r with
  | nil => rfl
  | cons path paths ih =>
    unfold account at ih ⊢
    rw [List.foldl_cons, List.foldl_cons, h path List.mem_cons_self]
    exact ih (fun p hp => h p (List.mem_cons_of_mem _ hp)) _

/-- The accounts: what was cleaned leaves the store and is counted, all else stays and is listed. -/
theorem Run.account_eq (cleaned : String → Bool) (r : Run) (paths : List String) :
    r.account cleaned paths =
      ⟨⟨r.store.items.filter fun e => !(paths.contains e.1 && cleaned e.1)⟩,
        { r.summary with
          cleaned := r.summary.cleaned + paths.countP cleaned
          failed := r.summary.failed + (paths.filter fun path => !cleaned path).length
          failedPaths := r.summary.failedPaths ++ paths.filter fun path => !cleaned path }⟩ := by
  induction paths generalizing r with
  | nil =>
    have hf : r.store.items.filter (fun _ => true) = r.store.items :=
      List.filter_eq_self.2 fun _ _ => rfl
    simp [account, hf]
  | cons path paths ih =>
    have hcons : r.account cleaned (path :: paths) =
        (r.settle (cleaned path) path).account cleaned paths := rfl
    rw [hcons, ih]
    unfold settle
    cases hr : cleaned path with
    | true =>
      -- The entries without the first path, and then without the others.
      have hf : (r.store.items.filter (fun e => decide (e.1 ≠ path))).filter
            (fun e => !(paths.contains e.1 && cleaned e.1)) =
          r.store.items.filter fun e => !((path :: paths).contains e.1 && cleaned e.1) := by
        rw [List.filter_filter]
        refine List.filter_congr fun e _ => ?_
        by_cases he : e.1 = path <;> simp [he, hr]
      simp only [if_true, Run.succeed, Store.remove, hf, List.countP_cons, hr, List.filter_cons,
        Bool.not_true, Bool.false_eq_true, if_false, Nat.add_assoc, Nat.add_comm 1]
    | false =>
      have hf : r.store.items.filter (fun e => !(paths.contains e.1 && cleaned e.1)) =
          r.store.items.filter fun e => !((path :: paths).contains e.1 && cleaned e.1) := by
        refine List.filter_congr fun e _ => ?_
        by_cases he : e.1 = path <;> simp [he, hr]
      simp only [Bool.false_eq_true, if_false, Run.fail, hf, List.countP_cons, hr,
        List.filter_cons, Bool.not_false, if_true, List.length_cons, Nat.add_zero,
        List.append_assoc, List.singleton_append, Nat.add_assoc, Nat.add_comm 1]

/-- A run over paths went through `done`, the first of them. That is all of them, or the run stopped
because one cannot be written into the report. A file to which only one of the paths leads was
cleaned once. -/
structure Went (methods : List String) (report : Option Path) (w : World) (paths : List String)
    (r : Run) (done : List String) (r' : Run) (stop : Option Fault) (w' : World) : Prop where
  first : done <+: paths
  account : r' = r.account (canClean methods w.disk) done
  later : w.Later (fun p => ∃ path ∈ done, Reach methods w.disk report path p) w'
  whole : stop = none → done = paths
  stray : stop ≠ none → ∃ path ∈ paths, ¬ Reportable w.disk report path
  cleaned : ∀ path ∈ done, Own w.disk path paths → ∀ f text, Ready methods w.disk path f text →
    Cleaned methods f text w'.disk

/-- What changes no files before a run does not matter to it. -/
theorem Went.before {paths done : List String} {r r' : Run} {stop : Option Fault} {w₁ : World}
    (went : Went methods report w₁ paths r done r' stop w') (ha : Cleanable w.disk report paths)
    (hl : w.Later Nowhere w₁) : Went methods report w paths r done r' stop w' := by
  have hdone : done ⊆ paths := went.first.subset
  have same : ∀ b ∈ paths, w₁.disk.file? b = w.disk.file? b := fun b hb =>
    ha.file?_eq hl hb fun _ _ => id
  have ready : ∀ b ∈ done, ∀ p, AtReady methods w₁.disk b p ↔ AtReady methods w.disk b p :=
    fun b hb p => atReady_congr (same b (hdone hb)) hl.disk.medium_eq
  refine ⟨went.first, ?_, ?_, went.whole, fun hsome => ?_, ?_⟩
  · rw [went.account]
    exact Run.account_congr (fun b hb => canClean_congr (ready b hb)) _
  · refine hl.of_nowhere.trans (went.later.mono ?_)
    rintro p ⟨b, hb, hp⟩
    exact ⟨b, hb, (reach_iff hl.disk (ready b hb p)).1 hp⟩
  · obtain ⟨b, hb, hstray⟩ := went.stray hsome
    exact ⟨b, hb, fun hfit => hstray ((reportable_iff hl.disk).2 hfit)⟩
  · intro b hb own f text hready
    have same := same b (hdone hb)
    exact went.cleaned b hb (own.later hl.disk same (List.Subset.refl _)) f text
      ((Ready.congr same hl.disk.medium_eq).2 hready)

/-- Nor does what changes no files behind it. -/
theorem Went.behind {paths done : List String} {r r' : Run} {stop : Option Fault} {w'' : World}
    (went : Went methods report w paths r done r' stop w') (ha : Cleanable w.disk report paths)
    (hl : w'.Later Nowhere w'') : Went methods report w paths r done r' stop w'' := by
  refine ⟨went.first, went.account, went.later.trans hl.of_nowhere, went.whole, went.stray, ?_⟩
  intro b hb own f text hready
  have hto : w.disk.Targets b f.place := targets_of_file? hready.found
  exact (went.cleaned b hb own f text hready).later hl
    (fun ho => ha.closed b (went.first.subset hb) _ hto (went.later.disk.open_iff.1 ho)) id

/-- The surroundings `w'` are those after the first of some paths: only where it leads was anything
written, and the same paths lead to texts that can be cleaned. -/
structure Past (methods : List String) (report : Option Path) (w : World) (path : String)
    (paths : List String) (w' : World) : Prop where
  later : w.Later (Reach methods w.disk report path) w'
  ready : ∀ b ∈ paths, ∀ p, AtReady methods w'.disk b p ↔ AtReady methods w.disk b p
  cleaned : ∀ f text, Ready methods w.disk path f text →
    ¬ Open w'.disk f.place ∧ Cleaned methods f text w'.disk

/-- The first of some paths: the progress is told, and the file is cleaned. -/
theorem run_first (methods : List String) {tell : Sweep Unit} {rest : List String}
    (ht : Calm tell) (hs : w.Sound) (hr : ∀ p, report = some p → Report.Placed w p)
    (ha : Cleanable w.disk report (path :: rest)) (r : Run) :
    ∃ u w₁ stop w', tell.run.run w = (.ok u, w₁) ∧
      (cleanOne methods report r path).run.run w₁ =
        (.ok (r.settle (canClean methods w.disk path) path, stop), w') ∧
      Past methods report w path (path :: rest) w' ∧
      (Reportable w.disk report path → stop = none) := by
  have first : path ∈ path :: rest := List.mem_cons_self
  obtain ⟨u, w₁, hr₁, h₁⟩ := ht w hs
  -- Telling the progress changes nothing about the files.
  have ha₁ : Cleanable w₁.disk report (path :: rest) := ha.later h₁ (List.Subset.refl _)
  have same : ∀ b ∈ path :: rest, w₁.disk.file? b = w.disk.file? b := fun b hb =>
    ha.file?_eq h₁ hb fun _ _ => id
  have ready : ∀ b ∈ path :: rest, ∀ p,
      AtReady methods w₁.disk b p ↔ AtReady methods w.disk b p :=
    fun b hb p => atReady_congr (same b hb) h₁.disk.medium_eq
  obtain ⟨stop, w₂, hr₂, h₂, hnone, cleaned⟩ := run_cleanOne methods h₁.sound
    (ha.plain path first) (fun p hp => (hr p hp).later h₁) r
  rw [canClean_congr (ready path first)] at hr₂
  refine ⟨u, w₁, stop, w₂, hr₁, hr₂, ⟨?_, fun b hb p => ?_, fun f text hready => ?_⟩,
    fun h => hnone ((reportable_iff h₁.disk).2 h)⟩
  · exact h₁.of_nowhere.trans (h₂.mono fun p => (reach_iff h₁.disk (ready path first p)).1)
  · exact (ha₁.atReady_iff first hb h₂ cleaned).trans (ready b hb p)
  · have hready₁ := (Ready.congr (same path first) h₁.disk.medium_eq).2 hready
    have hto : w₁.disk.Targets path f.place := targets_of_file? hready₁.found
    have ho : ¬ Open w₁.disk f.place := ha₁.closed path first _ hto
    exact ⟨fun h => ho (h₂.disk.open_iff.1 h),
      cleaned f text hready₁ ho (ha₁.unreported path first _ hto)⟩

/-- The run ended with the first path. -/
theorem Past.went_stopped {f : Fault} {rest : List String}
    (h : Past methods report w path (path :: rest) w') (hstray : ¬ Reportable w.disk report path)
    (r : Run) : Went methods report w (path :: rest) r [path]
      (r.settle (canClean methods w.disk path) path) (some f) w' := by
  refine ⟨by simp, rfl, h.later.mono fun p hp => ⟨path, List.mem_cons_self, hp⟩, by simp,
    fun _ => ⟨path, List.mem_cons_self, hstray⟩, ?_⟩
  intro b hb _ f text hready
  obtain rfl := List.mem_singleton.1 hb
  exact (h.cleaned f text hready).2

/-- The run went on with the others. -/
theorem Past.went_cons {rest done : List String} {r r' : Run} {stop : Option Fault} {w₁ : World}
    (h : Past methods report w path (path :: rest) w₁)
    (ha : Cleanable w.disk report (path :: rest)) (hout : path ∉ rest)
    (went : Went methods report w₁ rest (r.settle (canClean methods w.disk path) path) done r'
      stop w') : Went methods report w (path :: rest) r (path :: done) r' stop w' := by
  have first : path ∈ path :: rest := List.mem_cons_self
  have later : rest ⊆ path :: rest := List.subset_cons_self _ _
  have hdone : done ⊆ rest := went.first.subset
  have ready : ∀ b ∈ done, ∀ p, AtReady methods w₁.disk b p ↔ AtReady methods w.disk b p :=
    fun b hb => h.ready b (later (hdone hb))
  have reach : ∀ b ∈ done, ∀ p,
      Reach methods w₁.disk report b p ↔ Reach methods w.disk report b p :=
    fun b hb p => reach_iff h.later.disk (ready b hb p)
  refine ⟨List.cons_prefix_cons.2 ⟨rfl, went.first⟩, ?_, ?_,
    fun hnone => congrArg (path :: ·) (went.whole hnone), fun hsome => ?_, ?_⟩
  · rw [went.account, Run.account_congr fun b hb => canClean_congr (ready b hb)]
    rfl
  · refine (h.later.mono fun p hp => ⟨path, List.mem_cons_self, hp⟩).trans (went.later.mono ?_)
    rintro p ⟨b, hb, hp⟩
    exact ⟨b, List.mem_cons_of_mem _ hb, (reach b hb p).1 hp⟩
  · obtain ⟨b, hb, hstray⟩ := went.stray hsome
    exact ⟨b, later hb, fun hfit => hstray ((reportable_iff h.later.disk).2 hfit)⟩
  · intro b hb own f text hready
    have hto : w.disk.Targets b f.place := targets_of_file? hready.found
    rcases List.mem_cons.1 hb with rfl | hb
    · obtain ⟨ho, cleaned⟩ := h.cleaned f text hready
      refine cleaned.later went.later ho ?_
      -- Cleaning another file does not write where this one is.
      rintro ⟨c, hc, hreach⟩
      rcases (reach c hc _).1 hreach with ⟨g, _, hg, hplace⟩ | hi
      · obtain rfl := own.eq_of_targets hready.found (later (hdone hc))
          (hplace ▸ targets_of_file? hg.found)
        exact hout (hdone hc)
      · exact ha.unreported b first _ hto hi
    · -- Nor was anything written there when the first file was cleaned.
      have same : w₁.disk.file? b = w.disk.file? b := by
        refine ha.file?_eq h.later (later (hdone hb)) fun p hp hreach => ?_
        rcases hreach with ⟨g, _, hg, rfl⟩ | hi
        · have hplace : f.place = g.place := hto.unique hp
          obtain rfl := own.eq_of_targets hready.found first (hplace ▸ targets_of_file? hg.found)
          exact hout (hdone hb)
        · exact ha.unreported b (later (hdone hb)) _ hp hi
      exact went.cleaned b hb (own.later h.later.disk same later) f text
        ((Ready.congr same h.later.disk.medium_eq).2 hready)

/-- Files are cleaned one after the other, unless the run ends early. -/
theorem run_cleanEach (methods : List String) {progress : Nat → String → Sweep Unit}
    (hp : ∀ i path, Calm (progress i path))
    (files : List (String × Nat)) (hs : w.Sound)
    (hr : ∀ p, report = some p → Report.Placed w p)
    (ha : Cleanable w.disk report (files.map (·.1))) (hd : (files.map (·.1)).Nodup) (r : Run) :
    ∃ done r' stop w', (cleanEach methods report progress r files).run.run w =
        (.ok (r', stop), w') ∧
      Went methods report w (files.map (·.1)) r done r' stop w' := by
  induction files generalizing w r with
  | nil =>
    exact ⟨[], r, none, w, rfl, ⟨List.prefix_rfl, rfl, .refl hs, fun _ => rfl, by simp, by simp⟩⟩
  | cons entry rest ih =>
    obtain ⟨path, i⟩ := entry
    rw [List.map_cons] at ha hd ⊢
    obtain ⟨hout, hd⟩ := List.nodup_cons.1 hd
    obtain ⟨_, w₁, stop, w₂, hr₁, hr₂, past, hnone⟩ := run_first methods (hp i path) hs hr ha r
    unfold cleanEach
    rw [run_bind_eq hr₁, run_bind_eq hr₂]
    cases stop with
    | some f => exact ⟨[path], _, some f, w₂, rfl, past.went_stopped (fun h => by cases hnone h) r⟩
    | none =>
      obtain ⟨done, r', stop, w₃, hr₃, went⟩ := ih past.later.sound
        (fun p hp => (hr p hp).later past.later)
        (ha.later past.later (List.subset_cons_self _ _)) hd
        (r.settle (canClean methods w.disk path) path)
      exact ⟨path :: done, r', stop, w₃, hr₃, past.went_cons ha hout went⟩

/-- Asked in the surroundings `w`, the question is answered with `answer`; that changes no file but
those that are open. -/
def Answers (answer : Bool) (w : World) (ask : Sweep Bool) : Prop :=
  ∃ w', ask.run.run w = (.ok answer, w') ∧ w.Later Nowhere w'

/-- The question before all files of a store are cleaned. -/
def question (store : Store) : String :=
  Prompt.cleanAll (Text.ofInt store.totalCalls) (Text.ofNat store.paths.length)

variable {store : Store} {settings : CleanerSettings} {confirm : Option (String → Sweep Bool)}
  {progress : Nat → Nat → String → Sweep Unit}

/-- A run before its first file. -/
def Run.start (store : Store) (total : Nat) : Run :=
  ⟨store, { filesTotal := total }⟩

/-- With consent, all files of a store are cleaned, unless the run ends early. -/
theorem run_all (hs : w.Sound) (hd : store.paths.Nodup) (ha : Cleanable w.disk report store.paths)
    (hr : ∀ p, report = some p → Report.Placed w p) (hp : ∀ i n path, Calm (progress i n path))
    (hc : Answers true w (isConfirmed settings confirm (question store))) :
    ∃ done r stop w', (all store settings confirm progress report).run.run w =
        (.ok (outcome r stop), w') ∧
      Went settings.methods report w store.paths (Run.start store store.paths.length) done r stop
        w' := by
  by_cases he : store.paths.isEmpty = true
  · unfold all
    dsimp only
    rw [if_pos he, List.isEmpty_iff.1 he]
    exact ⟨[], _, none, w, rfl, ⟨List.prefix_rfl, rfl, .refl hs, fun _ => rfl, by simp, by simp⟩⟩
  · obtain ⟨w₁, hr₁, h₁⟩ := hc
    have ha₁ : Cleanable w₁.disk report store.paths := ha.later h₁ (List.Subset.refl _)
    have hfiles : (store.paths.zipIdx 1).map (·.1) = store.paths := List.zipIdx_map_fst 1 _
    obtain ⟨done, r, stop, w₂, hr₂, went⟩ := run_cleanEach settings.methods
      (fun i path => hp i store.paths.length path) (store.paths.zipIdx 1) h₁.sound
      (fun p hp => (hr p hp).later h₁) (by rwa [hfiles]) (by rwa [hfiles])
      (Run.start store store.paths.length)
    rw [hfiles] at went
    unfold all
    dsimp only
    rw [if_neg he]
    cases stop with
    | some f =>
      refine ⟨done, r, some f, w₂, (run_bind_eq hr₁ _).trans ?_, went.before ha h₁⟩
      exact run_bind_eq hr₂ _
    | none =>
      -- At the end the run is mentioned in the log.
      obtain ⟨_, w₃, hr₃, h₃⟩ := calm_log logger Log.info
        ("Clean run finished: " ++ Text.ofNat r.summary.cleaned ++ " cleaned, " ++
          Text.ofNat r.summary.failed ++ " failed") w₂ went.later.sound
      refine ⟨done, r, none, w₃, (run_bind_eq hr₁ _).trans ?_, (went.behind ha₁ h₃).before ha h₁⟩
      exact (run_bind_eq hr₂ _).trans (run_bind_eq hr₃ _)

/-- A run with a report that can take every path goes through all of them. -/
theorem Went.stop_eq_none {paths done : List String} {r r' : Run} {stop : Option Fault}
    (h : Went methods report w paths r done r' stop w')
    (hr : ∀ path ∈ paths, Reportable w.disk report path) : stop = none ∧ done = paths := by
  have hnone : stop = none := by
    by_contra hne
    obtain ⟨path, hpath, hstray⟩ := h.stray hne
    exact hstray (hr path hpath)
  exact ⟨hnone, h.whole hnone⟩

/-- What a clean run of all files comes to. Every recorded path is counted once: what can be cleaned
is cleaned and leaves the store, all else is listed and stays. Nothing else is written but the
report and the open files. -/
structure Accounts (methods : List String) (report : Option Path) (store : Store) (d : Disk)
    (store' : Store) (s : CleanSummary) (d' : Disk) : Prop where
  total : s.filesTotal = store.paths.length
  sum : s.cleaned + s.failed = s.filesTotal
  carried : s.cancelled = false
  failed : s.failed = s.failedPaths.length
  failedPaths : s.failedPaths = store.paths.filter fun path => !canClean methods d path
  sorted : s.failedPaths.Pairwise (· < ·)
  kept : store'.items = store.items.filter fun e => s.failedPaths.contains e.1
  cleaned : ∀ path ∈ store.paths, ∀ f text, Ready methods d path f text →
    Cleaned methods f text d'
  others : ∀ p, ¬ Open d p → ¬ InReport d report p →
    (∀ path ∈ store.paths, ¬ AtReady methods d path p) → d'.node? p = d.node? p

/-- The accounts add up. -/
theorem accounts_of_later (ho : store.Ordered)
    (hl : w.Later (fun p => ∃ path ∈ store.paths, Reach methods w.disk report path p) w')
    (hc : ∀ path ∈ store.paths, ∀ f text, Ready methods w.disk path f text →
      Cleaned methods f text w'.disk) :
    let r := (Run.start store store.paths.length).account (canClean methods w.disk) store.paths
    Accounts methods report store w.disk r.store r.summary w'.disk := by
  intro r
  have hr : r = _ := Run.account_eq _ _ _
  rw [hr]
  simp only [Run.start, Nat.zero_add, List.nil_append]
  refine ⟨rfl, ?_, rfl, rfl, rfl, ?_, ?_, hc, ?_⟩
  · have hnone : store.paths.countP (fun path => !canClean methods w.disk path) =
        store.paths.countP fun path => decide ¬ canClean methods w.disk path = true :=
      List.countP_congr fun path _ => by simp
    rw [← List.countP_eq_length_filter, hnone]
    exact (List.length_eq_countP_add_countP _).symm
  · exact ho.paths.filter _
  · dsimp only
    refine List.filter_congr fun e he => ?_
    have hmem : e.1 ∈ store.paths := List.mem_map_of_mem he
    cases hcan : canClean methods w.disk e.1 <;> simp [hmem, hcan]
  · intro p hopen hreport hfiles
    refine hl.disk.node?_eq ?_
    rintro (h | ⟨path, hpath, h | h⟩)
    · exact hopen h
    · exact hfiles path hpath h
    · exact hreport h

/-- Without consent, nothing is done. -/
theorem run_all_declined (progress : Nat → Nat → String → Sweep Unit) (report : Option Path)
    (hs : w.Sound) (hne : store.paths ≠ []) (hset : settings.confirm = true)
    (hc : ∀ ask, confirm = some ask → Answers false w (ask (question store))) :
    ∃ w', (all store settings confirm progress report).run.run w =
        (.ok (store, .ok { filesTotal := store.paths.length, cancelled := true }), w') ∧
      w.Later Nowhere w' := by
  have declined : Answers false w (isConfirmed settings confirm (question store)) := by
    unfold isConfirmed
    rw [hset]
    cases confirm with
    | some ask => exact hc ask rfl
    | none =>
      obtain ⟨_, w₁, hr₁, h₁⟩ := calm_log logger Log.warning
        "Cleaning requires confirmation but no prompt is available; skipping" w hs
      exact ⟨w₁, run_bind_eq hr₁ _, h₁⟩
  obtain ⟨w₁, hr₁, h₁⟩ := declined
  refine ⟨w₁, ?_, h₁⟩
  unfold all
  dsimp only
  rw [if_neg (by simpa using hne)]
  exact run_bind_eq hr₁ _

/-- A clean run of all files, with consent or without. -/
theorem all_accounts (hs : w.Sound) (store : Store) (settings : CleanerSettings)
    (confirm : Option (String → Sweep Bool)) (progress : Nat → Nat → String → Sweep Unit)
    (report : Option Path) :
    (store.Ordered → Apart w.disk report store.paths →
      (∀ p, report = some p → Report.Placed w p) → (∀ i n path, Calm (progress i n path)) →
      Answers true w (isConfirmed settings confirm (question store)) →
      ∃ store' s w', (all store settings confirm progress report).run.run w =
          (.ok (store', .ok s), w') ∧
        Accounts settings.methods report store w.disk store' s w'.disk) ∧
    (store.paths ≠ [] → settings.confirm = true →
      (∀ ask, confirm = some ask → Answers false w (ask (question store))) →
      ∃ w', (all store settings confirm progress report).run.run w =
          (.ok (store, .ok { filesTotal := store.paths.length, cancelled := true }), w') ∧
        ∀ p, ¬ Open w.disk p → w'.disk.node? p = w.disk.node? p) := by
  constructor
  · intro ho ha hr hp hc
    obtain ⟨done, r, stop, w', hrun, went⟩ := run_all hs ho.nodup_paths ha.cleanable hr hp hc
    obtain ⟨rfl, rfl⟩ := went.stop_eq_none ha.reportable
    obtain rfl := went.account
    exact ⟨_, _, w', hrun, accounts_of_later ho went.later fun path hpath =>
      went.cleaned path hpath (ha.own hpath)⟩
  · intro hne hset hc
    obtain ⟨w', hrun, hl⟩ := run_all_declined progress report hs hne hset hc
    exact ⟨w', hrun, fun p hp => hl.disk.node?_eq (not_or.2 ⟨hp, id⟩)⟩

/-- Three files at the root. One is locked; the name of another is no UTF-8, and its first letter
stands for a byte. -/
def threeFiles : World :=
  { disk := ⟨[(["a.js"], .file (Text.encode "console.log(1);\nrun();\n".toList) (.at 0)),
        (["b.js"], .file (Text.encode "console.log(2);\n".toList) (.at 0)),
        (["é.js"], .file (Text.encode "run();\n".toList) (.at 0))], ⟨[], 0⟩, [], 0,
      { locked := [["b.js"]], strays := ['é']
        strays_high := List.forall_mem_singleton.2 (by decide) }⟩
    env := [], homes := [], now := .int 0, logTime := .int 0, logging := {}
    journal := [], metrics := none, out := "", err := "", input := [] }

/-- A store with two of the files and one that is gone. -/
def threePaths : Store := ⟨[("/a.js", 1), ("/b.js", 1), ("/gone.js", 2)]⟩

/-- Calls of `console.log` are cleaned. -/
def logSettings : CleanerSettings := { methods := ["log"] }

/-- A report at the root. -/
def rootReport (name : String) : Path := ⟨"/", [name]⟩

theorem sound_threeFiles : threeFiles.Sound := by
  rintro m ⟨⟩

theorem targets_threeFiles {path : String} {p : Place}
    (hpath : path ∈ ["/a.js", "/b.js", "/gone.js", "/é.js"])
    (hp : threeFiles.disk.Targets path p) : [String.ofList (path.toList.drop 1)] = p := by
  have ha : threeFiles.disk.Targets "/a.js" ["a.js"] :=
    ⟨.node ["a.js"] (.file (Text.encode "console.log(1);\nrun();\n".toList) (.at 0)), by cbv, rfl⟩
  have hb : threeFiles.disk.Targets "/b.js" ["b.js"] :=
    ⟨.node ["b.js"] (.file (Text.encode "console.log(2);\n".toList) (.at 0)), by cbv, rfl⟩
  have hgone : threeFiles.disk.Targets "/gone.js" ["gone.js"] :=
    ⟨.vacant [] "gone.js", by cbv, rfl⟩
  have hstray : threeFiles.disk.Targets "/é.js" ["é.js"] :=
    ⟨.node ["é.js"] (.file (Text.encode "run();\n".toList) (.at 0)), by cbv, rfl⟩
  simp only [List.mem_cons, List.not_mem_nil, or_false] at hpath
  rcases hpath with rfl | rfl | rfl | rfl
  · exact ha.unique hp
  · exact hb.unique hp
  · exact hgone.unique hp
  · exact hstray.unique hp

/-- Some of the paths, and a report under another name that is free. -/
theorem cleanable_threeFiles {name : String} {paths : List String}
    (hpaths : paths ⊆ ["/a.js", "/b.js", "/gone.js", "/é.js"])
    (hname : name ∉ ["a.js", "b.js", "gone.js", "é.js"])
    (hfree : threeFiles.disk.locate true (rootReport name).text = .ok (.vacant [] name)) :
    Cleanable threeFiles.disk (some (rootReport name)) paths := by
  have plain : ∀ a ∈ ["/a.js", "/b.js", "/gone.js", "/é.js"], '\x00' ∉ a.toList := by decide
  have names : ∀ a ∈ ["/a.js", "/b.js", "/gone.js", "/é.js"],
      String.ofList (a.toList.drop 1) ∈ ["a.js", "b.js", "gone.js", "é.js"] := by decide
  refine ⟨fun a ha => plain a (hpaths ha), fun _ _ _ _ => not_open rfl, ?_⟩
  rintro path hpath p hp ⟨r, hr, hrp⟩
  obtain rfl := Option.some.inj hr
  have hreport : threeFiles.disk.Targets (rootReport name).text [name] := ⟨_, hfree, rfl⟩
  have heq := (targets_threeFiles (hpaths hpath) hp).trans (hrp.unique hreport)
  exact hname (List.singleton_inj.1 heq ▸ names path (hpaths hpath))

theorem apart_threeFiles {name : String} (hname : name ∉ ["a.js", "b.js", "gone.js", "é.js"])
    (hfree : threeFiles.disk.locate true (rootReport name).text = .ok (.vacant [] name)) :
    Apart threeFiles.disk (some (rootReport name)) threePaths.paths := by
  have hpaths : threePaths.paths ⊆ ["/a.js", "/b.js", "/gone.js", "/é.js"] := by decide
  have inj : ∀ a ∈ threePaths.paths, ∀ b ∈ threePaths.paths,
      [String.ofList (a.toList.drop 1)] = [String.ofList (b.toList.drop 1)] → a = b := by
    decide
  have written : ∀ a ∈ threePaths.paths, threeFiles.disk.medium.canHold a.toList = true := by
    decide
  have hclean := cleanable_threeFiles hpaths hname hfree
  refine ⟨hclean.plain, fun a ha _ => written a ha, ?_, hclean.closed, hclean.unreported⟩
  intro a ha b hb f g hf hg hplace
  have hap := targets_threeFiles (hpaths ha) (targets_of_file? hf)
  have hbp := targets_threeFiles (hpaths hb) (targets_of_file? hg)
  exact inj a ha b hb (hap.trans (hplace.trans hbp.symm))

theorem placed_threeFiles : Report.Placed threeFiles (rootReport "r.csv") :=
  ⟨by decide, by cbv, "1970-01-01T00:00:00", by cbv⟩

theorem yes_threeFiles (store : Store) : Answers true threeFiles
    (isConfirmed logSettings (some fun _ => pure true) (question store)) :=
  ⟨threeFiles, rfl, .refl sound_threeFiles⟩

/-- The one file can be cleaned, the other is locked, and the last one is gone. -/
theorem canClean_threeFiles : threePaths.paths.filter
    (fun path => !canClean logSettings.methods threeFiles.disk path) = ["/b.js", "/gone.js"] := by
  have ha : canClean logSettings.methods threeFiles.disk "/a.js" = true :=
    canClean_iff.2 ⟨⟨["a.js"], Text.encode "console.log(1);\nrun();\n".toList, .at 0⟩,
      "console.log(1);\nrun();\n".toList, by cbv, Text.decode_encode _, .inr (by decide)⟩
  have hb : canClean logSettings.methods threeFiles.disk "/b.js" = false := by
    have hfile : threeFiles.disk.file? "/b.js" =
        some ⟨["b.js"], Text.encode "console.log(2);\n".toList, .at 0⟩ := by cbv
    have hrest : Removal.removeCalls logSettings.methods "console.log(2);\n".toList ≠
        "console.log(2);\n".toList := by decide +kernel
    unfold canClean
    simp only [hfile, Text.decode_encode, hrest, decide_false, Bool.false_or]
    decide
  have hgone : canClean logSettings.methods threeFiles.disk "/gone.js" = false := by
    have hfile : threeFiles.disk.file? "/gone.js" = none := by cbv
    unfold canClean
    rw [hfile]
  simp [threePaths, Store.paths, ha, hb, hgone]

/-- One file is cleaned; one is locked and one is gone, and both stay in the store. -/
theorem all_accounts_of_threePaths :
    ∃ store' s w', (all threePaths logSettings (some fun _ => pure true) (fun _ _ _ => pure ())
        (some (rootReport "r.csv"))).run.run threeFiles = (.ok (store', .ok s), w') ∧
      s.failedPaths = ["/b.js", "/gone.js"] ∧
      store'.items = [("/b.js", 1), ("/gone.js", 2)] ∧ s.cleaned = 1 := by
  obtain ⟨store', s, w', hrun, accounts⟩ :=
    (all_accounts sound_threeFiles threePaths logSettings (some fun _ => pure true)
      (fun _ _ _ => pure ()) (some (rootReport "r.csv"))).1 (by unfold Store.Ordered; decide)
      (apart_threeFiles (by decide) (by cbv))
      (fun p hp => Option.some.inj hp ▸ placed_threeFiles) (fun _ _ _ => calm_pure ())
      (yes_threeFiles _)
  have hpaths : s.failedPaths = ["/b.js", "/gone.js"] :=
    accounts.failedPaths.trans canClean_threeFiles
  refine ⟨store', s, w', hrun, hpaths, ?_, ?_⟩
  · rw [accounts.kept, hpaths]
    decide
  · have hsum := accounts.sum
    have htotal : s.filesTotal = 3 := accounts.total
    have hfailed : s.failed = 2 := by rw [accounts.failed, hpaths]; rfl
    omega

/-! ## Runs that end early or fail at a locked file -/

/-- Whatever is written to files, nothing can be added to the report about a path. The fault is no
refusal of the operating system. -/
structure Barred (p : Path) (path : String) (f : Fault) (w : World) : Prop where
  fault : f.isRefusal = false
  row : ∀ {A : Place → Prop} {w₁ : World}, w.Later A w₁ → ∀ calls success error, ∃ w₂,
    (Report.appendCleaned p (.str path) (.int calls) success (.str error)).run.run w₁ =
      (.error f, w₂)

theorem Barred.later {p : Path} {f : Fault} {A : Place → Prop} (h : Barred p path f w)
    (hl : w.Later A w') : Barred p path f w' := by
  refine ⟨h.fault, fun {B w₁} hl' => h.row (A := fun q => A q ∨ B q) ?_⟩
  exact (hl.mono fun _ => .inl).trans (hl'.mono fun _ => .inr)

/-- The directory of the report is there, but there is a NUL in its name. -/
theorem barred_of_nul {p : Path} (hn : '\x00' ∈ p.text.toList)
    (hp : '\x00' ∉ p.parent.text.toList) (hd : w.disk.stat p.parent.text = .ok .dir)
    (ht : ∃ s, Time.iso w.now = .ok s) (path : String) :
    Barred p path (.badValue "embedded null byte") w := by
  refine ⟨rfl, fun {A w₁} hl calls success error => ⟨w₁, ?_⟩⟩
  exact Report.run_appendCleaned_of_nul hn hp (stat_of_writes hl.disk hd) (hl.now ▸ ht) _ _ _ _

/-- The report can be written, but not with the name of the file in it. -/
theorem barred_of_stray {p : Path} (hp : Report.Placed w p) (ht : w.disk.Takes p.text)
    (hstray : w.disk.medium.canHold path.toList = false) : Barred p path .unencodable w := by
  refine ⟨rfl, fun {A w₁} hl calls success error => ?_⟩
  have hmedium : w₁.disk.medium = w.disk.medium := hl.disk.medium_eq
  exact Report.run_appendCleaned_of_stray (hp.later hl) (ht.of_writes hl.disk)
    (hmedium.symm ▸ hstray) calls success error

theorem run_record_of_barred {p : Path} {f : Fault} (hs : w.Sound) (hb : Barred p path f w)
    (calls : Int) (failure : Option Fault) (result : Run) :
    ∃ w', (record (some p) path calls failure result).run.run w = (.ok (result, some f), w') := by
  obtain ⟨_, w₁, hr₁, h₁⟩ := calm_record "clean.files" failure.isNone 1 w hs
  obtain ⟨w₂, hrow⟩ := hb.row h₁ calls failure.isNone ((failure.map Fault.message).getD "")
  have hattempt := run_attempt (Report.appendCleaned p (.str path) (.int calls) failure.isNone
    (.str ((failure.map Fault.message).getD ""))) w₁
  rw [hrow] at hattempt
  have hadd : (addToReport (some p) path calls failure).run.run w₁ = (.error f, w₂) := by
    refine (run_bind_eq hattempt _).trans ?_
    dsimp only
    rw [hb.fault]
    rfl
  have ha := run_attempt (addToReport (some p) path calls failure) w₁
  rw [hadd] at ha
  exact ⟨w₂, (run_bind_eq hr₁ _).trans (run_bind_eq ha _)⟩

/-- Such a report ends a run after the first file. -/
theorem run_all_of_barred {p : Path} {f : Fault} {rest : List String}
    (hfirst : store.paths = path :: rest) (hn : '\x00' ∉ path.toList) (hb : Barred p path f w)
    (hp : ∀ i n path, Calm (progress i n path))
    (hc : Answers true w (isConfirmed settings confirm (question store))) :
    ∃ store' w', (all store settings confirm progress (some p)).run.run w =
      (.ok (store', .error f), w') := by
  obtain ⟨w₁, hr₁, h₁⟩ := hc
  obtain ⟨_, w₂, hr₂, h₂⟩ := hp 1 store.paths.length path w₁ h₁.sound
  obtain ⟨failure, w₃, hr₃, -, h₃, -⟩ := run_cleanOne_record settings.methods h₂.sound
    hn (some p) (Run.start store store.paths.length)
  obtain ⟨w₄, hr₄⟩ := run_record_of_barred h₃.sound (((hb.later h₁).later h₂).later h₃)
    (((Run.start store store.paths.length).store.get? path).getD 0) failure
    ((Run.start store store.paths.length).settle (canClean settings.methods w₂.disk path) path)
  generalize (Run.start store store.paths.length).settle
    (canClean settings.methods w₂.disk path) path = r at *
  have heach : (cleanEach settings.methods (some p)
      (fun i path => progress i store.paths.length path)
      (Run.start store store.paths.length) (store.paths.zipIdx 1)).run.run w₁ =
        (.ok (r, some f), w₄) := by
    rw [hfirst, List.zipIdx_cons, cleanEach, ← hfirst]
    refine (run_bind_eq hr₂ _).trans ?_
    exact run_bind_eq (hr₃.trans hr₄) _
  refine ⟨r.store, w₄, ?_⟩
  unfold all
  dsimp only
  rw [if_neg (by rw [hfirst]; simp)]
  refine (run_bind_eq hr₁ _).trans ?_
  exact run_bind_eq heach _

theorem ne_ok_of_barred {p : Path} {f : Fault} {rest : List String}
    (hfirst : store.paths = path :: rest) (hn : '\x00' ∉ path.toList) (hb : Barred p path f w)
    (hp : ∀ i n path, Calm (progress i n path))
    (hc : Answers true w (isConfirmed settings confirm (question store)))
    (store' : Store) (s : CleanSummary) (w' : World) :
    (all store settings confirm progress (some p)).run.run w ≠ (.ok (store', .ok s), w') := by
  intro hrun
  obtain ⟨store₁, w₁, hstop⟩ := run_all_of_barred hfirst hn hb hp hc
  rw [hstop] at hrun
  cases hrun

/-- The store, the files and the directory of the report are as they should be, and consent is
given. Yet a file that can be read is listed as failed, because it is locked; and there is no
summary at all because of the name of the report, or because of the name of a file. -/
theorem all_short_of_accounts :
    (Apart threeFiles.disk (some (rootReport "r.csv")) threePaths.paths ∧
      Report.Placed threeFiles (rootReport "r.csv") ∧
      (threeFiles.disk.text? "/b.js").isSome = true ∧
      ∃ store' s w', (all threePaths logSettings (some fun _ => pure true) (fun _ _ _ => pure ())
        (some (rootReport "r.csv"))).run.run threeFiles = (.ok (store', .ok s), w') ∧
        "/b.js" ∈ s.failedPaths) ∧
    (Apart threeFiles.disk (some (rootReport "r\x00.csv")) threePaths.paths ∧
      threeFiles.disk.stat (rootReport "r\x00.csv").parent.text = .ok .dir ∧
      ∀ store' s w', (all threePaths logSettings (some fun _ => pure true) (fun _ _ _ => pure ())
        (some (rootReport "r\x00.csv"))).run.run threeFiles ≠ (.ok (store', .ok s), w')) ∧
    (Cleanable threeFiles.disk (some (rootReport "r.csv")) ["/é.js"] ∧
      Report.Placed threeFiles (rootReport "r.csv") ∧
      ∀ store' s w', (all ⟨[("/é.js", 1)]⟩ logSettings (some fun _ => pure true)
        (fun _ _ _ => pure ()) (some (rootReport "r.csv"))).run.run threeFiles ≠
          (.ok (store', .ok s), w')) := by
  have calm : ∀ (i n : Nat) (path : String), Calm ((fun _ _ _ => pure ()) i n path : Sweep Unit) :=
    fun _ _ _ => calm_pure ()
  refine ⟨⟨apart_threeFiles (by decide) (by cbv), placed_threeFiles, by cbv, ?_⟩,
    ⟨apart_threeFiles (by decide) (by cbv), by cbv, ?_⟩,
    cleanable_threeFiles (by decide) (by decide) (by cbv), placed_threeFiles, ?_⟩
  · have hapart : Apart threeFiles.disk (some (rootReport "r.csv")) threePaths.paths :=
      apart_threeFiles (by decide) (by cbv)
    obtain ⟨done, r, stop, w', hrun, went⟩ := run_all sound_threeFiles
      (show threePaths.paths.Nodup by decide) hapart.cleanable
      (fun p hp => Option.some.inj hp ▸ placed_threeFiles) calm (yes_threeFiles _)
    obtain ⟨rfl, rfl⟩ := went.stop_eq_none hapart.reportable
    refine ⟨_, _, w', hrun, ?_⟩
    rw [went.account, Run.account_eq]
    simp only [Run.start, List.nil_append, canClean_threeFiles]
    decide
  · exact ne_ok_of_barred rfl (by decide)
      (barred_of_nul (by decide) (by decide) (by cbv) ⟨"1970-01-01T00:00:00", by cbv⟩ _)
      calm (yes_threeFiles _)
  · exact ne_ok_of_barred rfl (by decide)
      (barred_of_stray placed_threeFiles ⟨_, by cbv⟩ (by decide)) calm (yes_threeFiles _)

end Clean

end ConsoleSweep
