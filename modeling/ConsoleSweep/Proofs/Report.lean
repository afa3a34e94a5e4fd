/-
  What adding to a report does to the files.

  A report is placed well if its directory is there, its path has no NUL and the clock shows
  a date (`Report.Placed`). Then a row is added, or the operating system refuses it; nothing
  is written but the report itself, and no directory is made (`adds_appendCleaned`). One more
  fault is possible, which is no refusal of the operating system: a name in the row may be no
  UTF-8.
-/
import ConsoleSweep.Proofs.Calm
import ConsoleSweep.Proofs.Disk.Locate
import ConsoleSweep.Proofs.Disk.Medium
import ConsoleSweep.Report

namespace ConsoleSweep

namespace Report

open Sweep

/-- The path of a report has no NUL, its directory is there, and the clock shows a date. -/
structure Placed (w : World) (p : Path) : Prop where
  plain : '\x00' ∉ p.text.toList
  dir : w.disk.stat p.parent.text = .ok .dir
  dated : ∃ s, Time.iso w.now = .ok s

theorem Placed.later {w w' : World} {p : Path} {A : Place → Prop} (h : Placed w p)
    (hl : w.Later A w') : Placed w' p :=
  ⟨h.plain, Disk.stat_of_writes hl.disk h.dir, hl.now ▸ h.dated⟩

variable {α β : Type} {p : Path} {m : Medium} {fits : Prop}

/-- What comes before a row: the names of the columns, at the beginning. -/
def lead (begun : Bool) (header : List Json) : List Char :=
  if begun then [] else headerText header

/-- A row of named values is added behind what comes before it. -/
theorem append_obj {header : List Json} (hnames : header.all namesColumn = true)
    (fields : List (String × Json)) : append p (.obj fields) (some header) = (do
      let begun ← hasContent p
      makeDirs p.parent
      appendText p.text []
      checkText (lead begun header)
      addRow p (lead begun header) (rowText fields header)) := by
  unfold append
  simp only [hnames, Bool.not_true, Bool.and_false, Bool.false_eq_true, if_false, Json.fields?,
    Option.isNone_some, Bool.false_and, Option.getD_some]
  rfl

theorem nul_not_mem_parent (h : '\x00' ∉ p.text.toList) : '\x00' ∉ p.parent.text.toList :=
  fun hmem => h (Path.mem_of_mem_parent hmem (by decide))

/-- On the medium `m` the work is done or refused by the operating system, and writes no file but
the report. It is given up otherwise only if it does not fit the medium. -/
def Adds (m : Medium) (fits : Prop) (p : Path) (work : Sweep α) : Prop :=
  ∀ w, w.Sound → w.disk.medium = m → Placed w p → ∃ r w', work.run.run w = (r, w') ∧
    w.Later (w.disk.Targets p.text) w' ∧
    ∀ f, r = .error f → f.isRefusal = true ∨ f = .unencodable ∧ ¬ fits

theorem adds_of_calm {work : Sweep α} (h : Calm work) : Adds m fits p work := by
  intro w hs _ _
  obtain ⟨a, w', hr, hl⟩ := h w hs
  exact ⟨_, w', hr, hl.of_nowhere, by simp⟩

theorem Adds.bind {work : Sweep α} {next : α → Sweep β} (hw : Adds m fits p work)
    (hn : ∀ a, Adds m fits p (next a)) : Adds m fits p (work >>= next) := by
  intro w hs hm hp
  obtain ⟨r, w₁, hr, h₁, hf⟩ := hw w hs hm hp
  cases r with
  | error f =>
    refine ⟨_, w₁, run_bind_fault hr next, h₁, ?_⟩
    rintro g ⟨⟩
    exact hf f rfl
  | ok a =>
    obtain ⟨r, w₂, hr₂, h₂, hf₂⟩ :=
      hn a w₁ h₁.sound (h₁.disk.medium_eq.trans hm) (hp.later h₁)
    refine ⟨r, w₂, (run_bind_eq hr next).trans hr₂, ?_, hf₂⟩
    exact h₁.trans (h₂.mono fun q => (Disk.targets_iff_of_writes h₁.disk).1)

theorem adds_pathExists : Adds m fits p (pathExists p) := by
  refine Adds.bind ?_ fun _ => adds_of_calm (calm_pure _)
  intro w hs _ hp
  unfold nodeAt?
  rw [if_neg (by simpa using hp.plain)]
  rw [run_bind_eq (run_world w)]
  split
  · exact ⟨_, w, rfl, .refl hs, by simp⟩
  · exact ⟨_, w, rfl, .refl hs, by simp⟩
  · exact ⟨_, w, rfl, .refl hs, by simp⟩
  · exact ⟨_, w, rfl, .refl hs, by simp⟩
  · next e _ _ _ _ =>
    refine ⟨.error (.os e p.text), w, rfl, .refl hs, ?_⟩
    rintro f ⟨⟩
    exact .inl rfl

theorem adds_hasContent : Adds m fits p (hasContent p) := by
  refine adds_pathExists.bind fun found => adds_of_calm ?_
  refine (calm_pure _).ite (calm_world.bind fun w => ?_)
  split
  · exact calm_pure _
  · exact calm_pure _
  · exact calm_pure _

theorem adds_makeDirs : Adds m fits p (makeDirs p.parent) := by
  intro w hs _ hp
  exact ⟨.ok (), w, run_makeDirs (nul_not_mem_parent hp.plain) hp.dir, .refl hs, by simp⟩

theorem adds_appendText (text : List Char) : Adds m fits p (appendText p.text text) := by
  intro w hs _ hp
  unfold appendText
  rw [run_bind_eq (run_checkPath hp.plain w), run_bind_eq (run_world w)]
  cases hd : w.disk.append p.text (Text.encode text) with
  | error e =>
    refine ⟨.error (.os e p.text), w, rfl, .refl hs, ?_⟩
    rintro f ⟨⟩
    exact .inl rfl
  | ok d =>
    refine ⟨.ok (), { w with disk := d }, rfl, ⟨rfl, hs, ?_⟩, by simp⟩
    exact (Disk.writes_update hd).mono fun q => .inr

theorem adds_checkText {text : List Char} (h : m.canHold text = true) :
    Adds m fits p (checkText text) := by
  intro w hs hm _
  refine ⟨.ok (), w, ?_, .refl hs, by simp⟩
  unfold checkText
  rw [run_bind_eq (run_world w), hm, h]
  rfl

/-- The names of the columns are ASCII. -/
theorem canHold_lead (begun : Bool) : m.canHold (lead begun cleanHeader) = true := by
  refine Medium.canHold_of_isAscii ?_
  cases begun <;> decide

theorem adds_addRow {text : List Char} (h : fits → m.canHold text = true) (lead : List Char) :
    Adds m fits p (addRow p lead text) := by
  have given : ¬ fits → Adds m fits p (fail .unencodable : Sweep Unit) := by
    intro hfits w hs _ _
    refine ⟨.error .unencodable, w, rfl, .refl hs, ?_⟩
    rintro f ⟨⟩
    exact .inr ⟨rfl, hfits⟩
  intro w hs hm hp
  unfold addRow
  rw [run_bind_eq (run_world w), hm]
  cases htext : m.canHold text with
  | true => exact adds_appendText _ w hs hm hp
  | false =>
    have hfits : ¬ fits := fun hfits => by simp [h hfits] at htext
    exact ((adds_appendText _).bind fun _ => (given hfits).bind fun _ => adds_appendText _)
      w hs hm hp

theorem adds_append (fields : List (String × Json))
    (h : fits → m.canHold (rowText fields cleanHeader) = true) :
    Adds m fits p (append p (.obj fields) (some cleanHeader)) := by
  rw [append_obj rfl]
  exact adds_hasContent.bind fun begun => adds_makeDirs.bind fun _ =>
    (adds_appendText []).bind fun _ => (adds_checkText (canHold_lead begun)).bind fun _ =>
      adds_addRow h _

/-- What becomes of a file is added, if the path and what is told of an error fit the medium. -/
theorem adds_appendCleaned (file : String) (calls : Int) (success : Bool) (error : String)
    (h : fits → m.canHold file.toList = true ∧ m.canHold error.toList = true) :
    Adds m fits p (appendCleaned p (.str file) (.int calls) success (.str error)) := by
  intro w hs hm hp
  obtain ⟨s, hd⟩ := hp.dated
  unfold appendCleaned
  rw [run_bind_eq (run_world w), hd]
  refine adds_append _ (fun hfits => Medium.canHold_row.2 fun f hf => ?_) w hs hm hp
  obtain ⟨hfile, herror⟩ := h hfits
  have stamp : Text.IsAscii (s ++ "+00:00").toList := by
    rw [String.toList_append]
    exact Text.isAscii_append.2 ⟨Time.isAscii_iso hd, by decide⟩
  have status : Text.IsAscii (if success then "cleaned" else "failed").toList := by
    cases success <;> decide
  simp only [cleanHeader, List.map_cons, List.map_nil, List.mem_cons, List.not_mem_nil,
    or_false] at hf
  rcases hf with rfl | rfl | rfl | rfl | rfl
  · exact Medium.canHold_of_isAscii stamp
  · exact hfile
  · exact Medium.canHold_of_isAscii (Text.isAscii_ofInt calls)
  · exact Medium.canHold_of_isAscii status
  · exact herror

theorem run_appendText {path : String} {w : World} (text : List Char) (hn : '\x00' ∉ path.toList)
    (h : w.disk.Takes path) : ∃ w', (appendText path text).run.run w = (.ok (), w') ∧
      Disk.Writes (w.disk.Targets path) w.disk w'.disk := by
  obtain ⟨d, hd⟩ := h.update (· ++ Text.encode text)
  exact ⟨{ w with disk := d }, run_appendText_of_append hn hd, Disk.writes_update hd⟩

theorem run_hasContent {w : World} (hn : '\x00' ∉ p.text.toList) (h : w.disk.Takes p.text) :
    ∃ b, (hasContent p).run.run w = (.ok b, w) := by
  obtain ⟨d, hd⟩ := h
  unfold hasContent
  rcases Disk.update_eq_ok hd with ⟨q, bytes, stamp, hl, -, -⟩ | ⟨dir, name, hl, -, -⟩
  · have hstat : w.disk.stat p.text = .ok (.file bytes stamp) := by
      unfold Disk.stat
      rw [hl]
    refine ⟨!bytes.isEmpty, ?_⟩
    rw [run_bind_eq (run_pathExists_of_stat hn hstat), Bool.not_true, if_neg Bool.false_ne_true,
      run_bind_eq (run_world w), hstat]
    rfl
  · have hstat : w.disk.stat p.text = .error .missing := by
      unfold Disk.stat
      rw [hl]
    have hexists : (pathExists p).run.run w = (.ok false, w) := by
      unfold pathExists nodeAt?
      rw [if_neg (by simpa using hn), run_bind, run_bind_eq (run_world w), hstat]
      rfl
    exact ⟨false, run_bind_eq hexists _⟩

theorem run_checkText {w : World} {text : List Char} (h : w.disk.medium.canHold text = true) :
    (checkText text).run.run w = (.ok (), w) := by
  unfold checkText
  rw [run_bind_eq (run_world w), h]
  rfl

theorem run_addRow {w : World} {text : List Char} (h : w.disk.medium.canHold text = true)
    (lead : List Char) :
    (addRow p lead text).run.run w = (appendText p.text (lead ++ text)).run.run w := by
  unfold addRow
  rw [run_bind_eq (run_world w), h]
  rfl

theorem run_addRow_of_stray {w : World} {text : List Char} (hn : '\x00' ∉ p.text.toList)
    (ht : w.disk.Takes p.text) (h : w.disk.medium.canHold text = false) (lead : List Char) :
    ∃ w', (addRow p lead text).run.run w = (.error .unencodable, w') := by
  obtain ⟨w', hlead, -⟩ := run_appendText lead hn ht
  refine ⟨w', ?_⟩
  unfold addRow
  rw [run_bind_eq (run_world w), h]
  exact run_bind_eq hlead _

/-- A path that no file can hold is not added to a report that could be written; and that is no
refusal of the operating system. -/
theorem run_appendCleaned_of_stray {w : World} (hp : Placed w p) (ht : w.disk.Takes p.text)
    {file : String} (hstray : w.disk.medium.canHold file.toList = false) (calls : Int)
    (success : Bool) (error : String) :
    ∃ w', (appendCleaned p (.str file) (.int calls) success (.str error)).run.run w =
      (.error .unencodable, w') := by
  obtain ⟨s, hd⟩ := hp.dated
  obtain ⟨begun, hcontent⟩ := run_hasContent hp.plain ht
  obtain ⟨w₁, hopen, hw⟩ := run_appendText [] hp.plain ht
  have hrow : w₁.disk.medium.canHold (rowText [("timestamp_utc", .str (s ++ "+00:00")),
      ("path", .str file), ("calls_before", .str (Json.int calls).toText),
      ("status", .str (if success then "cleaned" else "failed")), ("error", .str error)]
      cleanHeader) = false := by
    rw [hw.medium_eq, Bool.eq_false_iff]
    intro hall
    have hfile := Medium.canHold_row.1 hall file.toList (List.mem_cons_of_mem _ List.mem_cons_self)
    rw [hstray] at hfile
    cases hfile
  obtain ⟨w', hadd⟩ := run_addRow_of_stray hp.plain (ht.of_writes hw) hrow
    (lead begun cleanHeader)
  refine ⟨w', ?_⟩
  unfold appendCleaned
  rw [run_bind_eq (run_world w), hd]
  refine (run_bind_eq (run_pure s w) _).trans ?_
  rw [append_obj rfl, run_bind_eq hcontent,
    run_bind_eq (run_makeDirs (nul_not_mem_parent hp.plain) hp.dir), run_bind_eq hopen,
    run_bind_eq (run_checkText (canHold_lead begun))]
  exact hadd

/-- A report with a NUL in its name is no refusal of the operating system: the work is given up with
another fault. -/
theorem run_appendCleaned_of_nul {w : World} (hn : '\x00' ∈ p.text.toList)
    (hp : '\x00' ∉ p.parent.text.toList) (hd : w.disk.stat p.parent.text = .ok .dir)
    (ht : ∃ s, Time.iso w.now = .ok s) (file calls : Json) (success : Bool) (error : Json) :
    (appendCleaned p file calls success error).run.run w =
      (.error (.badValue "embedded null byte"), w) := by
  have hc : p.text.toList.contains '\x00' = true := by simpa using hn
  have hexists : (pathExists p).run.run w = (.ok false, w) := by
    unfold pathExists nodeAt?
    rw [if_pos hc]
    rfl
  have hcontent : (hasContent p).run.run w = (.ok false, w) := run_bind_eq hexists _
  have hmake : (makeDirs p.parent).run.run w = (.ok (), w) := run_makeDirs hp hd
  have hwrite : (appendText p.text []).run.run w =
      (.error (.badValue "embedded null byte"), w) := by
    have hcheck : (checkPath p.text).run.run w = (.error (.badValue "embedded null byte"), w) := by
      unfold checkPath
      rw [if_pos hc]
      rfl
    exact run_bind_fault hcheck _
  obtain ⟨s, ht⟩ := ht
  unfold appendCleaned
  rw [run_bind_eq (run_world w), ht]
  refine (run_bind_eq (run_pure s w) _).trans ?_
  refine (run_bind_eq hcontent _).trans ?_
  exact (run_bind_eq hmake _).trans (run_bind_fault hwrite _)

end Report

end ConsoleSweep
