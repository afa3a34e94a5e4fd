/-
  What is read in a report.

  Rows of strings are added to a report call by call (`Call.perform`). The report is new or
  empty at first and can be opened (`Opens`), so the first call writes the header and a row.
  From then on the file has something in it and its directory is there (`Holds`), which every
  call keeps (`Holds.run_append`), so each of them writes one row. Rows come back from their
  texts, so a reader finds the header and the records of all calls (`rows_after_calls`).

  Nothing comes back from a device, and a string that is no UTF-8 is in no row at all: the
  report is an ordinary file, and the strings can be held (`Call.Fits`).
-/
import ConsoleSweep.Proofs.Csv
import ConsoleSweep.Proofs.Disk.Grown
import ConsoleSweep.Proofs.Report
import ConsoleSweep.Proofs.Store.Files

namespace ConsoleSweep

namespace Report

open Sweep

variable {w : World} {p : Path} {header : List String}

/-! ## Rows of strings -/

/-- A string, or nothing. -/
def valueJson : Option String → Json
  | some s => .str s
  | none => .null

/-- A row of strings, by the names of their columns. -/
def rowJson (values : List (String × Option String)) : Json :=
  .obj (values.map fun v => (v.1, valueJson v.2))

/-- The columns of a report. -/
def columns (header : List String) : List Json :=
  header.map .str

/-- What a row has for each column: its string, or an empty one. -/
def record (header : List String) (values : List (String × Option String)) : List (List Char) :=
  header.map fun name => ((values.lookup name).join.getD "").toList

theorem lookup_map_snd {β γ : Type} (f : β → γ) (entries : List (String × β)) (name : String) :
    (entries.map fun e => (e.1, f e.2)).lookup name = (entries.lookup name).map f := by
  induction entries with
  | nil => rfl
  | cons e entries ih =>
    rw [List.map_cons, List.lookup_cons, List.lookup_cons, ih]
    split <;> rfl

theorem column_str (values : List (String × Option String)) (name : String) :
    column (values.map fun v => (v.1, valueJson v.2)) (.str name) =
      ((values.lookup name).join.getD "").toList := by
  rw [column, lookup_map_snd]
  rcases values.lookup name with _ | _ | s <;> rfl

theorem rowText_eq (header : List String) (values : List (String × Option String)) :
    rowText (values.map fun v => (v.1, valueJson v.2)) (columns header) =
      Csv.row (record header values) := by
  rw [rowText, columns, record, List.map_map]
  exact congrArg Csv.row (List.map_congr_left fun name _ => column_str values name)

/-- Columns with the same name have one name. -/
theorem headerText_eq (header : List String) :
    headerText (columns header) = Csv.row (header.map String.toList) := by
  have hname : ∀ name : String, fieldText
      ((((columns header).filter (isSameName (.str name))).getLast?).getD (.str name)) =
        name.toList := by
    intro name
    cases hlast : ((columns header).filter (isSameName (.str name))).getLast? with
    | none => rfl
    | some v =>
      obtain ⟨hv, hsame⟩ := List.mem_filter.1 (List.mem_of_getLast? hlast)
      obtain ⟨other, -, rfl⟩ := List.mem_map.1 hv
      obtain rfl : name = other := by simpa [isSameName] using hsame
      rfl
  unfold headerText
  rw [columns, List.map_map]
  exact congrArg Csv.row (List.map_congr_left fun name _ => hname name)

theorem lead_eq (begun : Bool) (header : List String) :
    lead begun (columns header) = if begun then [] else Csv.row (header.map String.toList) := by
  rw [lead, headerText_eq]

/-- The strings can be held by a file on the medium. -/
def Held (m : Medium) (texts : List (List Char)) : Prop :=
  ∀ text ∈ texts, m.canHold text = true

theorem held_of_strays {m : Medium} {texts : List (List Char)} (h : m.strays = []) :
    Held m texts := fun _ _ => Medium.canHold_iff.2 fun _ _ => h ▸ List.not_mem_nil

/-- A row of strings is added behind what the report has, or behind a header. -/
theorem run_append_of_held {begun : Bool} {w₁ w₂ : World} {values : List (String × Option String)}
    (hheader : Held w₂.disk.medium (header.map String.toList))
    (hrow : Held w₂.disk.medium (record header values))
    (hcontent : (hasContent p).run.run w = (.ok begun, w))
    (hmade : (makeDirs p.parent).run.run w = (.ok (), w₁))
    (hopen : (appendText p.text []).run.run w₁ = (.ok (), w₂)) :
    (append p (rowJson values) (some (columns header))).run.run w =
      (appendText p.text ((if begun then [] else Csv.row (header.map String.toList)) ++
        Csv.row (record header values))).run.run w₂ := by
  have hnames : (columns header).all namesColumn = true := by
    simp [columns, namesColumn]
  have hlead : w₂.disk.medium.canHold (lead begun (columns header)) = true := by
    rw [lead_eq]
    split
    · rfl
    · exact Medium.canHold_row.2 hheader
  rw [rowJson, append_obj hnames, run_bind_eq hcontent, run_bind_eq hmade, run_bind_eq hopen,
    run_bind_eq (run_checkText hlead), rowText_eq, lead_eq,
    run_addRow (Medium.canHold_row.2 hrow)]

/-! ## Reports that have been begun -/

/-- The report is a file with these contents that can be written and is no device, and its directory
is there. -/
structure Holds (m : Medium) (d : Disk) (p : Path) (bytes : Text.Bytes) : Prop where
  medium : d.medium = m
  plain : '\x00' ∉ p.text.toList
  dir : d.stat p.parent.text = .ok .dir
  takes : d.Takes p.text
  kept : d.Retains p.text
  file : ∃ f, d.file? p.text = some f ∧ f.bytes = bytes

variable {m : Medium} {bytes : Text.Bytes} {d : Disk}

theorem Holds.run_appendText (h : Holds m w.disk p bytes) (text : List Char) :
    ∃ w', (appendText p.text text).run.run w = (.ok (), w') ∧
      Holds m w'.disk p (bytes ++ Text.encode text) := by
  obtain ⟨f, hf, rfl⟩ := h.file
  have hput : w.disk.append p.text (Text.encode text) =
      .ok (w.disk.putFile f.place (f.bytes ++ Text.encode text)) :=
    Disk.update_eq_putFile hf (h.takes.refuses_eq_false hf)
      (.inr (h.kept _ (Disk.targets_of_file? hf)))
  have hwritten := Disk.writes_update hput
  exact ⟨{ w with disk := w.disk.putFile f.place (f.bytes ++ Text.encode text) },
    run_appendText_of_append h.plain hput, hwritten.medium_eq.trans h.medium, h.plain,
    Disk.stat_of_writes hwritten h.dir, h.takes.of_writes hwritten,
    (Disk.retains_iff_of_writes hwritten).2 h.kept, Disk.file?_putFile hf _⟩

theorem Holds.run_hasContent (h : Holds m w.disk p bytes) :
    (hasContent p).run.run w = (.ok (!bytes.isEmpty), w) := by
  obtain ⟨f, hf, rfl⟩ := h.file
  have hstat := stat_of_file? hf
  unfold hasContent
  rw [run_bind_eq (run_pathExists_of_stat h.plain hstat), Bool.not_true, if_neg Bool.false_ne_true,
    run_bind_eq (run_world w), hstat]
  rfl

/-- A row is added to a report that has something in it. -/
theorem Holds.run_append (h : Holds m w.disk p bytes) (hbegun : bytes ≠ [])
    (hheader : Held m (header.map String.toList)) {values : List (String × Option String)}
    (hrow : Held m (record header values)) :
    ∃ w', (append p (rowJson values) (some (columns header))).run.run w = (.ok (), w') ∧
      Holds m w'.disk p (bytes ++ Text.encode (Csv.row (record header values))) := by
  have hcontent := h.run_hasContent
  rw [List.isEmpty_eq_false_iff.2 hbegun, Bool.not_false] at hcontent
  obtain ⟨w₁, hopen, h₁⟩ := h.run_appendText []
  rw [show Text.encode [] = [] from rfl, List.append_nil] at h₁
  obtain ⟨w₂, hwrite, h₂⟩ := h₁.run_appendText (Csv.row (record header values))
  refine ⟨w₂, ?_, h₂⟩
  rw [run_append_of_held (h₁.medium ▸ hheader) (h₁.medium ▸ hrow) hcontent
    (run_makeDirs (nul_not_mem_parent h.plain) h.dir) hopen]
  exact hwrite

/-! ## Reports that are begun -/

/-- Nothing is found at the path, or an empty file. -/
def Fresh (d : Disk) (path : String) : Prop :=
  match d.stat path with
  | .ok (.file bytes _) => bytes = []
  | .ok _ => False
  | .error e => e = .missing ∨ e = .notDirectory ∨ e = .tooManyLinks

/-- The missing directories can be made, and an empty file be opened then that is no device. -/
structure Opens (d : Disk) (p : Path) : Prop where
  plain : '\x00' ∉ p.text.toList
  opens : ∃ d₀ d₁ f, d.makeDirs p.parent.root p.parent.parts = (d₀, none) ∧
    d₀.append p.text [] = .ok d₁ ∧ d₁.Retains p.text ∧ d₁.file? p.text = some f ∧ f.bytes = []

theorem run_hasContent_of_fresh (hn : '\x00' ∉ p.text.toList) (h : Fresh w.disk p.text) :
    (hasContent p).run.run w = (.ok false, w) := by
  unfold Fresh at h
  split at h
  · next stamp hstat =>
    unfold hasContent
    rw [run_bind_eq (run_pathExists_of_stat hn hstat), Bool.not_true, if_neg Bool.false_ne_true,
      run_bind_eq (run_world w), hstat, h]
    rfl
  · exact h.elim
  · next e hstat =>
    have hexists : (pathExists p).run.run w = (.ok false, w) := by
      unfold pathExists nodeAt?
      rw [if_neg (by simpa using hn), run_bind, run_bind, run_world]
      rcases h with rfl | rfl | rfl <;> simp only [hstat] <;> rfl
    unfold hasContent
    rw [run_bind_eq hexists]
    rfl

/-- The first row comes with the header, behind what is in the file that is opened. -/
theorem run_append_of_opened {d₀ d₁ : Disk} {f : Disk.File} (hn : '\x00' ∉ p.text.toList)
    (hfresh : Fresh w.disk p.text)
    (hmade : w.disk.makeDirs p.parent.root p.parent.parts = (d₀, none))
    (hopened : d₀.append p.text [] = .ok d₁) (hkept : d₁.Retains p.text)
    (hf : d₁.file? p.text = some f) (hheader : Held w.disk.medium (header.map String.toList))
    {values : List (String × Option String)} (hrow : Held w.disk.medium (record header values)) :
    ∃ w', (append p (rowJson values) (some (columns header))).run.run w = (.ok (), w') ∧
      Holds w.disk.medium w'.disk p (f.bytes ++ Text.encode
        (Csv.row (header.map String.toList) ++ Csv.row (record header values))) := by
  have hwritten := Disk.writes_update hopened
  have hdir : d₁.stat p.parent.text = .ok .dir :=
    Disk.stat_of_writes hwritten (Disk.stat_of_makeDirs hmade)
  have hmedium : d₁.medium = w.disk.medium :=
    hwritten.medium_eq.trans (Disk.grows_of_makeDirs hmade).medium
  have hholds : Holds w.disk.medium ({ w with disk := d₁ } : World).disk p f.bytes :=
    ⟨hmedium, hn, hdir, Disk.Takes.of_writes ⟨d₁, hopened⟩ hwritten, hkept, f, hf, rfl⟩
  have hopen : (appendText p.text []).run.run { w with disk := d₀ } =
      (.ok (), { w with disk := d₁ }) :=
    run_appendText_of_append hn hopened
  obtain ⟨w', hwrite, hwritten⟩ := hholds.run_appendText
    (Csv.row (header.map String.toList) ++ Csv.row (record header values))
  refine ⟨w', ?_, hwritten⟩
  rw [run_append_of_held (hholds.medium.symm ▸ hheader) (hholds.medium.symm ▸ hrow)
    (run_hasContent_of_fresh hn hfresh)
    (run_makeDirs_of_made (nul_not_mem_parent hn) hmade) hopen]
  exact hwrite

/-- A report can be opened under a free name. -/
theorem opens_of_vacant {dir : Place} {name : String} (hn : '\x00' ∉ p.text.toList)
    (hdir : d.stat p.parent.text = .ok .dir)
    (hfree : d.locate true p.text = .ok (.vacant dir name)) (hmay : d.mayMake dir name = true)
    (hkept : d.Retains p.text) : Opens d p := by
  obtain ⟨f, hf, hempty⟩ := Disk.file?_of_vacant hfree []
  have hopened : d.append p.text [] = .ok (d.putFile (dir ++ [name]) []) := by
    unfold Disk.append Disk.update
    rw [hfree]
    exact if_pos hmay
  exact ⟨hn, d, _, f, Disk.makeDirs_of_stat _ _ hdir, hopened,
    (Disk.retains_iff_of_writes (Disk.writes_update hopened)).2 hkept, hf, hempty⟩

/-! ## Calls -/

/-- A call that adds a row: with given values, or with what became of a file at some time. -/
inductive Call where
  | row (values : List (String × Option String))
  | cleaned (now : Number) (file : String) (calls : Int) (success : Bool) (error : String)

/-- The columns of a report on cleaned files, by their names. -/
def cleanColumns : List String :=
  ["timestamp_utc", "path", "calls_before", "status", "error"]

/-- The call, with the clock as it is then. -/
def Call.perform (p : Path) (header : List String) : Call → Sweep Unit
  | .row values => append p (rowJson values) (some (columns header))
  | .cleaned now file calls success error => do
    modify fun w => { w with now }
    appendCleaned p (.str file) (.int calls) success (.str error)

/-- The values that a call adds. -/
def Call.values : Call → List (String × Option String)
  | .row values => values
  | .cleaned now file calls success error =>
    [("timestamp_utc", some ((Time.iso now).toOption.getD "" ++ "+00:00")), ("path", some file),
      ("calls_before", some (Text.ofInt calls)),
      ("status", some (if success then "cleaned" else "failed")), ("error", some error)]

/-- The call is about the columns. What became of a file is told by columns of its own, at a time
that has a date. -/
def Call.IsAbout (header : List String) : Call → Prop
  | .row _ => True
  | .cleaned now .. => header = cleanColumns ∧ ∃ stamp, Time.iso now = .ok stamp

/-- The call is about the columns, and what it adds can be held on the medium. -/
structure Call.Fits (m : Medium) (header : List String) (c : Call) : Prop where
  about : c.IsAbout header
  held : Held m (record header c.values)

/-- Every call adds its values as a row, though the clock may have been set. -/
theorem run_perform {c : Call} (h : c.IsAbout header) : ∃ w₁, w₁.disk = w.disk ∧
    (c.perform p header).run.run w =
      (append p (rowJson c.values) (some (columns header))).run.run w₁ := by
  cases c with
  | row values => exact ⟨w, rfl, rfl⟩
  | cleaned now file calls success error =>
    obtain ⟨rfl, stamp, hstamp⟩ := h
    refine ⟨{ w with now }, rfl, ?_⟩
    unfold Call.perform appendCleaned
    rw [run_bind_eq (run_modify _ w), run_bind_eq (run_world _)]
    simp only [hstamp, Call.values, Except.toOption, Option.getD_some]
    rfl

theorem encode_row_ne_nil (fields : List (List Char)) : Text.encode (Csv.row fields) ≠ [] := by
  rw [Csv.row, Text.encode_append]
  exact List.append_ne_nil_of_right_ne_nil _ (by decide)

/-- Calls on a report that has something in it add their records. -/
theorem Holds.run_calls {calls : List Call} {text : List Char}
    (h : Holds m w.disk p (Text.encode text)) (hbegun : Text.encode text ≠ [])
    (hheader : Held m (header.map String.toList)) (hfits : ∀ c ∈ calls, c.Fits m header) :
    ∃ w', (calls.forM fun c => c.perform p header).run.run w = (.ok (), w') ∧
      Holds m w'.disk p (Text.encode
        (text ++ (calls.map fun c => record header c.values).flatMap Csv.row)) := by
  induction calls generalizing w text with
  | nil => exact ⟨w, rfl, by simpa using h⟩
  | cons c calls ih =>
    obtain ⟨hc, hfits⟩ := List.forall_mem_cons.1 hfits
    obtain ⟨w₀, hdisk, hperform⟩ := run_perform (w := w) (p := p) hc.about
    obtain ⟨w₁, hrun, h₁⟩ := (hdisk ▸ h).run_append hbegun hheader hc.held
    rw [← Text.encode_append] at h₁
    have hmore : Text.encode (text ++ Csv.row (record header c.values)) ≠ [] := by
      rw [Text.encode_append]
      exact List.append_ne_nil_of_left_ne_nil hbegun _
    obtain ⟨w', hcalls, h'⟩ := ih h₁ hmore hfits
    exact ⟨w', (run_bind_eq (hperform.trans hrun) _).trans hcalls, by simpa using h'⟩

/-- After some calls on a report that is new or empty and can be opened, a reader finds the header
and then the records of the calls in their order, whatever is in their fields. -/
theorem rows_after_calls {calls : List Call} (hfresh : Fresh w.disk p.text)
    (hopens : Opens w.disk p) (hsome : calls ≠ [])
    (hheader : Held w.disk.medium (header.map String.toList))
    (hfits : ∀ c ∈ calls, c.Fits w.disk.medium header) :
    ∃ w' text, (calls.forM fun c => c.perform p header).run.run w = (.ok (), w') ∧
      w'.disk.text? p.text = some text ∧
      Csv.parse text = header.map String.toList :: calls.map fun c => record header c.values := by
  cases calls with
  | nil => exact absurd rfl hsome
  | cons c calls =>
    obtain ⟨hc, hfits⟩ := List.forall_mem_cons.1 hfits
    obtain ⟨w₀, hdisk, hperform⟩ := run_perform (w := w) (p := p) hc.about
    rw [← hdisk] at hfresh hopens hheader hc hfits
    obtain ⟨d₀, d₁, f₀, hmade, hopened, hkept, hf₀, hempty⟩ := hopens.opens
    obtain ⟨w₁, hrun, h₁⟩ :=
      run_append_of_opened hopens.plain hfresh hmade hopened hkept hf₀ hheader hc.held
    rw [hempty, List.nil_append] at h₁
    have hbegun : Text.encode (Csv.row (header.map String.toList) ++
        Csv.row (record header c.values)) ≠ [] := by
      rw [Text.encode_append]
      exact List.append_ne_nil_of_left_ne_nil (encode_row_ne_nil _) _
    obtain ⟨w', hcalls, h'⟩ := h₁.run_calls hbegun hheader hfits
    obtain ⟨f, hf, hbytes⟩ := h'.file
    have hread := Csv.parse_flatMap_row
      (header.map String.toList :: (c :: calls).map fun c => record header c.values)
    refine ⟨w', _, (run_bind_eq (hperform.trans hrun) _).trans hcalls, ?_, hread⟩
    unfold Disk.text?
    rw [hf, Option.bind_some, hbytes, Text.decode_encode]
    simp [Except.toOption]

/-- Two calls, with commas, quotes and line breaks in their values, a value that is missing, and one
that has no column. -/
def someCalls : List Call :=
  [.row [("path", some "a,\"b\"\r\nc"), ("status", none), ("more", some "x")],
    .cleaned (.int 1700000000) "d.js" 3 false "\"\n"]

theorem locate_bareWorld :
    Store.bareWorld.disk.locate true "/r.csv" = .ok (.vacant [] "r.csv") := by
  rw [Disk.locate_of_names ["r.csv"] (by decide +kernel)]
  exact Disk.locateFrom_vacant (by decide) (by decide +kernel) rfl

/-- `rows_after_calls` at these calls, in a tree without files. -/
theorem rows_of_someCalls : ∃ w' text,
    (someCalls.forM fun c => c.perform ⟨"/", ["r.csv"]⟩ cleanColumns).run.run Store.bareWorld =
      (.ok (), w') ∧ w'.disk.text? "/r.csv" = some text ∧
    Csv.parse text =
      [["timestamp_utc".toList, "path".toList, "calls_before".toList, "status".toList,
          "error".toList],
        [[], "a,\"b\"\r\nc".toList, [], [], []],
        ["2023-11-14T22:13:20+00:00".toList, "d.js".toList, "3".toList, "failed".toList,
          "\"\n".toList]] := by
  have hfresh : Fresh Store.bareWorld.disk "/r.csv" := by
    unfold Fresh Disk.stat
    rw [locate_bareWorld]
    exact .inl rfl
  have hopens : Opens Store.bareWorld.disk ⟨"/", ["r.csv"]⟩ :=
    opens_of_vacant (by decide) (Disk.stat_slash _) locate_bareWorld rfl
      fun _ _ => List.not_mem_nil
  have hheld : ∀ texts, Held Store.bareWorld.disk.medium texts := fun _ => held_of_strays rfl
  have hfits : ∀ c ∈ someCalls, c.Fits Store.bareWorld.disk.medium cleanColumns := by
    simp only [someCalls, List.forall_mem_cons]
    exact ⟨⟨trivial, hheld _⟩, ⟨⟨rfl, _, rfl⟩, hheld _⟩, List.forall_mem_nil _⟩
  exact rows_after_calls hfresh hopens (by simp [someCalls]) (hheld _) hfits

/-- A tree with a file of one row. -/
def oneRow : World :=
  { Store.bareWorld with
    disk := ⟨[(["f"], .file (Text.encode "x\r\n".toList) (.at 0))], ⟨[], 0⟩, [], 0, {}⟩ }

theorem locate_oneRow_file (follow : Bool) :
    oneRow.disk.locate follow "/f" =
      .ok (.node ["f"] (.file (Text.encode "x\r\n".toList) (.at 0))) := by
  rw [Disk.locate_of_names ["f"] (by decide +kernel)]
  exact Disk.locateFrom_file (by decide) (by decide +kernel) rfl

theorem fresh_below_file : Fresh oneRow.disk "/f/r.csv" := by
  have hlocate : oneRow.disk.locate true "/f/r.csv" = .error .notDirectory := by
    rw [Disk.locate_of_names ["f", "r.csv"] (by decide +kernel), Disk.locateFrom,
      if_neg (by decide), if_neg (by decide), if_neg (by decide), if_neg (by decide +kernel)]
    rfl
  unfold Fresh Disk.stat
  rw [hlocate]
  exact .inr (.inl rfl)

theorem fresh_roundabout : Fresh oneRow.disk "/new/../f" := by
  have hstat : oneRow.disk.stat "/new/../f" = .error .missing :=
    Disk.stat_eq_missing (n := "new") (r := ["..", "f"]) (by decide) (by decide) (by decide +kernel)
      (by decide) (by decide +kernel) rfl
  unfold Fresh
  rw [hstat]
  exact .inl rfl

theorem fresh_device : Fresh Store.deviceWorld.disk "/null" := by
  unfold Fresh
  rw [stat_of_file? Store.file?_deviceWorld]

/-- The tree with the directory on the roundabout way to its file. -/
def withDir : Disk :=
  oneRow.disk.setNode ["new"] .dir

/-- From the new directory, a path goes back up to the root. -/
theorem locate_roundabout (names : List String) {follow : Bool} {path : String}
    (h : Path.isAbsolute path = true ∧ Text.byteLength path ≤ Disk.pathLimit ∧
      Text.splitAt '/' path = "" :: "new" :: ".." :: names) :
    withDir.locate follow path = withDir.locateFrom follow Disk.linkLimit ⟨[], 0⟩ names := by
  rw [Disk.locate_of_names ("new" :: ".." :: names) h,
    Disk.locateFrom_dir (by decide) (by decide +kernel) rfl, Disk.locateFrom, if_neg (by decide),
    if_pos rfl]
  rfl

theorem stat_roundabout : withDir.stat "/new/.." = .ok .dir := by
  unfold Disk.stat
  rw [locate_roundabout [] (by decide +kernel), Disk.locateFrom]
  rfl

/-- The directory on the way is made, and the one above it is there. -/
theorem makeDirs_roundabout : oneRow.disk.makeDirs "/" ["new", ".."] = (withDir, none) := by
  have htext : (Path.mk "/" ["new", ".."]).text = "/new/.." := rfl
  have hmissing : oneRow.disk.makeDir "/new/.." = .error .missing := by
    unfold Disk.makeDir
    rw [Disk.locate_of_names ["new", ".."] (by decide +kernel), Disk.locateFrom,
      if_neg (by decide), if_neg (by decide), if_neg (by decide), if_neg (by decide +kernel)]
    rfl
  have hfree : oneRow.disk.locate false (Path.mk "/" ["new"]).text = .ok (.vacant [] "new") := by
    rw [Disk.locate_of_names ["new"] (by decide +kernel)]
    exact Disk.locateFrom_vacant (by decide) (by decide +kernel) rfl
  have hfirst : oneRow.disk.makeDirs "/" ["new"] = (withDir, none) :=
    Disk.makeDirs_of_vacant hfree rfl
  have hthere : withDir.isDir "/new/.." = true := by
    unfold Disk.isDir
    rw [stat_roundabout]
  rw [Disk.makeDirs]
  simp only [htext, hmissing, List.dropLast, hfirst, Disk.makeDir_of_stat stat_roundabout, hthere]
  rfl

theorem outcome_append_below_file :
    (append ⟨"/", ["f", "r.csv"]⟩ (rowJson [("a", some "1")]) (some (columns ["a"]))).outcome
      oneRow = .error (.os .exists "/f") := by
  have hdir : oneRow.disk.isDir "/f" = false := by
    unfold Disk.isDir Disk.stat
    rw [locate_oneRow_file]
  have hmade : oneRow.disk.makeDirs "/" ["f"] = (oneRow.disk, some (.exists, "/f")) :=
    Disk.makeDirs_of_file (locate_oneRow_file false) hdir
  have hcontent := run_hasContent_of_fresh (w := oneRow) (p := ⟨"/", ["f", "r.csv"]⟩) (by decide)
    fresh_below_file
  have hrefused := run_makeDirs_of_refused (w := oneRow) (p := ⟨"/", ["f"]⟩) (by decide) hmade
  unfold outcome
  rw [rowJson, append_obj rfl, run_bind_eq hcontent]
  exact congrArg Prod.fst (run_bind_fault hrefused _)

theorem exists_run_append_roundabout : ∃ w' text,
    (append ⟨"/", ["new", "..", "f"]⟩ (rowJson [("a", some "1")]) (some (columns ["a"]))).run.run
      oneRow = (.ok (), w') ∧ w'.disk.text? "/new/../f" = some text ∧
    Csv.parse text = [["x".toList], ["a".toList], ["1".toList]] := by
  have hfile : withDir.file? "/new/../f" =
      some ⟨["f"], Text.encode "x\r\n".toList, .at 0⟩ := by
    rw [Disk.file?_eq_some, locate_roundabout ["f"] (by decide +kernel)]
    exact Disk.locateFrom_file (by decide) (by decide +kernel) rfl
  obtain ⟨f, hf, hbytes⟩ := Disk.file?_putFile hfile (Text.encode "x\r\n".toList ++ [])
  have hheld : ∀ texts, Held oneRow.disk.medium texts := fun _ => held_of_strays rfl
  obtain ⟨w', hrun, h⟩ := run_append_of_opened (w := oneRow) (p := ⟨"/", ["new", "..", "f"]⟩)
    (by decide) fresh_roundabout makeDirs_roundabout
    (Disk.update_eq_putFile hfile rfl (.inr List.not_mem_nil)) (fun _ _ => List.not_mem_nil) hf
    (hheld (["a"].map String.toList)) (hheld (record ["a"] [("a", some "1")]))
  obtain ⟨f', hf', hbytes'⟩ := h.file
  have htext : f'.bytes =
      Text.encode ([["x".toList], ["a".toList], ["1".toList]].flatMap Csv.row) := by
    rw [hbytes', hbytes]
    rfl
  refine ⟨w', [["x".toList], ["a".toList], ["1".toList]].flatMap Csv.row, hrun, ?_,
    Csv.parse_flatMap_row _⟩
  unfold Disk.text?
  rw [show "/new/../f" = (Path.mk "/" ["new", "..", "f"]).text from rfl, hf', Option.bind_some,
    htext, Text.decode_encode]
  rfl

/-- A device has nothing in it, whatever is written to it. -/
theorem run_append_device (values : List (String × Option String)) :
    (append ⟨"/", ["null"]⟩ (rowJson values) (some (columns ["a"]))).run.run Store.deviceWorld =
      (.ok (), Store.deviceWorld) := by
  have htaken : ∀ text, (appendText "/null" text).run.run Store.deviceWorld =
      (.ok (), Store.deviceWorld) := fun text =>
    run_appendText_of_append (by decide)
      (Disk.update_of_sink Store.file?_deviceWorld rfl rfl List.mem_cons_self)
  have hheld : ∀ texts, Held Store.deviceWorld.disk.medium texts := fun _ => held_of_strays rfl
  rw [run_append_of_held (hheld _) (hheld _)
    (run_hasContent_of_fresh (p := ⟨"/", ["null"]⟩) (by decide) fresh_device)
    (run_makeDirs (by decide) (Disk.stat_slash _)) (htaken [])]
  exact htaken _

/-- Reports that are absent or empty at first. One of them cannot be opened, since a file stands
where its directory should be. The second one has a name that leads, by way of a directory that is
made first, to a file with a row in it, which comes before the header. The third is a device, and
stays empty. Without any call there is no header. -/
theorem reports_without_leading_header :
    (Fresh oneRow.disk "/f/r.csv" ∧
      (append ⟨"/", ["f", "r.csv"]⟩ (rowJson [("a", some "1")]) (some (columns ["a"]))).outcome
        oneRow = .error (.os .exists "/f")) ∧
    (Fresh oneRow.disk "/new/../f" ∧ ∃ w' text,
      (append ⟨"/", ["new", "..", "f"]⟩ (rowJson [("a", some "1")]) (some (columns ["a"]))).run.run
        oneRow = (.ok (), w') ∧ w'.disk.text? "/new/../f" = some text ∧
      Csv.parse text = [["x".toList], ["a".toList], ["1".toList]]) ∧
    (Fresh Store.deviceWorld.disk "/null" ∧ ∃ w',
      (append ⟨"/", ["null"]⟩ (rowJson [("a", some "1")]) (some (columns ["a"]))).run.run
        Store.deviceWorld = (.ok (), w') ∧ w'.disk.text? "/null" = some []) ∧
    (([] : List Call).forM fun c => c.perform ⟨"/", ["r.csv"]⟩ ["a"]).run.run Store.bareWorld =
        (.ok (), Store.bareWorld) ∧
      Store.bareWorld.disk.text? "/r.csv" = none := by
  refine ⟨⟨fresh_below_file, outcome_append_below_file⟩,
    ⟨fresh_roundabout, exists_run_append_roundabout⟩,
    ⟨fresh_device, Store.deviceWorld, run_append_device _, ?_⟩, rfl, ?_⟩
  · unfold Disk.text?
    rw [Store.file?_deviceWorld]
    rfl
  · unfold Disk.text? Disk.file?
    rw [locate_bareWorld]
    rfl

end Report

end ConsoleSweep
