/-
  What a scan finds.

  The files below a root are those of the walk, whatever links there are on the way. A scan
  reads each of them once and writes none of them, so its results are a function of the tree
  (`run_scan_of_closed`): a path is recorded with the number of calls in its text, if it leads
  to a text with calls (`mem_recorded`), and the sums of the counters grow as the tally does
  (`GoesOn`). `run_scan` says this of a tree without open files.
-/
import Mathlib
import ConsoleSweep.Proofs.Counters
import ConsoleSweep.Proofs.Disk.Walk
import ConsoleSweep.Proofs.Store
import ConsoleSweep.Scan

namespace ConsoleSweep.Scan

open Sweep Disk

variable {w w' : World} {root top path : String} {endings ignored methods : List String}
  {progress : Nat → Sweep Unit}

/-! ## The files below a root -/

theorem isAbsolute_of_absolute (h : (Sweep.absolute root).outcome w = .ok top) :
    Path.isAbsolute top = true := by
  unfold Sweep.absolute at h
  split at h
  · next ha =>
    rw [← Except.ok.inj h]
    exact Path.isAbsolute_normalize ha
  · next ha =>
    obtain ⟨here, hc, h⟩ := outcome_bind_eq_ok h
    have hhere : Path.isAbsolute here = true := by
      rw [outcome_cwd] at hc
      split at hc
      · rw [← Except.ok.inj hc]
        simp [Path.isAbsolute, Place.text]
      · simp at hc
    rw [← Except.ok.inj h, Path.absolute, if_neg ha]
    refine Path.isAbsolute_normalize (Path.isAbsolute_join hhere ?_)
    simpa using ha

/-- A path that leads to a directory of a proper tree has no NUL in it. -/
theorem nul_not_mem_of_shows {v : Visit} (hd : w.disk.Proper) (hs : w.disk.Shows v) :
    '\x00' ∉ v.shown.toList := by
  intro hmem
  obtain ⟨piece, hpiece, hnul⟩ := Text.mem_pieces_of_mem '/' hmem (by decide)
  have hparts := hd.nul_not_mem_of_locateFrom (locateFrom_of_locate hs.absolute hs.leads)
  refine hparts (String.ofList piece) (List.mem_map_of_mem hpiece) ?_
  rwa [String.toList_ofList]

theorem run_sources_of_ok {files : List String} (ha : (Sweep.absolute root).outcome w = .ok top)
    (hn : '\x00' ∉ top.toList) (hs : w.disk.sources endings ignored top = .ok files) :
    (sources root endings ignored).run.run w = (.ok files, w) := by
  unfold sources
  rw [run_bind_eq (run_absolute ha), run_bind_eq (run_checkPath hn w), run_bind_eq (run_world w),
    hs]
  rfl

/-- The walk below a root that is a directory ends whatever links there are. It enters the
directories that can be reached by names that are not ignored, each once, and yields their wanted
entries, each once and under a path of its own. No limit of the operating system on links or
lengths is in the way (`Free`). -/
theorem sources_of_tree (endings ignored : List String) {r : Place} (hd : w.disk.Proper)
    (ha : (Sweep.absolute root).outcome w = .ok top)
    (hr : w.disk.locate true top = .ok (.node r .dir))
    (hf : ∀ visits, w.disk.walk ignored top = .ok visits → w.disk.Free visits) :
    ∃ visits, w.disk.walk ignored top = .ok visits ∧ (visits.map (·.place)).Nodup ∧
      (∀ q, q ∈ visits.map (·.place) ↔ w.disk.Reachable ignored r q) ∧
      (∀ v ∈ visits, w.disk.locate true v.shown = .ok (.node v.place .dir)) ∧
      ∃ found : List (Visit × String),
        (∀ v name, (v, name) ∈ found ↔
          v ∈ visits ∧ w.disk.Wanted endings ignored v.place name) ∧
        (found.map fun y => (y.1.place, y.2)).Nodup ∧
        (sources root endings ignored).outcome w = .ok (found.map yieldPath) ∧
        (found.map yieldPath).Nodup := by
  have htop : w.disk.Shows ⟨top, r⟩ := ⟨isAbsolute_of_absolute ha, hr⟩
  have hw := walk_eq ignored htop
  have hfree := hf _ hw
  obtain ⟨hnodup, hshows, hreach⟩ := walk_places hd htop hw hfree
  obtain ⟨honce, hpaths⟩ := walk_yields endings hd htop hw hfree
  refine ⟨_, hw, hnodup, hreach, fun v hv => (hshows v hv).leads, _,
    fun v name => mem_yields hd hshows hfree, honce, ?_, hpaths⟩
  have hrun := run_sources_of_ok ha (nul_not_mem_of_shows hd htop)
    (sources_eq endings hw)
  exact congrArg Prod.fst hrun

/-- A directory with a link to the one above it, a second link to the directory, and a link that
leads nowhere. -/
def knot : World :=
  { disk := ⟨[(["a"], .dir), (["b"], .link "a"), (["c.js"], .link "z"),
      (["a", "up"], .link ".."), (["a", "x.js"], .file [] (.at 0))], ⟨[], 0⟩, [], 0, {}⟩
    env := [], homes := [], now := .int 0, logTime := .int 0, logging := {}
    journal := [], metrics := none, out := "", err := "", input := [] }

theorem names_knot : knot.disk.names [] = ["a", "b", "c.js"] ∧
    knot.disk.names ["a"] = ["up", "x.js"] := by
  constructor
  · exact List.mergeSort_of_pairwise (l := ["a", "b", "c.js"]) (by decide)
  · exact List.mergeSort_of_pairwise (l := ["up", "x.js"]) (by decide)

/-- Each directory is entered once, under the path by which it is met first. -/
theorem walk_knot : knot.disk.walk [] "/" = .ok [⟨"/", []⟩, ⟨"/a", ["a"]⟩] := by
  have ha : knot.disk.entryDir? ⟨"/", []⟩ "a" = some ["a"] := by cbv
  have hb : knot.disk.entryDir? ⟨"/", []⟩ "b" = some ["a"] := by cbv
  have hc : knot.disk.entryDir? ⟨"/", []⟩ "c.js" = none := by cbv
  have hup : knot.disk.entryDir? ⟨"/a", ["a"]⟩ "up" = some [] := by cbv
  have hx : knot.disk.entryDir? ⟨"/a", ["a"]⟩ "x.js" = none := by cbv
  have hroot : knot.disk.nextVisits [] ⟨"/", []⟩ = [⟨"/a", ["a"]⟩, ⟨"/b", ["a"]⟩] := by
    simp only [nextVisits, names_knot.1, List.contains_nil, Bool.not_false, List.filter_cons,
      if_true, List.filter_nil, List.filterMap_cons, ha, hb, hc, Option.map_some,
      Option.map_none, List.filterMap_nil]
    decide
  have hbelow : knot.disk.nextVisits [] ⟨"/a", ["a"]⟩ = [⟨"/a/up", []⟩] := by
    simp only [nextVisits, names_knot.2, List.contains_nil, Bool.not_false, List.filter_cons,
      if_true, List.filter_nil, List.filterMap_cons, hup, hx, Option.map_some,
      Option.map_none, List.filterMap_nil]
    decide
  have hdirs : knot.disk.dirPlaces = [[], ["a"]] := by cbv
  rw [walk_eq [] (r := []) ⟨rfl, by cbv⟩, hdirs]
  simp [walkFrom, hroot, hbelow]

theorem free_knot (hd : knot.disk.Proper) : knot.disk.Free [⟨"/", []⟩, ⟨"/a", ["a"]⟩] := by
  have ha : knot.disk.Unlimited "/a" := unlimited_of_locate (.node ["a"] .dir) (by cbv)
  have hb : knot.disk.Unlimited "/b" := unlimited_of_locate (.node ["a"] .dir) (by cbv)
  have hc : knot.disk.Unlimited "/c.js" := unlimited_of_locate (.vacant [] "z") (by cbv)
  have hup : knot.disk.Unlimited "/a/up" := unlimited_of_locate (.node [] .dir) (by cbv)
  have hx : knot.disk.Unlimited "/a/x.js" :=
    unlimited_of_locate (.node ["a", "x.js"] (.file [] (.at 0))) (by cbv)
  intro v hv name hname
  rw [← mem_names hd] at hname
  simp only [List.mem_cons, List.not_mem_nil, or_false] at hv
  rcases hv with rfl | rfl
  · rw [names_knot.1] at hname
    simp only [List.mem_cons, List.not_mem_nil, or_false] at hname
    rcases hname with rfl | rfl | rfl
    · exact ha
    · exact hb
    · exact hc
  · rw [names_knot.2] at hname
    simp only [List.mem_cons, List.not_mem_nil, or_false] at hname
    rcases hname with rfl | rfl
    · exact hup
    · exact hx

/-- In the knot, two directories are reached, and the link that leads nowhere is one of the
files. -/
theorem sources_of_knot :
    (∀ q, q ∈ [[], ["a"]] ↔ knot.disk.Reachable [] [] q) ∧
      ∃ files, (sources "/" [".js"] []).outcome knot = .ok files ∧ files.Nodup ∧
        "/c.js" ∈ files := by
  have hd : knot.disk.Proper := by decide
  have ha : (Sweep.absolute "/").outcome knot = .ok "/" := by decide
  obtain ⟨visits, hw, -, hreach, -, found, hfound, -, hrun, hnodup⟩ :=
    sources_of_tree [".js"] [] hd ha (r := []) (by cbv)
      (fun visits hw => by
        rw [walk_knot] at hw
        exact Except.ok.inj hw ▸ free_knot hd)
  rw [walk_knot] at hw
  obtain rfl := Except.ok.inj hw
  have hwanted : knot.disk.Wanted [".js"] [] [] "c.js" := by
    have hshows : knot.disk.Shows ⟨"/", []⟩ := ⟨rfl, by cbv⟩
    have hnone : knot.disk.entryDir? ⟨"/", []⟩ "c.js" = none := by cbv
    refine ⟨by decide, by simp, by decide, fun q he => ?_⟩
    have hsome := (hshows.entryDir?_eq_some hd (free_knot hd _ List.mem_cons_self "c.js")).2 he
    rw [hnone] at hsome
    simp at hsome
  refine ⟨hreach, _, hrun, hnodup, ?_⟩
  exact List.mem_map.2 ⟨(⟨"/", []⟩, "c.js"), (hfound _ _).2 ⟨by simp, hwanted⟩, by decide⟩

/-! ## The results of a scan -/

variable {d : Disk} {settings : CleanerSettings} {files : List String}

/-- The number of calls in the text that a path leads to. -/
def calls? (d : Disk) (methods : List String) (path : String) : Option Nat :=
  (d.text? path).map (Call.count methods)

/-- A scan after one file more, as the tree has it. -/
def Tally.look (d : Disk) (methods : List String) (t : Tally) (path : String) : Tally :=
  match calls? d methods path with
  | some found =>
    { t with
      scanned := t.scanned + 1
      counts := if 0 < found then (path, found) :: t.counts else t.counts }
  | none => { t with scanned := t.scanned + 1, unreadable := path :: t.unreadable }

theorem run_countIn {text : List Char} (hn : '\x00' ∉ path.toList)
    (ht : w.disk.text? path = some text) :
    (countIn methods path).run.run w = (.ok (Call.count methods text), w) :=
  run_bind_eq (run_readText hn ht) _

theorem run_countIn_none (methods : List String) (hn : '\x00' ∉ path.toList)
    (ht : w.disk.text? path = none) :
    ∃ f, (countIn methods path).run.run w = (.error f, w) ∧ f.isFileTrouble = true := by
  obtain ⟨f, hr, hblocks⟩ := run_readText_none hn ht
  exact ⟨f, run_bind_fault hr _, hblocks.isFileTrouble⟩

/-- A path that leads to no text has no calls. -/
theorem outcome_countFile (hs : w.Sound) (hn : '\x00' ∉ path.toList) :
    (countFile methods path).outcome w = .ok ((calls? w.disk methods path).getD 0) := by
  have attempted := run_attempt (countIn methods path) w
  unfold calls?
  cases ht : w.disk.text? path with
  | some text =>
    rw [run_countIn hn ht] at attempted
    exact congrArg Prod.fst (run_bind_eq attempted _)
  | none =>
    obtain ⟨f, hr, hf⟩ := run_countIn_none methods hn ht
    rw [hr] at attempted
    obtain ⟨_, w₁, hr₁, -⟩ :=
      calm_log logger Log.debug ("Could not read " ++ path ++ ": " ++ f.message) w hs
    have hrun : (countFile methods path).run.run w = (.ok 0, w₁) := by
      unfold countFile
      rw [run_bind_eq attempted]
      dsimp only
      rw [if_pos hf]
      exact run_bind_eq hr₁ _
    exact congrArg Prod.fst hrun

/-! ## What a scan counts -/

/-- The names that a scan counts under. -/
def counters : List String :=
  ["scan.files", "scan.calls", "scan.unreadable"]

theorem unlogged_counters : Unlogged counters := by
  unfold Unlogged
  decide

/-- What a scan has counted under one of its names so far. -/
def Tally.counted (t : Tally) (name : String) : Int :=
  if name = "scan.files" then t.scanned - t.unreadable.length
  else if name = "scan.calls" then (t.counts.foldr (fun e n => e.2 + n) 0 : Nat)
  else t.unreadable.length

/-- What a file adds to the sum of a name. -/
def share (calls : Option Nat) (name : String) : Int :=
  match calls with
  | some found => Metrics.scannedShare found name
  | none => if name = "scan.unreadable" then 1 else 0

theorem counted_look {name : String} (hname : name ∈ counters) (t : Tally) :
    (t.look d methods path).counted name - t.counted name = share (calls? d methods path) name := by
  unfold Tally.look
  simp only [counters, List.mem_cons, List.not_mem_nil, or_false] at hname
  cases calls? d methods path with
  | some found =>
    by_cases hfound : 0 < found
    · rcases hname with rfl | rfl | rfl <;>
        simp [Tally.counted, share, Metrics.scannedShare, hfound]
    · have hzero : found = 0 := by omega
      rcases hname with rfl | rfl | rfl <;>
        simp [Tally.counted, share, Metrics.scannedShare, hzero]
  | none =>
    rcases hname with rfl | rfl | rfl <;> simp [Tally.counted, share]

/-- A scan goes on from one tally to another. It writes no file but those that are open, and the
sums of its names grow as the tally does, unless the reports on progress change them. -/
structure GoesOn (progress : Nat → Sweep Unit) (t t' : Tally) (w w' : World) : Prop where
  later : w.Later Nowhere w'
  grown : (∀ n, Spares counters (progress n)) → ∀ name ∈ counters,
    w'.total name = w.total name + .int (t'.counted name - t.counted name)

namespace GoesOn

variable {t t' t'' : Tally} {w'' : World}

theorem trans (hw : w.Sound) (h : GoesOn progress t t' w w') (h' : GoesOn progress t' t'' w' w'') :
    GoesOn progress t t'' w w'' := by
  refine ⟨h.later.trans h'.later, fun hp name hname => ?_⟩
  obtain ⟨n, hn⟩ := hw.exists_total name
  rw [h'.grown hp name hname, h.grown hp name hname, hn]
  exact congrArg Number.int (by omega)

/-- Work beside the scan. -/
theorem of_spares (hw : w.Sound) (hl : w.Later Nowhere w')
    (hs : (∀ n, Spares counters (progress n)) → ∀ name ∈ counters, w'.total name = w.total name) :
    GoesOn progress t t w w' := by
  refine ⟨hl, fun hp name hname => ?_⟩
  obtain ⟨n, hn⟩ := hw.exists_total name
  rw [hs hp name hname, hn]
  exact congrArg Number.int (by omega)

theorem refl (hw : w.Sound) : GoesOn progress t t w w :=
  .of_spares hw (.refl hw) fun _ _ _ => rfl

end GoesOn

/-! ## File by file -/

/-- The paths lead to no file that is open. -/
def Closed (d : Disk) (files : List String) : Prop :=
  ∀ path ∈ files, ∀ p, d.Targets path p → ¬ d.Open p

theorem closed_of_held (h : d.held = []) (files : List String) : Closed d files :=
  fun _ _ _ _ => Disk.not_open h

theorem Closed.later (h : Closed w.disk files) (hl : w.Later Nowhere w') :
    Closed w'.disk files := by
  intro path hpath p hp ho
  exact h path hpath p ((targets_iff_of_writes hl.disk).1 hp) (hl.disk.open_iff.1 ho)

/-- A path that leads to no open file leads to the same text. -/
theorem Closed.text?_eq (h : Closed w.disk files) (hl : w.Later Nowhere w') :
    ∀ path ∈ files, w'.disk.text? path = w.disk.text? path := by
  intro path hpath
  unfold text?
  rw [file?_of_writes hl.disk]
  intro p hp hA
  rcases hA with ho | hn
  · exact h path hpath p hp ho
  · exact hn

theorem look_congr {d' : Disk} (h : d'.text? path = d.text? path) (t : Tally) :
    t.look d' methods path = t.look d methods path := by
  unfold Tally.look calls?
  rw [h]

theorem foldl_look_congr {d' : Disk} (h : ∀ path ∈ files, d'.text? path = d.text? path)
    (t : Tally) :
    files.foldl (Tally.look d' methods) t = files.foldl (Tally.look d methods) t := by
  induction files generalizing t with
  | nil => rfl
  | cons path files ih =>
    obtain ⟨hpath, hrest⟩ := List.forall_mem_cons.1 h
    rw [List.foldl_cons, List.foldl_cons, look_congr hpath, ih hrest]

/-- The work on a file behind the report on progress. -/
def readFile (methods : List String) (t : Tally) (path : String) : Sweep Tally := do
  match ← Sweep.attempt (countIn methods path) with
  | .ok found =>
    Sweep.count fun m now => m.recordScanned now (.int found)
    return if 0 < found then { t with counts := (path, found) :: t.counts } else t
  | .error f =>
    if f.isFileTrouble then
      Sweep.log logger Log.debug ("Skipping " ++ path ++ ": " ++ f.message)
      Sweep.count fun m now => m.recordError now "scan.unreadable"
      return { t with unreadable := path :: t.unreadable }
    else Sweep.fail f

theorem run_readFile (methods : List String) (hw : w.Sound) (hn : '\x00' ∉ path.toList)
    (t : Tally) :
    ∃ w', (readFile methods { t with scanned := t.scanned + 1 } path).run.run w =
      (.ok (t.look w.disk methods path), w') ∧
        GoesOn progress t (t.look w.disk methods path) w w' := by
  have attempted := run_attempt (countIn methods path) w
  cases hc : calls? w.disk methods path with
  | some found =>
    obtain ⟨text, ht, hfound⟩ := Option.map_eq_some_iff.1 hc
    rw [run_countIn hn ht, hfound] at attempted
    obtain ⟨_, w₁, hr₁, h₁⟩ := calm_count (fun m now (h : m.Plain) =>
      h.recordScanned now found) w hw
    refine ⟨w₁, ?_, h₁, fun _ name hname => ?_⟩
    · unfold readFile Tally.look
      rw [run_bind_eq attempted, hc]
      refine (run_bind_eq hr₁ _).trans ?_
      dsimp only
      split <;> rfl
    · rw [counted_look hname, hc]
      exact total_of_recordScanned hw hr₁ name
  | none =>
    obtain ⟨f, hr, hf⟩ := run_countIn_none methods hn (Option.map_eq_none_iff.1 hc)
    rw [hr] at attempted
    obtain ⟨_, w₁, hr₁, h₁⟩ :=
      calm_log logger Log.debug ("Skipping " ++ path ++ ": " ++ f.message) w hw
    obtain ⟨_, w₂, hr₂, h₂⟩ := calm_record "scan.unreadable" false 1 w₁ h₁.sound
    refine ⟨w₂, ?_, h₁.trans h₂, fun _ name hname => ?_⟩
    · unfold readFile Tally.look
      rw [run_bind_eq attempted, hc]
      dsimp only
      rw [if_pos hf]
      exact (run_bind_eq hr₁ _).trans (run_bind_eq hr₂ _)
    · have hlog : w₁.total name = w.total name :=
        (spares_log unlogged_counters logger Log.debug _).total_eq hr₁ hname
      rw [counted_look hname, hc, total_of_record h₁.sound hr₂ name, hlog]
      rfl

/-- One file is looked at. -/
theorem run_scanFile (methods : List String) (hw : w.Sound) (hp : ∀ n, Calm (progress n))
    (hn : '\x00' ∉ path.toList) (hc : Closed w.disk [path]) (t : Tally) :
    ∃ w', (scanFile methods progress t path).run.run w =
      (.ok (t.look w.disk methods path), w') ∧
        GoesOn progress t (t.look w.disk methods path) w w' := by
  unfold scanFile
  dsimp only
  split
  · obtain ⟨_, w₁, hr₁, h₁⟩ := hp (t.scanned + 1) w hw
    obtain ⟨w₂, hr₂, h₂⟩ := run_readFile methods h₁.sound hn t
    rw [look_congr (hc.text?_eq h₁ path List.mem_cons_self)] at hr₂ h₂
    have hreport : GoesOn progress t t w w₁ :=
      .of_spares hw h₁ fun hs name hname => (hs (t.scanned + 1)).total_eq hr₁ hname
    exact ⟨w₂, (run_bind_eq hr₁ _).trans hr₂, hreport.trans hw h₂⟩
  · exact run_readFile methods hw hn t

/-- The files are looked at one after the other. -/
theorem run_scanFiles (methods : List String) (hw : w.Sound) (hp : ∀ n, Calm (progress n))
    (hn : ∀ path ∈ files, '\x00' ∉ path.toList) (hc : Closed w.disk files) (t : Tally) :
    ∃ w', (files.foldlM (scanFile methods progress) t).run.run w =
      (.ok (files.foldl (Tally.look w.disk methods) t), w') ∧
        GoesOn progress t (files.foldl (Tally.look w.disk methods) t) w w' := by
  induction files generalizing w t with
  | nil => exact ⟨w, rfl, .refl hw⟩
  | cons path files ih =>
    obtain ⟨hpath, hrest⟩ := List.forall_mem_cons.1 hn
    obtain ⟨hfirst, hmore⟩ := List.forall_mem_cons.1 hc
    obtain ⟨w₁, hr₁, h₁⟩ :=
      run_scanFile methods hw hp hpath (List.forall_mem_singleton.2 hfirst) t
    have hmore : Closed w.disk files := hmore
    obtain ⟨w₂, hr₂, h₂⟩ := ih h₁.later.sound hrest (hmore.later h₁.later)
      (t.look w.disk methods path)
    rw [foldl_look_congr (hmore.text?_eq h₁.later)] at hr₂ h₂
    rw [List.foldlM_cons, List.foldl_cons]
    exact ⟨w₂, (run_bind_eq hr₁ _).trans hr₂, h₁.trans hw h₂⟩

/-- What a scan of some files comes to. -/
def tallied (d : Disk) (methods files : List String) : Tally :=
  files.foldl (Tally.look d methods) {}

/-- The store of a scan of some files. -/
def recorded (d : Disk) (methods files : List String) : Store :=
  (files.foldl (Tally.look d methods) {}).store

theorem mem_counts {n : Nat} (t : Tally) :
    (path, n) ∈ (files.foldl (Tally.look d methods) t).counts ↔
      path ∈ files ∧ calls? d methods path = some n ∧ 0 < n ∨ (path, n) ∈ t.counts := by
  induction files generalizing t with
  | nil => simp
  | cons first files ih =>
    have hlook : (path, n) ∈ (t.look d methods first).counts ↔
        path = first ∧ calls? d methods path = some n ∧ 0 < n ∨ (path, n) ∈ t.counts := by
      unfold Tally.look
      cases hc : calls? d methods first with
      | none => grind
      | some found => grind
    rw [List.foldl_cons, ih, hlook, List.mem_cons]
    grind

theorem ordered_recorded (d : Disk) (methods files : List String) :
    (recorded d methods files).Ordered :=
  Store.ordered_ofCounts _

/-- A path is recorded with the number of its calls, if it was looked at and has any. -/
theorem mem_recorded {e : String × Int} : e ∈ (recorded d methods files).items ↔
    e.1 ∈ files ∧ ∃ n : Nat, calls? d methods e.1 = some n ∧ 0 < n ∧ e.2 = n := by
  have hmem : ∀ e : String × Int,
      e ∈ (files.foldl (Tally.look d methods) {}).counts.reverse.map
        (fun c => (c.1, (c.2 : Int))) ↔
      e.1 ∈ files ∧ ∃ n : Nat, calls? d methods e.1 = some n ∧ 0 < n ∧ e.2 = n := by
    rintro ⟨path, count⟩
    rw [List.mem_map]
    constructor
    · rintro ⟨⟨p, n⟩, hp, he⟩
      obtain ⟨rfl, rfl⟩ := Prod.mk.inj he
      rw [List.mem_reverse, mem_counts] at hp
      rcases hp with ⟨hp, hc, hn⟩ | hp
      · exact ⟨hp, n, hc, hn, rfl⟩
      · simp at hp
    · rintro ⟨hp, n, hc, hn, he⟩
      refine ⟨(path, n), ?_, Prod.ext rfl he.symm⟩
      rw [List.mem_reverse, mem_counts]
      exact .inl ⟨hp, hc, hn⟩
  have hrec : recorded d methods files =
      Store.ofCounts ((files.foldl (Tally.look d methods) {}).counts.reverse.map
        fun c => (c.1, (c.2 : Int))) := rfl
  rw [hrec, Store.mem_ofCounts, hmem]
  · constructor
    · exact And.left
    · rintro ⟨hp, n, hc, hn, he⟩
      exact ⟨⟨hp, n, hc, hn, he⟩, by omega⟩
  · intro a ha b hb hab
    obtain ⟨-, n, hc, -, ha⟩ := (hmem a).1 ha
    obtain ⟨-, m, hc', -, hb⟩ := (hmem b).1 hb
    rw [hab, hc'] at hc
    obtain rfl := Option.some.inj hc
    exact Prod.ext hab (ha.trans hb.symm)

/-! ## Scans -/

/-- The files below a path of normal form; a path that cannot be entered has none. -/
def listed (d : Disk) (settings : CleanerSettings) (top : String) : List String :=
  ((d.sources settings.endings settings.ignored top).toOption).getD []

theorem nul_not_mem_listed (settings : CleanerSettings) (hd : d.Proper) (ht : '\x00' ∉ top.toList) :
    ∀ path ∈ listed d settings top, '\x00' ∉ path.toList := by
  unfold listed
  cases hs : d.sources settings.endings settings.ignored top with
  | ok files => exact nul_not_mem_sources hd ht hs
  | error e => simp [Except.toOption]

/-- The files below a directory that leads to no other. -/
theorem listed_of_no_dirs {r : Place} (h : d.Shows ⟨top, r⟩) (hr : r ∈ d.dirPlaces)
    (hn : ∀ name ∈ d.names r, d.entryDir? ⟨top, r⟩ name = none) :
    listed d settings top = ((d.names r).filter fun name => !settings.ignored.contains name &&
      settings.endings.contains (Path.suffixOf name)).map (Path.join top) := by
  have hsource : (d.names r).filter (d.isSource settings.endings settings.ignored ⟨top, r⟩) =
      (d.names r).filter fun name => !settings.ignored.contains name &&
        settings.endings.contains (Path.suffixOf name) := by
    refine List.filter_congr fun name hname => ?_
    simp [isSource, hn name hname]
  unfold listed Disk.sources
  rw [walk_of_no_dirs h hr hn]
  simp only [Except.map, Except.toOption, Option.getD_some, List.flatMap_singleton, sourcesIn,
    hsource]

/-- The files below a root are asked for. -/
theorem run_sources_of_sound (settings : CleanerSettings) (hw : w.Sound)
    (ha : (Sweep.absolute root).outcome w = .ok top) (hn : '\x00' ∉ top.toList) :
    ∃ w', (sources root settings.endings settings.ignored).run.run w =
      (.ok (listed w.disk settings top), w') ∧ w.Later Nowhere w' ∧
        ∀ name ∈ counters, w'.total name = w.total name := by
  cases hs : w.disk.sources settings.endings settings.ignored top with
  | ok files =>
    have hl : listed w.disk settings top = files := by
      unfold listed
      rw [hs]
      rfl
    rw [hl]
    exact ⟨w, run_sources_of_ok ha hn hs, .refl hw, fun _ _ => rfl⟩
  | error e =>
    have hl : listed w.disk settings top = [] := by
      unfold listed
      rw [hs]
      rfl
    obtain ⟨_, w₁, hr₁, h₁⟩ := calm_log logger Log.debug
      ("Skipping unreadable directory: " ++ e.message top) w hw
    refine ⟨w₁, ?_, h₁, fun name hname =>
      (spares_log unlogged_counters logger Log.debug _).total_eq hr₁ hname⟩
    unfold sources
    rw [run_bind_eq (run_absolute ha), run_bind_eq (run_checkPath hn w),
      run_bind_eq (run_world w), hs, hl]
    exact run_bind_eq hr₁ _

theorem run_sources (settings : CleanerSettings) (hw : w.Quiet)
    (ha : (Sweep.absolute root).outcome w = .ok top) (hn : '\x00' ∉ top.toList) :
    ∃ w', (sources root settings.endings settings.ignored).run.run w =
      (.ok (listed w.disk settings top), w') ∧ w.Still w' := by
  obtain ⟨w', hr, h, -⟩ := run_sources_of_sound settings hw.sound ha hn
  exact ⟨w', hr, h.still hw⟩

/-- A scan of a directory, whose path is real and of normal form, if none of the files is open. -/
theorem run_scan_of_closed (settings : CleanerSettings) {real : Path} (hw : w.Sound)
    (hd : w.disk.Proper) (hp : ∀ n, Calm (progress n))
    (hreal : (Sweep.resolve (Path.ofString root)).run.run w = (.ok real, w))
    (hdir : (Sweep.isDirectory real.text).run.run w = (.ok true, w))
    (ha : (Sweep.absolute real.text).outcome w = .ok top) (hn : '\x00' ∉ top.toList)
    (hc : Closed w.disk (listed w.disk settings top)) :
    ∃ w', (run root settings progress).run.run w =
      (.ok ((tallied w.disk settings.methods (listed w.disk settings top)).store,
        (tallied w.disk settings.methods (listed w.disk settings top)).summary real.text), w') ∧
      GoesOn progress {} (tallied w.disk settings.methods (listed w.disk settings top)) w w' := by
  obtain ⟨m, w₁, hr₁, -, h₁⟩ := run_metrics hw
  have hdisk : w₁.disk = w.disk := disk_of_metrics hr₁
  obtain ⟨w₂, hr₂, h₂, ht₂⟩ := run_sources_of_sound settings h₁.sound
    ((outcome_absolute_of_disk hdisk real.text).trans ha) hn
  rw [hdisk] at hr₂
  have h₁₂ := h₁.trans h₂
  obtain ⟨w₃, hr₃, h₃⟩ := run_scanFiles settings.methods h₂.sound hp
    (nul_not_mem_listed settings hd hn) (hc.later h₁₂) {}
  rw [foldl_look_congr (hc.text?_eq h₁₂)] at hr₃ h₃
  have hstart : GoesOn progress {} {} w w₂ := .of_spares hw h₁₂ fun _ name hname =>
    (ht₂ name hname).trans (spares_metrics.total_eq hr₁ hname)
  generalize ht : tallied w.disk settings.methods (listed w.disk settings top) = t
  rw [tallied] at ht
  rw [ht] at hr₃ h₃
  obtain ⟨_, w₄, hr₄, h₄⟩ := calm_log logger Log.info
    ("Scanned " ++ Text.ofNat (t.summary real.text).filesScanned ++ " file(s) under " ++
      real.text ++ ": " ++ Text.ofNat (t.summary real.text).totalCalls ++ " console call(s) in " ++
      Text.ofNat (t.summary real.text).filesWithCalls ++ " file(s)") w₃ h₃.later.sound
  have hend : GoesOn progress t t w₃ w₄ := .of_spares h₃.later.sound h₄ fun _ name hname =>
    (spares_log unlogged_counters logger Log.info _).total_eq hr₄ hname
  refine ⟨w₄, ?_, (hstart.trans hw h₃).trans hw hend⟩
  unfold run
  rw [run_bind_eq hreal]
  dsimp only
  rw [run_bind_eq hdir]
  refine (run_bind_eq hr₁ _).trans ?_
  refine (run_bind_eq hr₂ _).trans ?_
  exact (run_bind_eq hr₃ _).trans (run_bind_eq hr₄ _)

theorem run_scan (settings : CleanerSettings) {real : Path} (hw : w.Quiet) (hd : w.disk.Proper)
    (hp : ∀ n, Calm (progress n))
    (hreal : (Sweep.resolve (Path.ofString root)).run.run w = (.ok real, w))
    (hdir : (Sweep.isDirectory real.text).run.run w = (.ok true, w))
    (ha : (Sweep.absolute real.text).outcome w = .ok top) (hn : '\x00' ∉ top.toList) :
    ∃ summary w', (run root settings progress).run.run w =
      (.ok (recorded w.disk settings.methods (listed w.disk settings top), summary), w') ∧
        w.Still w' := by
  obtain ⟨w', hr, h⟩ := run_scan_of_closed settings hw.sound hd hp hreal hdir ha hn
    (closed_of_held hw.closed _)
  exact ⟨_, w', hr, h.later.still hw⟩

theorem absolute_of_sources (h : (sources root endings ignored).outcome w = .ok files) :
    ∃ top, (Sweep.absolute root).outcome w = .ok top ∧ '\x00' ∉ top.toList := by
  obtain ⟨top, ha, h⟩ := outcome_bind_eq_ok h
  obtain ⟨u, hc, -⟩ := outcome_bind_eq_ok h
  exact ⟨top, ha, nul_not_mem_of_checkPath hc⟩

/-- What a scan that came to an end has recorded. -/
theorem recorded_of_run {s : Store} {summary : ScanSummary} (hw : w.Quiet) (hd : w.disk.Proper)
    (hp : ∀ n, Calm (progress n))
    (h : (run root settings progress).run.run w = (.ok (s, summary), w')) :
    ∃ real top, (Sweep.resolve (Path.ofString root)).outcome w = .ok real ∧
      (Sweep.isDirectory real.text).outcome w = .ok true ∧
      (Sweep.absolute real.text).outcome w = .ok top ∧ '\x00' ∉ top.toList ∧
      s = recorded w.disk settings.methods (listed w.disk settings top) ∧ w.Still w' := by
  have ho : (run root settings progress).outcome w = .ok (s, summary) := congrArg Prod.fst h
  obtain ⟨real, hreal, ho⟩ := outcome_bind_eq_ok ho
  have hafter : (Sweep.resolve (Path.ofString root)).after w = w :=
    congrArg Prod.snd (run_resolve hreal)
  rw [hafter] at ho
  obtain ⟨b, hdir, ho⟩ := outcome_bind_eq_ok ho
  rw [after_isDirectory] at ho
  cases b with
  | false => cases ho
  | true =>
    obtain ⟨m, hm, ho⟩ := outcome_bind_eq_ok ho
    obtain ⟨files, hfiles, -⟩ := outcome_bind_eq_ok ho
    obtain ⟨_, w₁, hr₁, h₁⟩ := calm_metrics.still hw
    have hmetrics : Sweep.metrics.after w = w₁ := congrArg Prod.snd hr₁
    rw [hmetrics] at hfiles
    obtain ⟨top, ha, hn⟩ := absolute_of_sources hfiles
    rw [outcome_absolute_of_disk h₁.disk] at ha
    obtain ⟨summary', w₂, hr₂, h₂⟩ := run_scan settings hw hd hp (run_resolve hreal)
      (run_isDirectory hdir) ha hn
    rw [hr₂] at h
    obtain ⟨hres, rfl⟩ := Prod.mk.inj h
    exact ⟨real, top, hreal, hdir, ha, hn, (Prod.mk.inj (Except.ok.inj hres)).1.symm, h₂⟩

/-! ## A file beside another -/

/-- The bytes of a text with one call. -/
def oneCall : Text.Bytes :=
  Text.encode "console.log();".toList

/-- A file with a call at the root, and what stands beside it. -/
def beside (n : Node) : World :=
  { disk := ⟨[(["a.js"], .file oneCall (.at 0)), (["b.js"], n)], ⟨[], 0⟩, [], 0, {}⟩
    env := [], homes := [], now := .int 0, logTime := .int 0, logging := {}
    journal := [], metrics := none, out := "", err := "", input := [] }

/-- Settings for one method, and for files with one ending. -/
def logOnly : CleanerSettings :=
  { methods := ["log"], endings := [".js"], ignored := [] }

/-- The store with one call under each path. -/
def bothPaths : Store := ⟨[("/a.js", 1), ("/b.js", 1)]⟩

theorem decode_oneCall : Text.decode oneCall = .ok "console.log();".toList := by
  decide +kernel

theorem text?_of_oneCall {f : File} (h : d.file? path = some f) (hb : f.bytes = oneCall) :
    d.text? path = some "console.log();".toList := by
  unfold text?
  rw [h, Option.bind_some, hb, decode_oneCall]
  rfl

theorem calls?_of_oneCall {f : File} (h : d.file? path = some f) (hb : f.bytes = oneCall) :
    calls? d logOnly.methods path = some 1 := by
  have hone : Call.count logOnly.methods "console.log();".toList = 1 := by decide +kernel
  unfold calls?
  rw [text?_of_oneCall h hb, Option.map_some, hone]

theorem quiet_beside (n : Node) : (beside n).Quiet :=
  ⟨by rintro m ⟨⟩, rfl⟩

theorem listed_beside {n : Node}
    (he : ∀ name ∈ ["a.js", "b.js"], (beside n).disk.entryDir? ⟨"/", []⟩ name = none) :
    listed (beside n).disk logOnly "/" = ["/a.js", "/b.js"] := by
  have hnames : (beside n).disk.names [] = ["a.js", "b.js"] :=
    List.mergeSort_of_pairwise (l := ["a.js", "b.js"]) (by decide)
  rw [listed_of_no_dirs (r := []) ⟨rfl, by cbv⟩ List.mem_cons_self (by rwa [hnames]), hnames]
  decide

/-- A scan finds the call under both paths, if both lead to it. -/
theorem run_scan_beside {n : Node} {f g : File} (hd : (beside n).disk.Proper)
    (ha : (beside n).disk.file? "/a.js" = some f) (hb : (beside n).disk.file? "/b.js" = some g)
    (hf : f.bytes = oneCall) (hg : g.bytes = oneCall)
    (he : ∀ name ∈ ["a.js", "b.js"], (beside n).disk.entryDir? ⟨"/", []⟩ name = none) :
    ∃ summary w, (run "/" logOnly fun _ => pure ()).run.run (beside n) =
      (.ok (bothPaths, summary), w) ∧ (beside n).Still w := by
  have hreal : (Sweep.resolve (Path.ofString "/")).outcome (beside n) = .ok ⟨"/", []⟩ := by
    cases n <;> cbv
  have hdir : (Sweep.isDirectory "/").outcome (beside n) = .ok true := by cbv
  have ha' : (Sweep.absolute "/").outcome (beside n) = .ok "/" := rfl
  obtain ⟨summary, w, hr, hw⟩ := run_scan logOnly (quiet_beside n) hd (fun _ => calm_pure ())
    (run_resolve hreal) (run_isDirectory hdir) ha' (by decide)
  have hstore : recorded (beside n).disk logOnly.methods ["/a.js", "/b.js"] = bothPaths := by
    simp only [recorded, List.foldl_cons, List.foldl_nil, Tally.look, calls?_of_oneCall ha hf,
      calls?_of_oneCall hb hg]
    decide
  rw [listed_beside he, hstore] at hr
  exact ⟨summary, w, hr, hw⟩

/-- Two files with a call each. -/
def twins : World :=
  beside (.file oneCall (.at 0))

theorem file?_twins : twins.disk.file? "/a.js" = some ⟨["a.js"], oneCall, .at 0⟩ ∧
    twins.disk.file? "/b.js" = some ⟨["b.js"], oneCall, .at 0⟩ := by
  constructor <;> cbv

theorem entryDir?_twins :
    ∀ name ∈ ["a.js", "b.js"], twins.disk.entryDir? ⟨"/", []⟩ name = none := by
  intro name hname
  rcases List.mem_pair.1 hname with rfl | rfl <;> cbv

end ConsoleSweep.Scan
