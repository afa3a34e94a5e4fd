/-
  What a scan reports.

  One loop feeds the store, the summary and the counters. Its tally is read off the list of
  files at once (`tallied_eq`): the files with calls, in the order of the walk, and those
  that are no texts. The walk yields no path twice, so the store has one entry for each file
  with calls, and the summary and the sums of the counters agree with it (`Accounts`).

  A root is scanned if its real path can be found and is that of a directory; a file is no
  directory (`.noDirectory`), and a link that leads to itself has no real path at all.
-/
import Mathlib
import ConsoleSweep.Proofs.Scan

namespace ConsoleSweep.Scan

open Sweep Disk

variable {w w' : World} {d : Disk} {root top : String} {methods files : List String}
  {progress : Nat → Sweep Unit}

/-! ## The tally of some files -/

/-- What is recorded of a path: the number of its calls, if there are any. -/
def hit? (d : Disk) (methods : List String) (path : String) : Option (String × Nat) :=
  ((calls? d methods path).filter (0 < ·)).map (path, ·)

/-- The files that are no texts. -/
def unread (d : Disk) (files : List String) : List String :=
  files.filter fun path => (d.text? path).isNone

theorem hit?_eq_some {path : String} {e : String × Nat} :
    hit? d methods path = some e ↔ calls? d methods path = some e.2 ∧ 0 < e.2 ∧ e.1 = path := by
  obtain ⟨p, n⟩ := e
  simp only [hit?, Option.map_eq_some_iff, Option.filter_eq_some_iff, decide_eq_true_eq,
    Prod.mk.injEq]
  constructor
  · rintro ⟨_, ⟨hc, hn⟩, rfl, rfl⟩
    exact ⟨hc, hn, rfl⟩
  · rintro ⟨hc, hn, rfl⟩
    exact ⟨n, ⟨hc, hn⟩, rfl, rfl⟩

/-- One file more is counted, and listed as one with calls or as one that is no text. -/
theorem look_eq (t : Tally) (path : String) : t.look d methods path =
    ⟨t.scanned + 1, (hit? d methods path).toList ++ t.counts, unread d [path] ++ t.unreadable⟩ := by
  unfold Tally.look hit? unread calls?
  cases htext : d.text? path with
  | none => simp [htext]
  | some text =>
    by_cases hpos : 0 < Call.count methods text
    · simp [htext, hpos, Option.filter]
    · simp [htext, hpos, Option.filter]

theorem foldl_look_eq (files : List String) (t : Tally) : files.foldl (Tally.look d methods) t =
    ⟨t.scanned + files.length, (files.filterMap (hit? d methods)).reverse ++ t.counts,
      (unread d files).reverse ++ t.unreadable⟩ := by
  induction files generalizing t with
  | nil => rfl
  | cons path files ih =>
    have hhits : (path :: files).filterMap (hit? d methods) =
        (hit? d methods path).toList ++ files.filterMap (hit? d methods) := by
      cases h : hit? d methods path <;> simp [h]
    have hunread : unread d (path :: files) = unread d [path] ++ unread d files :=
      List.filter_append [path] files
    have hlist : ∀ o : Option (String × Nat), o.toList.reverse = o.toList := by
      rintro (_ | _) <;> rfl
    have hone : (unread d [path]).reverse = unread d [path] := by
      unfold unread
      cases h : (d.text? path).isNone <;> simp [h]
    rw [List.foldl_cons, ih, look_eq, hhits, hunread, List.reverse_append, List.reverse_append,
      hlist, hone, List.append_assoc, List.append_assoc, List.length_cons]
    exact congrArg (Tally.mk · _ _) (by dsimp only; omega)

theorem tallied_eq (d : Disk) (methods files : List String) : tallied d methods files =
    ⟨files.length, (files.filterMap (hit? d methods)).reverse, (unread d files).reverse⟩ := by
  unfold tallied
  rw [foldl_look_eq]
  simp

/-! ## The store and the summary -/

/-- No file is recorded twice. -/
theorem nodup_hits (hn : files.Nodup) : ((files.filterMap (hit? d methods)).map (·.1)).Nodup := by
  have hpath : ∀ path, (hit? d methods path).map (·.1) =
      Option.guard (fun path => (hit? d methods path).isSome) path := by
    intro path
    cases h : hit? d methods path with
    | none => simp [Option.guard, h]
    | some e => simp [Option.guard, h, (hit?_eq_some.1 h).2.2]
  rw [List.map_filterMap, funext hpath, List.filterMap_eq_filter]
  exact hn.filter _

/-- The entries of the store are the files with calls. -/
theorem perm_store (hn : files.Nodup) : (tallied d methods files).store.items.Perm
    ((files.filterMap (hit? d methods)).map fun e => (e.1, (e.2 : Int))) := by
  rw [tallied_eq]
  unfold Tally.store
  rw [List.reverse_reverse]
  refine Store.perm_ofCounts ?_ ?_
  · rw [List.map_map]
    exact nodup_hits hn
  · intro e he
    obtain ⟨hit, hhit, rfl⟩ := List.mem_map.1 he
    obtain ⟨path, -, h⟩ := List.mem_filterMap.1 hhit
    exact Int.natCast_pos.2 (hit?_eq_some.1 h).2.1

theorem filesWithCalls_eq (hn : files.Nodup) (root : String) :
    ((tallied d methods files).summary root).filesWithCalls =
      (tallied d methods files).store.fileCount := by
  rw [Store.fileCount, (perm_store hn).length_eq, tallied_eq]
  simp [Tally.summary]

theorem totalCalls_eq (hn : files.Nodup) (root : String) :
    (((tallied d methods files).summary root).totalCalls : Int) =
      (tallied d methods files).store.totalCalls := by
  have hsum : ∀ counts : List (String × Nat), ((counts.foldr (fun e n => e.2 + n) 0 : Nat) : Int) =
      (counts.map fun e => (e.1, (e.2 : Int))).foldr (fun e n => e.2 + n) 0 := by
    intro counts
    induction counts with
    | nil => rfl
    | cons e counts ih => simp [ih]
  have hcomm : ∀ a b : String × Int, ∀ n : Int, b.2 + (a.2 + n) = a.2 + (b.2 + n) := by
    intro a b n
    omega
  have hperm : (tallied d methods files).store.items.Perm
      ((files.filterMap (hit? d methods)).reverse.map fun e => (e.1, (e.2 : Int))) :=
    (perm_store hn).trans ((List.reverse_perm _).symm.map _)
  rw [Store.totalCalls, hperm.foldr_eq' (fun a _ b _ n => hcomm a b n), tallied_eq]
  exact hsum _

theorem mem_store {path : String} {n : Int} :
    (path, n) ∈ (tallied d methods files).store.items ↔ path ∈ files ∧
      ∃ text, d.text? path = some text ∧ n = Call.count methods text ∧ 0 < n := by
  have hmem : (path, n) ∈ (tallied d methods files).store.items ↔
      path ∈ files ∧ ∃ k : Nat, calls? d methods path = some k ∧ 0 < k ∧ n = k := mem_recorded
  rw [hmem]
  refine and_congr_right fun _ => ?_
  constructor
  · rintro ⟨k, hc, hk, rfl⟩
    obtain ⟨text, ht, rfl⟩ := Option.map_eq_some_iff.1 hc
    exact ⟨text, ht, rfl, Int.natCast_pos.2 hk⟩
  · rintro ⟨text, ht, rfl, hn⟩
    exact ⟨_, Option.map_eq_some_iff.2 ⟨text, ht, rfl⟩, Int.natCast_pos.1 hn, rfl⟩

/-! ## Scans -/

/-- A scan has recorded and reported what is in the files, and counted it. -/
structure Accounts (w w' : World) (methods files : List String) (store : Store)
    (summary : ScanSummary) : Prop where
  items : ∀ path n, (path, n) ∈ store.items ↔ path ∈ files ∧
    ∃ text, w.disk.text? path = some text ∧ n = Call.count methods text ∧ 0 < n
  ordered : store.Ordered
  filesScanned : summary.filesScanned = files.length
  unreadable : summary.unreadable = files.filter fun path => (w.disk.text? path).isNone
  filesWithCalls : summary.filesWithCalls = store.fileCount
  totalCalls : (summary.totalCalls : Int) = store.totalCalls
  countedFiles : w'.total "scan.files" = w.total "scan.files" +
    .int (files.filter fun path => (w.disk.text? path).isSome).length
  countedCalls : w'.total "scan.calls" = w.total "scan.calls" + .int store.totalCalls
  countedUnreadable : w'.total "scan.unreadable" = w.total "scan.unreadable" +
    .int summary.unreadable.length

theorem accounts_of_tallied (root : String) (hn : files.Nodup)
    (hs : ∀ n, Spares counters (progress n))
    (h : GoesOn progress {} (tallied w.disk methods files) w w') :
    Accounts w w' methods files (tallied w.disk methods files).store
      ((tallied w.disk methods files).summary root) := by
  have hgrown := h.grown hs
  have hstart : ∀ name, Tally.counted {} name = 0 := by
    intro name
    simp [Tally.counted]
  simp only [hstart, sub_zero] at hgrown
  refine ⟨fun path n => mem_store, ordered_recorded _ _ _, ?_, ?_, filesWithCalls_eq hn root,
    totalCalls_eq hn root, ?_, ?_, ?_⟩
  · rw [tallied_eq]
    rfl
  · rw [tallied_eq]
    exact List.reverse_reverse _
  · have hlength := files.length_eq_length_filter_add fun path => (w.disk.text? path).isNone
    simp only [Option.not_isNone] at hlength
    rw [hgrown "scan.files" (by simp [counters]), tallied_eq]
    simp only [Tally.counted, if_true, unread, List.length_reverse, hlength, Nat.cast_add,
      add_sub_cancel_left]
  · rw [hgrown "scan.calls" (by simp [counters]), ← totalCalls_eq hn root]
    rfl
  · rw [hgrown "scan.unreadable" (by simp [counters]), tallied_eq]
    simp [Tally.counted, Tally.summary]

/-- Nothing comes between a scan and the files. The tree is a proper one, and the counters hold
whole numbers. The reports on progress are made and change neither files nor the counters of the
scan, and the log is not written to one of the files. -/
structure Undisturbed (w : World) (top : String) (settings : CleanerSettings)
    (progress : Nat → Sweep Unit) : Prop where
  sound : w.Sound
  proper : w.disk.Proper
  workDir : w.disk.node? w.disk.cwd.base = some .dir
  calm : ∀ n, Calm (progress n)
  spares : ∀ n, Spares counters (progress n)
  closed : ∀ files, (sources top settings.endings settings.ignored).outcome w = .ok files →
    Closed w.disk files

/-- The store after a scan, which replaces it at the end. -/
def storeAfter (previous : Store) : Except Fault (Store × ScanSummary) → Store
  | .ok (store, _) => store
  | .error _ => previous

theorem nul_not_mem_of_isDirectory {path : String}
    (h : (Sweep.isDirectory path).outcome w = .ok true) : '\x00' ∉ path.toList := by
  intro hmem
  have hnone : (Sweep.nodeAt? path).run.run w = (.ok none, w) := by
    unfold Sweep.nodeAt?
    rw [if_pos (by simpa using hmem)]
    rfl
  have hfalse : (Sweep.isDirectory path).outcome w = .ok false :=
    congrArg Prod.fst (run_bind_eq hnone _)
  rw [hfalse] at h
  simp at h

theorem nodup_listed (settings : CleanerSettings) (hd : d.Proper) (ht : top ≠ "") :
    (listed d settings top).Nodup := by
  unfold listed
  cases hs : d.sources settings.endings settings.ignored top with
  | ok files => exact nodup_sources hd ht hs
  | error e => exact List.nodup_nil

/-- A scan of a directory accounts for the files that the walk yields. A scan of what is no
directory is given up, and the store is kept. -/
theorem accounts_of_run (settings : CleanerSettings) (progress : Nat → Sweep Unit)
    (previous : Store) {real : Path}
    (hreal : (Sweep.resolve (Path.ofString root)).outcome w = .ok real) :
    ((Sweep.isDirectory real.text).outcome w = .ok true →
      Undisturbed w real.text settings progress →
      ∃ files store summary,
        (sources real.text settings.endings settings.ignored).outcome w = .ok files ∧
        (run root settings progress).outcome w = .ok (store, summary) ∧
        storeAfter previous ((run root settings progress).outcome w) = store ∧
        summary.root = real.text ∧
        Accounts w ((run root settings progress).after w) settings.methods files store summary) ∧
    ((Sweep.isDirectory real.text).outcome w = .ok false →
      (run root settings progress).outcome w = .error (.noDirectory real.text) ∧
      storeAfter previous ((run root settings progress).outcome w) = previous) := by
  constructor
  · intro hdir hu
    have hnormal := normal_of_resolve hu.proper hu.workDir hreal
    have ha : (Sweep.absolute real.text).outcome w = .ok real.text :=
      outcome_absolute_of_normal hnormal
    have hn := nul_not_mem_of_isDirectory hdir
    have hne : real.text ≠ "" := by
      intro he
      have habs := hnormal.isAbsolute
      rw [he] at habs
      exact absurd habs (by decide)
    obtain ⟨_, hr, -⟩ := run_sources_of_sound settings hu.sound ha hn
    have hfiles : (sources real.text settings.endings settings.ignored).outcome w =
        .ok (listed w.disk settings real.text) := congrArg Prod.fst hr
    obtain ⟨w', hrun, hgoes⟩ := run_scan_of_closed settings hu.sound hu.proper hu.calm
      (run_resolve hreal) (run_isDirectory hdir) ha hn (hu.closed _ hfiles)
    have hout : (run root settings progress).outcome w = _ := congrArg Prod.fst hrun
    have hafter : (run root settings progress).after w = w' := congrArg Prod.snd hrun
    refine ⟨_, _, _, hfiles, hout, ?_, rfl, ?_⟩
    · rw [hout]
      rfl
    · rw [hafter]
      exact accounts_of_tallied real.text (nodup_listed settings hu.proper hne) hu.spares hgoes
  · intro hdir
    have hrun : (run root settings progress).run.run w = (.error (.noDirectory real.text), w) := by
      unfold run
      rw [run_bind_eq (run_resolve hreal)]
      dsimp only
      rw [run_bind_eq (run_isDirectory hdir)]
      rfl
    have hout : (run root settings progress).outcome w = .error (.noDirectory real.text) :=
      congrArg Prod.fst hrun
    rw [hout]
    exact ⟨rfl, rfl⟩

/-- A file with a call, and a link beside it that leads nowhere. -/
def half : World :=
  beside (.link "z")

theorem undisturbed_half : Undisturbed half "/" logOnly fun _ => pure () where
  sound := (quiet_beside _).sound
  proper := by decide
  workDir := by decide
  calm _ := calm_pure ()
  spares _ := spares_pure ()
  closed files _ := closed_of_held rfl files

theorem listed_half : listed half.disk logOnly "/" = ["/a.js", "/b.js"] := by
  refine listed_beside fun name hname => ?_
  rcases List.mem_pair.1 hname with rfl | rfl <;> cbv

/-- The file is recorded, and the link is listed. Where nothing is, there is no directory. -/
theorem accounts_of_half :
    (∃ store summary, (run "/" logOnly fun _ => pure ()).outcome half = .ok (store, summary) ∧
      ("/a.js", 1) ∈ store.items ∧ summary.filesScanned = 2 ∧ summary.unreadable = ["/b.js"]) ∧
    (run "/c" logOnly fun _ => pure ()).outcome half = .error (.noDirectory "/c") := by
  have ha : half.disk.file? "/a.js" = some ⟨["a.js"], oneCall, .at 0⟩ := by cbv
  have hb : half.disk.text? "/b.js" = none := by cbv
  have htext := text?_of_oneCall ha rfl
  have hreal : (Sweep.resolve (Path.ofString "/")).outcome half = .ok ⟨"/", []⟩ := by cbv
  have hsource : (sources "/" logOnly.endings logOnly.ignored).outcome half =
      .ok ["/a.js", "/b.js"] := by
    have ha : (Sweep.absolute "/").outcome half = .ok "/" := rfl
    obtain ⟨_, hr, -⟩ := run_sources_of_sound logOnly undisturbed_half.sound ha (by decide)
    rw [listed_half] at hr
    exact congrArg Prod.fst hr
  have hgone : (Sweep.resolve (Path.ofString "/c")).outcome half = .ok ⟨"/", ["c"]⟩ := by cbv
  obtain ⟨files, store, summary, hfiles, hout, -, -, h⟩ :=
    (accounts_of_run logOnly (fun _ => pure ()) .empty hreal).1 (by cbv) undisturbed_half
  obtain rfl := Except.ok.inj (hsource.symm.trans hfiles)
  refine ⟨⟨store, summary, hout, ?_, h.filesScanned, ?_⟩, ?_⟩
  · exact (h.items _ _).2 ⟨by simp, _, htext, by decide +kernel, by decide⟩
  · rw [h.unreadable]
    simp [htext, hb]
  · exact ((accounts_of_run logOnly (fun _ => pure ()) .empty hgone).2 (by cbv)).1

/-- A link that leads to itself. -/
def loop : World :=
  { knot with disk := ⟨[(["loop"], .link "loop")], ⟨[], 0⟩, [], 0, {}⟩ }

/-- The link is no directory, and a scan of it is given up with another fault. -/
theorem unresolvable_of_loop :
    (Sweep.isDirectory "/loop").outcome loop = .ok false ∧
    (run "/loop" logOnly fun _ => pure ()).outcome loop = .error .unresolvable := by
  have hstat : loop.disk.stat "/loop" = .error .tooManyLinks := by cbv
  constructor
  · have hnode : (Sweep.nodeAt? "/loop").run.run loop = (.ok none, loop) := by
      unfold Sweep.nodeAt?
      rw [if_neg (by decide), run_bind_eq (run_world loop), hstat]
      rfl
    exact congrArg Prod.fst (run_bind_eq hnode _)
  · have hpath : loop.disk.realPath? "/loop" = some "/loop" := by cbv
    have htext : (Path.ofString "/loop").text = "/loop" := by decide
    have hreal : (Sweep.resolve (Path.ofString "/loop")).run.run loop =
        (.error .unresolvable, loop) := by
      unfold Sweep.resolve
      rw [htext, run_bind_eq (run_checkPath (by decide) loop), run_bind_eq (run_world loop)]
      dsimp only
      rw [hpath]
      dsimp only
      rw [hstat]
      rfl
    exact congrArg Prod.fst (run_bind_fault hreal _)

end ConsoleSweep.Scan
