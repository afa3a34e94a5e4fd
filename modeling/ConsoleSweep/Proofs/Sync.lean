/-
  The store stays in step with the files while they are cleaned.

  After a scan each recorded count is that of its file. To clean all files keeps this, however
  many paths lead to one of them: every path that leads to a text that can be cleaned leaves
  the store. To clean one file keeps it if the file is recorded under no other path (`Own`):
  what is written is then the file of a path that leaves the store (`Call.inSync`). If a file
  has two paths, cleaning it under one leaves the other in the store with a count that is no
  longer true; so does a run over all files that stops between the two.
-/
import ConsoleSweep.Proofs.Clean
import ConsoleSweep.Proofs.Scan

namespace ConsoleSweep.Clean

open Sweep Disk

variable {w w' : World} {store store' : Store} {methods : List String}
  {settings : CleanerSettings} {report : Option Path} {path key : String}

/-- Every recorded count is that of the file, which is none for what is no text. -/
structure InSync (methods : List String) (store : Store) (w : World) : Prop where
  quiet : w.Quiet
  ordered : store.Ordered
  plain : ∀ e ∈ store.items, '\x00' ∉ e.1.toList
  counts : ∀ e ∈ store.items, e.2 = ((Scan.calls? w.disk methods e.1).getD 0 : Nat)

/-- The question before one file is cleaned. -/
def questionFor (store : Store) (key : String) : String :=
  Prompt.cleanFile key (Text.ofInt ((store.get? key).getD 0))

/-- None of the paths leads to the report. -/
def Unreported (d : Disk) (report : Option Path) (paths : List String) : Prop :=
  ∀ path ∈ paths, ∀ p, d.Targets path p → ¬ InReport d report p

/-- A call with consent that cleans all files, or one that is recorded under no other path; or the
passing of time between two calls, in which the files stay the same. A call that cleans all files
either comes to a summary, or stops early where no file has two paths. -/
inductive Call (settings : CleanerSettings) : Store × World → Store × World → Prop where
  | all {store store' : Store} {w w' : World} {confirm : Option (String → Sweep Bool)}
      {progress : Nat → Nat → String → Sweep Unit} {report : Option Path}
      {result : Except Fault CleanSummary} (unreported : Unreported w.disk report store.paths)
      (placed : ∀ p, report = some p → Report.Placed w p)
      (calm : ∀ i n path, Calm (progress i n path))
      (yes : Answers true w (isConfirmed settings confirm (question store)))
      (whole : (∃ s, result = .ok s) ∨ ∀ key ∈ store.paths, Own w.disk key store.paths)
      (run : (all store settings confirm progress report).run.run w = (.ok (store', result), w')) :
      Call settings (store, w) (store', w')
  | single {store store' : Store} {w w' : World} {confirm : Option (String → Sweep Bool)}
      {path key : String} {report : Option Path} {result : Except Fault CleanSummary}
      (found : (keyOf store path).outcome w = .ok key) (own : Own w.disk key store.paths)
      (unreported : Unreported w.disk report store.paths)
      (placed : ∀ p, report = some p → Report.Placed w p)
      (yes : Answers true w (isConfirmed settings confirm (questionFor store key)))
      (run : (single path store settings confirm report).run.run w =
        (.ok (store', result), w')) :
      Call settings (store, w) (store', w')
  | pass {store : Store} {w w' : World} (quiet : w'.Quiet) (same : w'.disk = w.disk) :
      Call settings (store, w) (store, w')

/-- What is left in the store is in step if its files are the same. -/
theorem InSync.later {A : Place → Prop} (h : InSync methods store w) (hl : w.Later A w')
    (ho : store'.Ordered) (hsub : ∀ e ∈ store'.items, e ∈ store.items)
    (same : ∀ e ∈ store'.items, w'.disk.file? e.1 = w.disk.file? e.1) :
    InSync methods store' w' := by
  refine ⟨⟨hl.sound, hl.disk.held_eq.trans h.quiet.closed⟩, ho,
    fun e he => h.plain e (hsub e he), fun e he => ?_⟩
  have hcalls : Scan.calls? w'.disk methods e.1 = Scan.calls? w.disk methods e.1 := by
    unfold Scan.calls? text?
    rw [same e he]
  rw [hcalls]
  exact h.counts e (hsub e he)

/-- Cleaning a path does not write where the others lead, nor where it leads itself if it cannot be
cleaned. -/
theorem Own.not_reach {d : Disk} {paths : List String} {a b : String} {p : Place}
    (h : Own d a paths) (hr : Unreported d report paths) (hb : b ∈ paths)
    (hne : b ≠ a ∨ canClean methods d a = false) (hp : d.Targets b p) :
    ¬ Reach methods d report a p := by
  rintro (⟨f, text, hready, rfl⟩ | hi)
  · obtain rfl : b = a := h.eq_of_targets hready.found hb hp
    rcases hne with hne | hnone
    · exact hne rfl
    · rw [canClean_iff.2 ⟨f, text, hready⟩] at hnone
      cases hnone
  · exact hr b hb p hp hi

theorem outcome_fst (r : Run) (stop : Option Fault) : (outcome r stop).1 = r.store := by
  cases stop <;> rfl

section

variable {paths done : List String} {r : Run} {stop : Option Fault} {total : Nat}

theorem Went.items_eq
    (h : Went methods report w paths (Run.start store total) done r stop w') :
    r.store.items = store.items.filter fun e =>
      !(done.contains e.1 && canClean methods w.disk e.1) := by
  rw [h.account, Run.account_eq]
  rfl

/-- What is left in the store was there before, and could not be cleaned if it was gone through. -/
theorem Went.left {e : String × Int}
    (h : Went methods report w paths (Run.start store total) done r stop w')
    (he : e ∈ r.store.items) :
    e ∈ store.items ∧ (e.1 ∈ done → canClean methods w.disk e.1 = false) := by
  rw [h.items_eq] at he
  obtain ⟨he, hkeep⟩ := List.mem_filter.1 he
  exact ⟨he, fun hmem => by simpa [hmem] using hkeep⟩

end

/-- Every path that was gone through and can be cleaned leaves the store; nothing was written where
the others lead. -/
theorem InSync.all {confirm : Option (String → Sweep Bool)}
    {progress : Nat → Nat → String → Sweep Unit} {result : Except Fault CleanSummary}
    (h : InSync methods store w) (unreported : Unreported w.disk report store.paths)
    (hr : ∀ p, report = some p → Report.Placed w p) (hp : ∀ i n path, Calm (progress i n path))
    (hc : Answers true w (isConfirmed settings confirm (question store)))
    (whole : (∃ s, result = .ok s) ∨ ∀ key ∈ store.paths, Own w.disk key store.paths)
    (hrun : (all store settings confirm progress report).run.run w =
      (.ok (store', result), w')) : InSync methods store' w' := by
  have ha : Cleanable w.disk report store.paths := by
    refine ⟨fun path hpath => ?_, fun _ _ _ _ => not_open h.quiet.closed, unreported⟩
    obtain ⟨e, he, rfl⟩ := List.mem_map.1 hpath
    exact h.plain e he
  obtain ⟨done, r, stop, w₁, hr₁, went⟩ :=
    run_all h.quiet.sound h.ordered.nodup_paths ha hr hp hc
  rw [hr₁] at hrun
  obtain ⟨hres, rfl⟩ := Prod.mk.inj hrun
  have hout : outcome r stop = (store', result) := Except.ok.inj hres
  obtain rfl : r.store = store' := (outcome_fst r stop).symm.trans (congrArg Prod.fst hout)
  have ordered : r.store.Ordered := by
    unfold Store.Ordered
    rw [went.items_eq]
    exact h.ordered.filter _
  refine h.later went.later ordered (fun e he => (went.left he).1) fun e he => ?_
  obtain ⟨he, hkept⟩ := went.left he
  have hmem : e.1 ∈ store.paths := List.mem_map_of_mem he
  refine ha.file?_eq went.later hmem ?_
  rintro p hp ⟨a, hadone, hat | hi⟩
  · obtain ⟨f, text, hready, rfl⟩ := hat
    -- If all paths were gone through, the path itself can be cleaned; else no other leads here.
    have hsame : e.1 ∈ done := by
      rcases whole with ⟨s, rfl⟩ | alone
      · cases stop with
        | none => exact (went.whole rfl).symm ▸ hmem
        | some f => cases congrArg Prod.snd hout
      · have hown := alone a (went.first.subset hadone)
        exact (hown.eq_of_targets hready.found hmem hp) ▸ hadone
    have hcan := hkept hsame
    rw [canClean_iff.2 ⟨f, text, hready.of_targets hp⟩] at hcan
    cases hcan
  · exact unreported _ hmem p hp hi

/-- To look for the path of a file in the store changes nothing. -/
theorem run_keyOf (h : (keyOf store path).outcome w = .ok key) :
    (keyOf store path).run.run w = (.ok key, w) := by
  obtain ⟨top, ha, hk⟩ := outcome_bind_eq_ok h
  refine Prod.ext h ?_
  unfold keyOf
  rw [run_bind_eq (run_absolute ha)]
  have hafter : (Sweep.absolute path).after w = w := congrArg Prod.snd (run_absolute ha)
  rw [hafter] at hk
  split
  · rfl
  · next hne =>
    rw [if_neg hne] at hk
    obtain ⟨u, hc, -⟩ := outcome_bind_eq_ok hk
    rw [run_bind_eq (run_checkPath (nul_not_mem_of_checkPath hc) w)]
    rfl

/-- The path of a file in the store has no NUL. -/
theorem nul_not_mem_of_keyOf (hs : ∀ e ∈ store.items, '\x00' ∉ e.1.toList)
    (h : (keyOf store path).outcome w = .ok key) : '\x00' ∉ key.toList := by
  have recorded : ∀ key, store.contains key = true → '\x00' ∉ key.toList := by
    intro key hk
    obtain ⟨count, hcount⟩ := Option.isSome_iff_exists.1 hk
    exact hs _ (mem_of_lookup hcount)
  obtain ⟨top, -, hk⟩ := outcome_bind_eq_ok h
  split at hk
  · next hin => exact Except.ok.inj hk ▸ recorded top hin
  · obtain ⟨u, hc, hk⟩ := outcome_bind_eq_ok hk
    obtain ⟨w₁, -, hk⟩ := outcome_bind_eq_ok hk
    rw [← Except.ok.inj hk]
    split
    · next hin => exact recorded _ hin
    · exact nul_not_mem_of_checkPath hc

/-- One file is cleaned, under the path that the store knows it by. -/
theorem run_single (report : Option Path) {confirm : Option (String → Sweep Bool)}
    (hn : '\x00' ∉ key.toList) (hr : ∀ p, report = some p → Report.Placed w p)
    (hk : (keyOf store path).outcome w = .ok key)
    (hc : Answers true w (isConfirmed settings confirm (questionFor store key))) :
    ∃ w₁ stop w', w.Later Nowhere w₁ ∧ (single path store settings confirm report).run.run w =
        (.ok (outcome ((Run.start store 1).settle (canClean settings.methods w₁.disk key) key) stop),
          w') ∧
      w₁.Later (Reach settings.methods w₁.disk report key) w' ∧
      ∀ f text, Ready settings.methods w₁.disk key f text → ¬ Open w₁.disk f.place →
        ¬ InReport w₁.disk report f.place → Cleaned settings.methods f text w'.disk := by
  obtain ⟨w₁, hr₁, h₁⟩ := hc
  obtain ⟨stop, w₂, hr₂, h₂, -, cleaned⟩ := run_cleanOne settings.methods h₁.sound hn
    (fun p hp => (hr p hp).later h₁) (Run.start store 1)
  refine ⟨w₁, stop, w₂, h₁, ?_, h₂, cleaned⟩
  unfold single
  rw [run_bind_eq (run_keyOf hk)]
  dsimp only
  refine (run_bind_eq hr₁ _).trans ?_
  exact run_bind_eq hr₂ _

theorem InSync.single {confirm : Option (String → Sweep Bool)} {result : Except Fault CleanSummary}
    (h : InSync methods store w) (hk : (keyOf store path).outcome w = .ok key)
    (own : Own w.disk key store.paths) (unreported : Unreported w.disk report store.paths)
    (hr : ∀ p, report = some p → Report.Placed w p)
    (hc : Answers true w (isConfirmed settings confirm (questionFor store key)))
    (hrun : (single path store settings confirm report).run.run w =
      (.ok (store', result), w')) : InSync methods store' w' := by
  obtain ⟨w₁, stop, w₂, h₁, hr₂, h₂, -⟩ :=
    run_single report (nul_not_mem_of_keyOf h.plain hk) hr hk hc
  rw [h₁.disk_eq h.quiet.closed] at hr₂ h₂
  have h₂ : w.Later (Reach settings.methods w.disk report key) w₂ := h₁.of_nowhere.trans h₂
  rw [hr₂] at hrun
  obtain ⟨hres, rfl⟩ := Prod.mk.inj hrun
  have hstore : store' =
      ((Run.start store 1).settle (canClean settings.methods w.disk key) key).store :=
    (congrArg Prod.fst (Except.ok.inj hres)).symm.trans (outcome_fst _ stop)
  -- The path leaves the store, or it cannot be cleaned.
  have left : ∀ e ∈ store'.items, e ∈ store.items ∧
      (e.1 ≠ key ∨ canClean settings.methods w.disk key = false) := by
    intro e he
    rw [hstore] at he
    cases hcan : canClean settings.methods w.disk key with
    | false =>
      rw [hcan] at he
      exact ⟨he, .inr rfl⟩
    | true =>
      rw [hcan] at he
      obtain ⟨he, hne⟩ := List.mem_filter.1 he
      exact ⟨he, .inl (by simpa using hne)⟩
  have ordered : store'.Ordered := by
    rw [hstore]
    unfold Run.settle
    split
    · exact h.ordered.remove key
    · exact h.ordered
  refine h.later h₂ ordered (fun e he => (left e he).1) fun e he => ?_
  obtain ⟨he, hne⟩ := left e he
  have hmem : e.1 ∈ store.paths := List.mem_map_of_mem he
  exact file?_of_writes h₂.disk fun p hp =>
    not_or.2 ⟨not_open h.quiet.closed, own.not_reach unreported hmem hne hp⟩

/-- A call keeps the store in step. -/
theorem Call.inSync {before after : Store × World} (h : Call settings before after)
    (hs : InSync methods before.1 before.2) : InSync methods after.1 after.2 := by
  cases h with
  | all unreported placed calm yes whole run =>
    exact hs.all unreported placed calm yes whole run
  | single found own unreported placed yes run =>
    exact hs.single found own unreported placed yes run
  | pass quiet same => exact ⟨quiet, hs.ordered, hs.plain, same ▸ hs.counts⟩

/-- A scan records the counts of the files. -/
theorem inSync_of_scan {root : String} {progress : Nat → Sweep Unit} {summary : ScanSummary}
    (hw : w.Quiet) (hd : w.disk.Proper) (hp : ∀ n, Calm (progress n))
    (h : (Scan.run root settings progress).run.run w = (.ok (store, summary), w')) :
    InSync settings.methods store w' := by
  obtain ⟨real, top, -, -, -, hn, rfl, hstill⟩ := Scan.recorded_of_run hw hd hp h
  refine ⟨hstill.quiet, Scan.ordered_recorded _ _ _, fun e he => ?_, fun e he => ?_⟩
  · exact Scan.nul_not_mem_listed _ hd hn e.1 (Scan.mem_recorded.1 he).1
  · obtain ⟨-, n, hcalls, -, hcount⟩ := Scan.mem_recorded.1 he
    rw [hstill.disk, hcalls, hcount]
    rfl

/-- After a scan and calls that clean all files, or one that is recorded under no other path, every
recorded count is what counting the calls in the file comes to. -/
theorem counts_in_sync {root : String} {progress : Nat → Sweep Unit} {scanned : Store}
    {summary : ScanSummary} {start : World} (hw : start.Quiet) (hd : start.disk.Proper)
    (hp : ∀ n, Calm (progress n))
    (hscan : (Scan.run root settings progress).run.run start = (.ok (scanned, summary), w))
    (hcalls : Relation.ReflTransGen (Call settings) (scanned, w) (store, w')) :
    ∀ path count, (path, count) ∈ store.items →
      ∃ n : Nat, (Scan.countFile settings.methods path).outcome w' = .ok n ∧ count = n := by
  -- What a call preserves is preserved by a sequence of calls.
  have run : ∀ after, Relation.ReflTransGen (Call settings) (scanned, w) after →
      InSync settings.methods after.1 after.2 := by
    intro after hcalls
    induction hcalls with
    | refl => exact inSync_of_scan hw hd hp hscan
    | tail _ call ih => exact call.inSync ih
  intro path count hmem
  have hs := run _ hcalls
  exact ⟨_, Scan.outcome_countFile hs.quiet.sound (hs.plain _ hmem), hs.counts _ hmem⟩

/-! ## A file beside another -/

open Scan (beside bothPaths logOnly oneCall twins)

/-- The first file is cleaned, and its path leaves the store. -/
theorem run_single_beside {n : Node} (hw : (beside n).Still w)
    (ha : (beside n).disk.file? "/a.js" = some ⟨["a.js"], oneCall, .at 0⟩) :
    ∃ result w', (single "/a.js" bothPaths logOnly (some fun _ => pure true) none).run.run w =
        (.ok (⟨[("/b.js", 1)]⟩, result), w') ∧
      w.Later (Reach logOnly.methods w.disk none "/a.js") w' ∧
      ∃ stamp, w'.disk.node? ["a.js"] = some (.file [] stamp) := by
  have hkey : (keyOf bothPaths "/a.js").outcome w = .ok "/a.js" := rfl
  have yes : Answers true w (isConfirmed logOnly (some fun _ => pure true)
    (questionFor bothPaths "/a.js")) := ⟨w, rfl, .refl hw.quiet.sound⟩
  obtain ⟨w₁, stop, w₂, h₁, hr, h₂, cleaned⟩ := run_single none (by decide) (by simp) hkey yes
  have same : w₁.disk = w.disk := h₁.disk_eq hw.quiet.closed
  rw [same] at hr h₂ cleaned
  rw [← hw.disk] at ha
  have hready : Ready logOnly.methods w.disk "/a.js" _ "console.log();".toList :=
    ⟨ha, Scan.decode_oneCall, .inr (by rw [hw.disk]; rfl)⟩
  have hempty : Removal.removeCalls ["log"] "console.log();".toList = [] := by decide +kernel
  rw [canClean_iff.2 ⟨_, _, hready⟩] at hr
  obtain ⟨stamp, hnode, -⟩ := cleaned _ _ hready (not_open hw.quiet.closed)
    (by rintro ⟨r, hr, -⟩; simp at hr)
  have hout : outcome ((Run.start bothPaths 1).settle true "/a.js") stop =
      (⟨[("/b.js", 1)]⟩, _) := Prod.ext (outcome_fst _ stop) rfl
  rw [hout] at hr
  refine ⟨_, w₂, hr, h₁.of_nowhere.trans h₂, stamp, hnode.trans ?_⟩
  exact congrArg (fun text => some (Node.file (Text.encode text) stamp)) hempty

theorem own_twins : Own twins.disk "/a.js" bothPaths.paths := by
  obtain ⟨ha, hb⟩ := Scan.file?_twins
  intro path hpath f g hf hg hplace
  rcases List.mem_pair.1 hpath with rfl | rfl
  · rfl
  · rw [ha] at hf
    rw [hb] at hg
    obtain rfl := Option.some.inj hf
    obtain rfl := Option.some.inj hg
    exact absurd hplace (by decide)

/-- One of two files is cleaned; the other stays in the store, with its count. -/
theorem counts_in_sync_of_twins :
    ∃ summary w₁ w₂, (Scan.run "/" logOnly fun _ => pure ()).run.run twins =
        (.ok (bothPaths, summary), w₁) ∧
      Relation.ReflTransGen (Call logOnly) (bothPaths, w₁) (⟨[("/b.js", 1)]⟩, w₂) ∧
      ∃ n : Nat, (Scan.countFile logOnly.methods "/b.js").outcome w₂ = .ok n ∧ (1 : Int) = n := by
  have hd : twins.disk.Proper := by decide
  obtain ⟨ha, hb⟩ := Scan.file?_twins
  obtain ⟨summary, w₁, hscan, hw₁⟩ :=
    Scan.run_scan_beside hd ha hb rfl rfl Scan.entryDir?_twins
  obtain ⟨result, w₂, hsingle, -⟩ := run_single_beside hw₁ ha
  have hkey : (keyOf bothPaths "/a.js").outcome w₁ = .ok "/a.js" := rfl
  have hcall : Call logOnly (bothPaths, w₁) (⟨[("/b.js", 1)]⟩, w₂) :=
    .single hkey (hw₁.disk ▸ own_twins) (fun _ _ _ _ ⟨_, hr, _⟩ => by cases hr) (by simp)
      ⟨w₁, rfl, .refl hw₁.quiet.sound⟩ hsingle
  have hcalls := Relation.ReflTransGen.single hcall
  exact ⟨summary, w₁, w₂, hscan, hcalls, counts_in_sync (Scan.quiet_beside _) hd
    (fun _ => calm_pure ()) hscan hcalls "/b.js" 1 List.mem_cons_self⟩

/-- A file is cleaned under its own path; the link to it stays in the store with a call that is no
longer there. -/
theorem stale_after_single :
    ∃ summary w₁ result store w₂,
      (Scan.run "/" logOnly fun _ => pure ()).run.run (beside (.link "a.js")) =
        (.ok (bothPaths, summary), w₁) ∧
      (single "/a.js" bothPaths logOnly (some fun _ => pure true) none).run.run w₁ =
        (.ok (store, result), w₂) ∧
      ("/b.js", 1) ∈ store.items ∧ (Scan.countFile logOnly.methods "/b.js").outcome w₂ = .ok 0 := by
  have ha : (beside (.link "a.js")).disk.file? "/a.js" = some ⟨["a.js"], oneCall, .at 0⟩ := by cbv
  have hb : (beside (.link "a.js")).disk.file? "/b.js" = some ⟨["a.js"], oneCall, .at 0⟩ := by cbv
  obtain ⟨summary, w₁, hscan, hw₁⟩ := Scan.run_scan_beside (by decide) ha hb rfl rfl (by
    intro name hname
    rcases List.mem_pair.1 hname with rfl | rfl <;> cbv)
  obtain ⟨result, w₂, hsingle, h₂, stamp, hnode⟩ := run_single_beside hw₁ ha
  refine ⟨summary, w₁, result, _, w₂, hscan, hsingle, List.mem_cons_self, ?_⟩
  rw [← hw₁.disk] at hb
  have htext : w₂.disk.text? "/b.js" = some [] := by
    unfold text?
    rw [file?_of_node? h₂.disk hb hnode]
    rfl
  rw [Scan.outcome_countFile h₂.sound (by decide), Scan.calls?, htext]
  decide +kernel

end ConsoleSweep.Clean
