/-
  A watch keeps the store current.

  Between two looks the store may be behind the tree only as long as changes are awaited
  (`Current`). Where nothing is new and nothing has changed, the store without what is gone is
  what a scan would record (`recorded_of_unchanged`), so no scan is needed; and what was
  awaited is scanned once the wait is over. So each look leaves the store current, and by
  induction every run of a watch does (`Watched.current`).

  All this is for a root that stays where it is (`Look.real`). A scan asks for the real path
  of the root and a look does not, so if the root becomes a link, the paths that a scan
  records are not those that a look sees.
-/
import ConsoleSweep.Proofs.Watch.Look

namespace ConsoleSweep.Watcher

open Sweep Disk

variable {w : Watcher} {s : Store} {d d' : Disk} {W : World} {root path : String}
  {settings : CleanerSettings} {files files' methods : List String}
  {before after : List (String × Stamp)}

/-! ## One look -/

/-- The store is behind the tree only while changes are awaited, and all that it has was seen in
the tree. -/
structure Current (w : Watcher) (s : Store) (d : Disk) : Prop where
  normal : Path.Normal w.root
  plain : '\x00' ∉ w.root.toList
  limit : w.debounce.isSome
  seen : w.seen = w.sight d
  ordered : s.Ordered
  known : ∀ e ∈ s.items, (w.seen.lookup e.1).isSome
  fresh : w.pendingSince = none → s = w.scanned d
  waiting : ∀ since, w.pendingSince = some since → since.isFloatable = true

/-- The surroundings of a look, after one at the tree `d`. The root is its own real path and can be
asked for, a file with the same stamp has the same bytes, and the clock shows a number. -/
structure Look (w : Watcher) (d : Disk) (W : World) (now : Number) : Prop where
  quiet : W.Quiet
  proper : W.disk.Proper
  real : ∃ p, (Sweep.resolve (Path.ofString w.root)).outcome W = .ok p ∧ p.text = w.root
  asked : ∃ b, (Sweep.isDirectory w.root).outcome W = .ok b
  clock : now.isFloatable = true
  same : ∀ path stamp, (path, stamp) ∈ w.seen → (path, stamp) ∈ w.sight W.disk →
    W.disk.read path = d.read path

/-- What a scan records was seen. -/
theorem lookup_of_recorded {e : String × Int} (h : e ∈ (Scan.recorded d methods files).items) :
    ((stamps d files).lookup e.1).isSome := by
  obtain ⟨hmem, n, hcalls, -⟩ := Scan.mem_recorded.1 h
  obtain ⟨text, htext, -⟩ := Option.map_eq_some_iff.1 hcalls
  obtain ⟨stamp, hstamp⟩ := stampOf?_of_text? htext
  rw [lookup_stamps.2 ⟨hmem, hstamp⟩]
  rfl

/-- What is left in the store is still there. -/
theorem lookup_of_without (hk : ∀ e ∈ s.items, (before.lookup e.1).isSome) {e : String × Int}
    (h : e ∈ (without s (compare before after).deleted).items) : (after.lookup e.1).isSome := by
  obtain ⟨hs, hleft⟩ := List.mem_filter.1 h
  obtain ⟨stamp, hstamp⟩ := Option.isSome_iff_exists.1 (hk e hs)
  have hmem : e.1 ∈ before.map (·.1) := List.mem_map.2 ⟨_, mem_of_lookup hstamp, rfl⟩
  have hkept : e.1 ∉ (compare before after).deleted := by simpa using hleft
  rw [mem_deleted] at hkept
  cases hl : after.lookup e.1 with
  | none => exact absurd ⟨hmem, hl⟩ hkept
  | some stamp => rfl

/-- If nothing is new and nothing has changed, dropping what is gone comes to the same as a scan. -/
theorem recorded_of_unchanged
    (hc : (compare (stamps d files) (stamps d' files')).created = [])
    (hm : (compare (stamps d files) (stamps d' files')).modified = [])
    (same : ∀ path stamp, (path, stamp) ∈ stamps d files → (path, stamp) ∈ stamps d' files' →
      d'.read path = d.read path) :
    without (Scan.recorded d methods files)
        (compare (stamps d files) (stamps d' files')).deleted =
      Scan.recorded d' methods files' := by
  -- What is seen now was seen before, with the same calls.
  have old : ∀ path ∈ files', ∀ stamp, stampOf? d' path = some stamp →
      path ∈ files ∧ Scan.calls? d' methods path = Scan.calls? d methods path := by
    intro path hpath stamp hstamp
    have hnow := mem_stamps.2 ⟨hpath, hstamp⟩
    have hthen := mem_of_lookup (lookup_of_unchanged hc hm hnow)
    refine ⟨(mem_stamps.1 hthen).1, ?_⟩
    unfold Scan.calls?
    rw [text?_of_read (same path stamp hthen hnow)]
  refine Store.ext_of_ordered ((Scan.ordered_recorded _ _ _).filter _)
    (Scan.ordered_recorded _ _ _) fun e => ?_
  constructor
  · intro he
    obtain ⟨stamp, hlook⟩ :=
      Option.isSome_iff_exists.1 (lookup_of_without (fun _ => lookup_of_recorded) he)
    obtain ⟨hpath, hstamp⟩ := lookup_stamps.1 hlook
    obtain ⟨-, n, hcalls, hpos, hcount⟩ := Scan.mem_recorded.1 (List.mem_filter.1 he).1
    exact Scan.mem_recorded.2 ⟨hpath, n, (old e.1 hpath stamp hstamp).2.trans hcalls, hpos, hcount⟩
  · intro he
    obtain ⟨stamp, hlook⟩ := Option.isSome_iff_exists.1 (lookup_of_recorded he)
    obtain ⟨hpath, hstamp⟩ := lookup_stamps.1 hlook
    obtain ⟨-, n, hcalls, hpos, hcount⟩ := Scan.mem_recorded.1 he
    obtain ⟨hthen, hsame⟩ := old e.1 hpath stamp hstamp
    refine List.mem_filter.2 ⟨Scan.mem_recorded.2 ⟨hthen, n, hsame.symm.trans hcalls, hpos, hcount⟩,
      ?_⟩
    have hkept : e.1 ∉ (compare (stamps d files) (stamps d' files')).deleted := by
      rw [mem_deleted, hlook]
      simp
    simpa using hkept

/-- What was seen in a root that is no directory is gone. -/
theorem without_eq_recorded_nil (hk : ∀ e ∈ s.items, (before.lookup e.1).isSome) :
    without s (compare before []).deleted = Scan.recorded d methods [] := by
  have hnone : (without s (compare before []).deleted).items = [] := by
    refine List.eq_nil_iff_forall_not_mem.2 fun e he => ?_
    have hsome := lookup_of_without hk he
    simp at hsome
  calc without s (compare before []).deleted = ⟨[]⟩ := congrArg Store.mk hnone
    _ = Scan.recorded d methods [] := rfl

/-- What one look preserves. -/
theorem Current.look {now : Number} {b due : Bool} {found : Option Store} (h : Current w s d)
    (hl : Look w d W now) (hdir : (Sweep.isDirectory w.root).outcome W = .ok b)
    (hfound : found = if due && b then some (w.scanned W.disk) else none) :
    Current ((w.noted W.disk now).settled due)
      (found.getD (without s (w.differences W.disk).deleted)) W.disk := by
  have hordered : (found.getD (without s (w.differences W.disk).deleted)).Ordered ∧
      ∀ e ∈ (found.getD (without s (w.differences W.disk).deleted)).items,
        ((w.sight W.disk).lookup e.1).isSome := by
    split at hfound
    · rw [hfound]
      exact ⟨Scan.ordered_recorded _ _ _, fun e => lookup_of_recorded⟩
    · rw [hfound]
      exact ⟨h.ordered.filter _, fun e => lookup_of_without h.known⟩
  have hfresh : ((w.noted W.disk now).settled due).pendingSince = none →
      found.getD (without s (w.differences W.disk).deleted) = w.scanned W.disk := by
    intro hp
    rw [hfound]
    cases due with
    | true =>
      cases b with
      | true => rfl
      | false =>
        -- The root is no directory, and a scan would find nothing.
        have hnil : Scan.listed W.disk w.settings w.root = [] := listed_eq_nil hdir h.plain
        change without s (w.differences W.disk).deleted = _
        unfold differences scanned sight
        rw [hnil]
        exact without_eq_recorded_nil h.known
    | false =>
      rcases pendingSince_noted hp with ⟨hc, hm, hnone⟩ | hsome
      · -- Nothing was awaited before, and there is nothing to await now.
        change without s (w.differences W.disk).deleted = _
        rw [h.fresh hnone]
        unfold differences at hc hm ⊢
        rw [h.seen] at hc hm ⊢
        exact recorded_of_unchanged hc hm fun path stamp hold hnew =>
          hl.same path stamp (h.seen ▸ hold) hnew
      · simp at hsome
  refine ⟨?_, ?_, ?_, ?_, hordered.1, ?_, ?_, ?_⟩
  · rw [root_settled]; exact h.normal
  · rw [root_settled]; exact h.plain
  · rw [debounce_settled]; exact h.limit
  · unfold sight
    rw [seen_settled, settings_settled, root_settled]
    rfl
  · rw [seen_settled]; exact hordered.2
  · unfold scanned
    rw [settings_settled, root_settled]
    exact hfresh
  · intro since hsince
    cases due with
    | true => cases hsince
    | false => exact isFloatable_of_noted h.waiting hl.clock hsince

/-! ## Runs -/

/-- The runs of a watch up to a look at the tree `d`. It starts with a store that is the scan of the
tree at that moment, from a working directory of the tree; then there are looks, between which the
tree may have changed in any way. -/
inductive Watched : Watcher → Store → Disk → Prop where
  | start {root : String} {settings : CleanerSettings} {debounce : Number} {w : Watcher} {s : Store}
      {summary : ScanSummary} {W : World} (quiet : W.Quiet) (proper : W.disk.Proper)
      (here : W.disk.node? W.disk.cwd.base = some .dir)
      (built : (new root settings (some debounce)).outcome W = .ok w)
      (scanned : (Scan.run root settings fun _ => pure ()).outcome W = .ok (s, summary)) :
      Watched w s W.disk
  | look {w w' : Watcher} {s s' : Store} {d : Disk} {W : World} {now : Number}
      {onUpdate : Store → Sweep Unit} {result : Except Fault Tick} (before : Watched w s d)
      (look : Look w d W now)
      (run : (w.poll s now onUpdate).outcome W = .ok (w', s', result)) : Watched w' s' W.disk

/-- A watch is started with a look at its root, the real path of what it is asked for. -/
theorem run_new (settings : CleanerSettings) {real : Path} (hW : W.Quiet)
    (hreal : (Sweep.resolve (Path.ofString root)).outcome W = .ok real)
    (hnormal : Path.Normal real.text) (hn : '\x00' ∉ real.text.toList)
    (debounce : Option Number) :
    (new root settings debounce).outcome W = .ok ⟨real.text, settings, debounce,
      stamps W.disk (Scan.listed W.disk settings real.text), none⟩ := by
  obtain ⟨W₁, hr₁, -⟩ := run_snapshot settings hW hnormal hn
  unfold new outcome
  rw [run_bind_eq (run_resolve hreal)]
  exact congrArg Prod.fst (run_bind_eq hr₁ _)

/-- A watch starts with a store that is current. -/
theorem current_of_new {debounce : Number} {summary : ScanSummary} (hW : W.Quiet)
    (hd : W.disk.Proper) (hc : W.disk.node? W.disk.cwd.base = some .dir)
    (hnew : (new root settings (some debounce)).outcome W = .ok w)
    (hscan : (Scan.run root settings fun _ => pure ()).outcome W = .ok (s, summary)) :
    Current w s W.disk := by
  obtain ⟨real, top, hreal, -, ha, hn, rfl, -⟩ := Scan.recorded_of_run hW hd
    (fun _ => calm_pure ()) (Prod.ext hscan rfl)
  have hnormal := normal_of_resolve hd hc hreal
  obtain rfl : real.text = top :=
    Except.ok.inj ((outcome_absolute_of_normal hnormal).symm.trans ha)
  rw [run_new settings hW hreal hnormal hn] at hnew
  obtain rfl := Except.ok.inj hnew
  exact ⟨hnormal, hn, rfl, rfl, Scan.ordered_recorded _ _ _, fun e => lookup_of_recorded,
    fun _ => rfl, fun since hsince => by cases hsince⟩

/-- A look from a store that is current: the watch and the store after it, and the surroundings in
which the store is told. -/
theorem Current.poll {now : Number} (h : Current w s d) (hl : Look w d W now) :
    ∃ w' s' W', W.Still W' ∧ Current w' s' W.disk ∧ w'.root = w.root ∧ w'.settings = w.settings ∧
      (∀ onUpdate, ∃ result, (w.poll s now onUpdate).outcome W = .ok (w', s', result)) ∧
      (s'.items ≠ s.items → ∀ onUpdate,
        (w.poll s now onUpdate).after W = (onUpdate s').after W') := by
  obtain ⟨real, hreal, hsame⟩ := hl.real
  obtain ⟨b, hdir⟩ := hl.asked
  obtain ⟨limit, hlimit⟩ := Option.isSome_iff_exists.1 h.limit
  obtain ⟨due, hdue⟩ := isDue_eq_ok (w := w.noted W.disk now) hlimit hl.clock
    fun since => isFloatable_of_noted h.waiting hl.clock
  obtain ⟨found, hfound⟩ : ∃ found, found = if due && b then some (w.scanned W.disk) else none :=
    ⟨_, rfl⟩
  have hscan : due = true → ∀ W₁, W.Still W₁ → ∃ W₂,
      ((w.noted W.disk now).settled true).rescan.run.run W₁ = (.ok found, W₂) ∧ W₁.Still W₂ := by
    rintro rfl W₁ h₁
    obtain ⟨W₂, hr₂, h₂⟩ := run_rescan (w := (w.noted W.disk now).settled true) h₁.quiet
      (h₁.disk ▸ hl.proper) h.normal h.plain ((outcome_resolve_of_disk h₁.disk _).trans hreal) hsame
      ((outcome_isDirectory_of_disk h₁.disk _).trans hdir)
    rw [h₁.disk] at hr₂
    rw [hfound]
    exact ⟨W₂, hr₂, h₂⟩
  obtain ⟨W₁, h₁, hrun⟩ := run_poll s found hl.quiet h.normal h.plain hdue
    (by rintro rfl; exact hfound) hscan
  refine ⟨_, _, W₁, h₁, h.look hl hdir hfound, root_settled _ _, settings_settled _ _, ?_, ?_⟩
  · intro onUpdate
    unfold outcome
    rw [hrun onUpdate]
    exact outcome_tell _ _ _ _ _
  · intro hchange onUpdate
    unfold after
    rw [hrun onUpdate]
    refine after_tell _ _ _ ?_ _
    cases found with
    | some scanned => simp
    | none =>
      cases hgone : (w.differences W.disk).deleted.isEmpty with
      | true => exact absurd (congrArg Store.items (without_nil s hgone)) hchange
      | false => rfl

/-- The store is current all along. -/
theorem Watched.current (h : Watched w s d) : Current w s d := by
  induction h with
  | start quiet proper here built scanned => exact current_of_new quiet proper here built scanned
  | look _ look run ih =>
    obtain ⟨w₁, s₁, -, -, hcurrent, -, -, hrun, -⟩ := ih.poll look
    obtain ⟨result, hrun⟩ := hrun _
    rw [hrun] at run
    obtain ⟨rfl, hrest⟩ := Prod.mk.inj (Except.ok.inj run)
    obtain ⟨rfl, -⟩ := Prod.mk.inj hrest
    exact hcurrent

/-- Every look of a watch is carried out, whatever is done when the store is told. After it every
recorded path is in the snapshot that was taken of the tree. If no changes are awaited, the store is
what a scan of the tree records, or empty where the root is no directory. If the look has changed
the store, the store is told as it is now. -/
theorem store_current_after_look {now : Number} (h : Watched w s d) (hl : Look w d W now) :
    ∃ w' s' W', W.Still W' ∧
      (∀ onUpdate, ∃ result, (w.poll s now onUpdate).outcome W = .ok (w', s', result)) ∧
      (snapshot w.root w.settings).outcome W = .ok w'.seen ∧
      (∀ path ∈ s'.paths, path ∈ w'.seen.map (·.1)) ∧
      (w'.pendingSince = none →
        ((Sweep.isDirectory w.root).outcome W = .ok true →
          ∃ summary, (Scan.run w.root w.settings fun _ => pure ()).outcome W' =
            .ok (s', summary)) ∧
        ((Sweep.isDirectory w.root).outcome W = .ok false → s'.items = [])) ∧
      (s'.items ≠ s.items → ∀ onUpdate,
        (w.poll s now onUpdate).after W = (onUpdate s').after W') := by
  have hw := h.current
  obtain ⟨w', s', W₁, h₁, hcurrent, hroot, hsettings, hrun, htold⟩ := hw.poll hl
  have hseen : w'.seen = w.sight W.disk := by
    rw [hcurrent.seen, sight, sight, hroot, hsettings]
  refine ⟨w', s', W₁, h₁, hrun, ?_, ?_, ?_, htold⟩
  · obtain ⟨W₂, hr₂, -⟩ := run_snapshot w.settings hl.quiet hw.normal hw.plain
    rw [outcome, hr₂, hseen]
    rfl
  · intro path hpath
    obtain ⟨e, he, rfl⟩ := List.mem_map.1 hpath
    obtain ⟨stamp, hstamp⟩ := Option.isSome_iff_exists.1 (hcurrent.known e he)
    exact List.mem_map.2 ⟨_, mem_of_lookup hstamp, rfl⟩
  · intro hnone
    have hfresh : s' = w.scanned W.disk := by
      rw [hcurrent.fresh hnone, scanned, scanned, hroot, hsettings]
    constructor
    · intro hdir
      obtain ⟨real, hreal, hsame⟩ := hl.real
      obtain ⟨summary, W₂, hr₂, -⟩ := run_scan_real w.settings h₁.quiet
        (h₁.disk ▸ hl.proper) hw.normal hw.plain
        ((outcome_resolve_of_disk h₁.disk _).trans hreal) hsame
        ((outcome_isDirectory_of_disk h₁.disk _).trans hdir)
      rw [h₁.disk] at hr₂
      rw [hfresh]
      exact ⟨summary, congrArg Prod.fst hr₂⟩
    · intro hdir
      rw [hfresh, scanned, listed_eq_nil hdir hw.plain]
      rfl

open Scan (bothPaths logOnly oneCall twins)

/-- The second of two files, after the first was removed. -/
def oneLeft : World :=
  { twins with disk := { twins.disk with nodes := [(["b.js"], .file oneCall (.at 0))] } }

/-- A watch over two files. -/
def overTwins : Watcher :=
  ⟨"/", logOnly, some (.int 2), stamps twins.disk ["/a.js", "/b.js"], none⟩

theorem normal_slash : Path.Normal "/" :=
  ⟨"/", [], .inl rfl, by simp, by decide⟩

theorem watched_twins : Watched overTwins bothPaths twins.disk := by
  have hd : twins.disk.Proper := by decide
  have hreal : (Sweep.resolve (Path.ofString "/")).outcome twins = .ok ⟨"/", []⟩ := by cbv
  obtain ⟨ha, hb⟩ := Scan.file?_twins
  obtain ⟨summary, W, hscan, -⟩ := Scan.run_scan_beside hd ha hb rfl rfl Scan.entryDir?_twins
  have hnew := run_new logOnly (Scan.quiet_beside _) hreal normal_slash (by decide)
    (some (.int 2))
  have hlisted : Scan.listed twins.disk logOnly "/" = ["/a.js", "/b.js"] :=
    Scan.listed_beside Scan.entryDir?_twins
  refine .start (Scan.quiet_beside _) hd (by decide) (hnew.trans ?_) (congrArg Prod.fst hscan)
  exact congrArg (fun files => Except.ok (Watcher.mk "/" logOnly (some (.int 2))
    (stamps twins.disk files) none)) hlisted

theorem stampOf?_oneLeft : stampOf? oneLeft.disk "/a.js" = none := by cbv

theorem quiet_oneLeft : oneLeft.Quiet :=
  ⟨by rintro m ⟨⟩, rfl⟩

theorem look_oneLeft : Look overTwins twins.disk oneLeft (.int 5) := by
  have hthere : oneLeft.disk.read "/b.js" = twins.disk.read "/b.js" := by cbv
  refine ⟨quiet_oneLeft, by decide, ⟨⟨"/", []⟩, by cbv, by decide⟩, ⟨true, by cbv⟩, by decide, ?_⟩
  intro path stamp hold hnew
  obtain ⟨hmem, -⟩ := mem_stamps.1 hold
  rcases List.mem_pair.1 hmem with rfl | rfl
  · have hstamp := (mem_stamps.1 hnew).2
    rw [stampOf?_oneLeft] at hstamp
    cases hstamp
  · exact hthere

/-- The file that was removed leaves the store, and the store is told. -/
theorem store_current_after_removal :
    ∃ w' s' W', "/a.js" ∉ s'.paths ∧ ∀ onUpdate,
      (∃ result, (overTwins.poll bothPaths (.int 5) onUpdate).outcome oneLeft =
        .ok (w', s', result)) ∧
      (overTwins.poll bothPaths (.int 5) onUpdate).after oneLeft = (onUpdate s').after W' := by
  obtain ⟨w', s', W', -, hrun, hsnap, hknown, -, htold⟩ :=
    store_current_after_look watched_twins look_oneLeft
  have hgone : "/a.js" ∉ s'.paths := by
    intro hmem
    obtain ⟨⟨path, stamp⟩, hseen, rfl⟩ := List.mem_map.1 (hknown _ hmem)
    obtain ⟨W₁, hr₁, -⟩ := run_snapshot logOnly quiet_oneLeft normal_slash (by decide)
    have hstamps : w'.seen = stamps oneLeft.disk (Scan.listed oneLeft.disk logOnly "/") :=
      Except.ok.inj (hsnap.symm.trans (congrArg Prod.fst hr₁))
    rw [hstamps] at hseen
    have hstamp := (mem_stamps.1 hseen).2
    rw [stampOf?_oneLeft] at hstamp
    cases hstamp
  refine ⟨w', s', W', hgone, fun onUpdate => ⟨hrun onUpdate, htold ?_ onUpdate⟩⟩
  intro hsame
  refine hgone ?_
  unfold Store.paths
  rw [hsame]
  decide

/-! ## A root that becomes a link -/

/-- A directory with one file in it, which has a call. -/
def inPlace : World :=
  { twins with disk := { twins.disk with
      nodes := [(["r"], .dir), (["r", "a.js"], .file oneCall (.at 0))] } }

/-- The directory was moved, a link has its old name, and the file was written again. -/
def movedAway : World :=
  { twins with disk := { twins.disk with
      nodes := [(["q"], .dir), (["q", "a.js"], .file oneCall (.at 1)), (["r"], .link "q")] } }

/-- A watch over the directory. -/
def overPlace : Watcher :=
  ⟨"/r", logOnly, some (.int 0), stamps inPlace.disk ["/r/a.js"], none⟩

theorem listed_single {top : String} {r : Place} (h : d.Shows ⟨top, r⟩) (hr : r ∈ d.dirPlaces)
    (hn : d.names r = ["a.js"]) (he : d.entryDir? ⟨top, r⟩ "a.js" = none) :
    Scan.listed d logOnly top = [Path.join top "a.js"] := by
  rw [Scan.listed_of_no_dirs h hr (by rw [hn]; simpa using he), hn]
  rfl

theorem recorded_single {f : File} (h : d.file? path = some f) (hb : f.bytes = oneCall) :
    Scan.recorded d logOnly.methods [path] = ⟨[(path, 1)]⟩ := by
  simp only [Scan.recorded, List.foldl_cons, List.foldl_nil, Scan.Tally.look,
    Scan.calls?_of_oneCall h hb]
  rfl

theorem normal_slash_r : Path.Normal "/r" :=
  ⟨"/", ["r"], .inl rfl, List.forall_mem_singleton.2 ⟨by decide, by decide⟩, by decide⟩

theorem listed_inPlace : Scan.listed inPlace.disk logOnly "/r" = ["/r/a.js"] := by
  have hnames : inPlace.disk.names ["r"] = ["a.js"] := List.mergeSort_singleton "a.js"
  rw [listed_single (r := ["r"]) ⟨rfl, by cbv⟩ (by decide) hnames (by cbv)]
  decide

theorem watched_inPlace : Watched overPlace ⟨[("/r/a.js", 1)]⟩ inPlace.disk := by
  have hd : inPlace.disk.Proper := by decide
  have hW : inPlace.Quiet := ⟨by rintro m ⟨⟩, rfl⟩
  have hreal : (Sweep.resolve (Path.ofString "/r")).outcome inPlace = .ok ⟨"/", ["r"]⟩ := by cbv
  have htext : (Path.mk "/" ["r"]).text = "/r" := by decide
  have hfile : inPlace.disk.file? "/r/a.js" = some ⟨["r", "a.js"], oneCall, .at 0⟩ := by cbv
  have hnew := run_new logOnly hW hreal (htext ▸ normal_slash_r) (by decide)
    (some (.int 0))
  obtain ⟨summary, W, hscan, -⟩ := run_scan_real logOnly hW hd normal_slash_r
    (by decide) hreal htext (by cbv)
  rw [listed_inPlace, recorded_single hfile rfl] at hscan
  rw [htext, listed_inPlace] at hnew
  exact .start hW hd (by decide) hnew (congrArg Prod.fst hscan)

theorem listed_movedAway {top : String} (h : movedAway.disk.Shows ⟨top, ["q"]⟩)
    (he : movedAway.disk.entryDir? ⟨top, ["q"]⟩ "a.js" = none) :
    Scan.listed movedAway.disk logOnly top = [Path.join top "a.js"] :=
  listed_single h (by decide) (List.mergeSort_singleton "a.js") he

/-- A scan after the move asks for the real path of the root. -/
theorem run_rescan_movedAway {now : Number} (h : movedAway.Still W) :
    ∃ W', ((overPlace.noted movedAway.disk now).settled true).rescan.run.run W =
      (.ok (some ⟨[("/q/a.js", 1)]⟩), W') ∧ W.Still W' := by
  have hd : movedAway.disk.Proper := by decide
  have hlisted : Scan.listed movedAway.disk logOnly "/q" = ["/q/a.js"] :=
    listed_movedAway ⟨rfl, by cbv⟩ (by cbv)
  have hfile : movedAway.disk.file? "/q/a.js" = some ⟨["q", "a.js"], oneCall, .at 1⟩ := by cbv
  have hreal : (Sweep.resolve (Path.ofString "/r")).outcome movedAway = .ok ⟨"/", ["q"]⟩ := by cbv
  have hdir : (Sweep.isDirectory "/q").outcome movedAway = .ok true := by cbv
  have ha : (Sweep.absolute "/q").outcome W = .ok "/q" := by cbv
  obtain ⟨summary, W₁, hr₁, h₁⟩ := Scan.run_scan logOnly h.quiet
    (h.disk ▸ hd) (fun _ => calm_pure ())
    (run_resolve ((outcome_resolve_of_disk h.disk _).trans hreal))
    (run_isDirectory ((outcome_isDirectory_of_disk h.disk _).trans hdir)) ha (by decide)
  have attempted := run_attempt (Scan.run "/r" logOnly fun _ => pure ()) W
  rw [hr₁, h.disk, hlisted, recorded_single hfile rfl] at attempted
  exact ⟨W₁, run_bind_eq attempted _, h₁⟩

/-- The look after the move records the file where it is now, and has seen it where it was. -/
theorem stray_after_move :
    Watched overPlace ⟨[("/r/a.js", 1)]⟩ inPlace.disk ∧ ∃ w' s',
      (∀ onUpdate, ∃ result,
        (overPlace.poll ⟨[("/r/a.js", 1)]⟩ (.int 0) onUpdate).outcome movedAway =
          .ok (w', s', result)) ∧
      "/q/a.js" ∈ s'.paths ∧ "/q/a.js" ∉ w'.seen.map (·.1) := by
  have hsight : overPlace.sight movedAway.disk = [("/r/a.js", .at 1)] := by
    have hlisted : Scan.listed movedAway.disk logOnly "/r" = ["/r/a.js"] :=
      listed_movedAway ⟨rfl, by cbv⟩ (by cbv)
    have hstamps : stamps movedAway.disk ["/r/a.js"] = [("/r/a.js", .at 1)] := by cbv
    exact (congrArg (stamps movedAway.disk) hlisted).trans hstamps
  have hdiff : overPlace.differences movedAway.disk = ⟨[], ["/r/a.js"], [], false⟩ := by
    have hold : overPlace.seen = [("/r/a.js", .at 0)] := by cbv
    rw [differences, hold, hsight]
    simp [compare, sorted]
  have hdue : (overPlace.noted movedAway.disk (.int 0)).isDue (.int 0) = .ok true := by
    rw [noted, hdiff]
    rfl
  obtain ⟨W₁, -, hrun⟩ := run_poll (W := movedAway) ⟨[("/r/a.js", 1)]⟩
    (some ⟨[("/q/a.js", 1)]⟩) ⟨by rintro m ⟨⟩, rfl⟩ normal_slash_r (by decide) hdue (by simp)
    fun _ W₁ h₁ => run_rescan_movedAway h₁
  refine ⟨watched_inPlace, (overPlace.noted movedAway.disk (.int 0)).settled true,
    ⟨[("/q/a.js", 1)]⟩, fun onUpdate => ?_, List.mem_cons_self, ?_⟩
  · unfold outcome
    rw [hrun onUpdate]
    exact outcome_tell _ _ _ _ _
  · rw [seen_settled, noted, note, hsight]
    decide

end ConsoleSweep.Watcher
