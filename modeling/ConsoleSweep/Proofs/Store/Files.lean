/-
  Stores come back from their files.

  The text of a store can be read back as soon as it can be written: its keys are told apart
  by their order, and its counts are short enough (`legible_sortedJson`). Recording the
  entries of a store one after the other gives the store again (`addEntries_fields`), so
  loading gives what was saved (`run_load_of_text`).
-/
import ConsoleSweep.Proofs.Calm
import ConsoleSweep.Proofs.Json.RoundTrip
import ConsoleSweep.Proofs.Store
import ConsoleSweep.Proofs.Text.Utf8
import ConsoleSweep.Store.Files

namespace ConsoleSweep.Store

open ConsoleSweep.Sweep

variable {s : Store} {p : Path} {w w' : World}

/-! ## The text of a store -/

theorem map_fst_fields (s : Store) : s.fields.map (·.1) = s.paths := by
  simp [fields, paths]

/-- A store that can be written can be read back. -/
theorem legible_sortedJson (ho : s.Ordered) (h : s.toJson.isWritable = true) :
    Json.Legible Json.depthLimit s.sortedJson := by
  have hfields : Json.haveWritable s.fields = true := by
    simp only [toJson, Json.isWritable, Json.haveWritable, Bool.and_eq_true] at h
    exact h.2.1
  have hcounts : Json.LegibleFields (Json.depthLimit - 1 - 1) s.fields := by
    refine Json.legibleFields_iff.2 fun f hf => ?_
    have hshort := Json.haveWritable_iff.1 hfields f hf
    obtain ⟨e, -, rfl⟩ := List.mem_map.1 hf
    simpa [Json.isWritable, Json.Legible] using hshort
  have hkeys : (s.fields.map (·.1)).Nodup := map_fst_fields s ▸ ho.nodup_paths
  refine ⟨by decide, by simp, ⟨by decide, hkeys, hcounts⟩, ?_, trivial⟩
  simp only [Json.Legible]
  decide

theorem parse_render (ho : s.Ordered) (h : s.toJson.isWritable = true) :
    Json.parse (Text.unifyBreaks s.render) = .ok s.sortedJson := by
  have hl := legible_sortedJson ho h
  unfold render
  rw [Json.unifyBreaks_of_printed Json.printed_indented, Json.parse_indented hl]

/-! ## The entries of a store -/

theorem addEntries_ints (t : Store) (items : List (String × Int)) :
    t.addEntries (items.map fun (p, n) => (p, .int n)) =
      ([], .ok (items.foldl (fun s e => s.setCount e.1 e.2) t)) := by
  induction items generalizing t with
  | nil => rfl
  | cons e items ih => exact ih (t.setCount e.1 e.2)

/-- Recording the entries of a store gives the store. -/
theorem addEntries_fields (ho : s.Ordered) (hpos : ∀ e ∈ s.items, 0 < e.2) :
    empty.addEntries s.fields = ([], .ok s) := by
  have hsame : s.items.foldl (fun s e => s.setCount e.1 e.2) empty = ofCounts s.items := by
    refine List.foldl_ext _ _ _ fun t e he => ?_
    rw [setCount, if_pos (hpos e he), if_pos (hpos e he)]
  have hstore : ofCounts s.items = s :=
    ext_of_ordered (ordered_ofCounts _) ho fun _ => (perm_ofCounts ho.nodup_paths hpos).mem_iff
  unfold fields
  rw [addEntries_ints, hsame, hstore]

/-! ## Files -/

/-- A file with the text of a store is loaded as that store. -/
theorem run_load_of_text (ho : s.Ordered) (hpos : ∀ e ∈ s.items, 0 < e.2)
    (hs : s.toJson.isWritable = true) (hn : '\x00' ∉ p.text.toList)
    (ht : w.disk.text? p.text = some s.render) : (load p).run.run w = (.ok s, w) := by
  have hexists : (pathExists p).run.run w = (.ok true, w) := by
    obtain ⟨f, hf, -⟩ := Option.bind_eq_some_iff.1 ht
    exact run_pathExists_of_stat hn (stat_of_file? hf)
  have hread : (readJson p.text).run.run w = (.ok s.sortedJson, w) := by
    unfold readJson
    rw [run_bind_eq (run_readText hn ht), parse_render ho hs]
    rfl
  have hfiles : filesOf? s.sortedJson = some s.fields := by
    simp [filesOf?, sortedJson, Json.get?, Json.fields?]
  unfold load
  rw [run_bind_eq hexists, Bool.not_true, if_neg Bool.false_ne_true, run_bind_eq (run_attempt _ w),
    hread]
  simp only [hfiles, addEntries_fields ho hpos]
  rfl

/-- A text that was written is found under the path, unless that leads to a device. -/
theorem text?_of_writeText {path : String} {text : List Char}
    (h : (writeText path text).run.run w = (.ok (), w')) (hr : w'.disk.Retains path) :
    '\x00' ∉ path.toList ∧ w'.disk.text? path = some text := by
  obtain ⟨hn, f, hf, hb⟩ := exists_file_of_writeText h hr
  refine ⟨hn, ?_⟩
  unfold Disk.text?
  rw [hf, Option.bind_some, hb, Text.decode_encode]
  rfl

theorem run_save {disk : Disk} (hs : s.toJson.isWritable = true)
    (hmade : (makeDirs p.parent).run.run w = (.ok (), w')) (hn : '\x00' ∉ p.text.toList)
    (hwrite : w'.disk.write p.text (Text.encode s.render) = .ok disk) :
    (s.save p).run.run w = (.ok (), { w' with disk }) := by
  unfold save
  rw [run_bind_eq hmade, hs, Bool.not_true, if_neg Bool.false_ne_true]
  exact run_writeText_of_write hn hwrite

/-- The parts of a save. -/
theorem exists_of_run_save (h : (s.save p).run.run w = (.ok (), w')) :
    s.toJson.isWritable = true ∧ ∃ w₁, (makeDirs p.parent).run.run w = (.ok (), w₁) ∧
      (writeText p.text s.render).run.run w₁ = (.ok (), w') := by
  obtain ⟨u, w₁, hmade, h⟩ := exists_of_run_bind h
  cases hs : s.toJson.isWritable with
  | true =>
    rw [hs, Bool.not_true, if_neg Bool.false_ne_true] at h
    exact ⟨rfl, w₁, hmade, h⟩
  | false =>
    rw [hs, Bool.not_false, if_pos rfl] at h
    cases congrArg Prod.fst h

/-- There is a file where a store was saved. -/
theorem exists_file?_of_save (h : (s.save p).run.run w = (.ok (), w')) :
    ∃ f, w'.disk.file? p.text = some f := by
  obtain ⟨-, w₁, -, hwritten⟩ := exists_of_run_save h
  obtain ⟨-, d, hd, rfl⟩ := exists_of_run_writeText hwritten
  obtain ⟨f, hf, -⟩ := Disk.exists_file?_of_written hd
  exact ⟨f, hf⟩

/-- A store that was saved can be written, and its text is in its file. -/
theorem text?_of_save (h : (s.save p).run.run w = (.ok (), w')) (hr : w'.disk.Retains p.text) :
    s.toJson.isWritable = true ∧ '\x00' ∉ p.text.toList ∧
      w'.disk.text? p.text = some s.render := by
  obtain ⟨hs, w₁, -, hwritten⟩ := exists_of_run_save h
  exact ⟨hs, text?_of_writeText hwritten hr⟩

/-- Saving and loading loses nothing: what was saved is loaded, whatever is in the keys and however
large the counts are. A device keeps nothing, and is the one thing that a store cannot be saved
to. -/
theorem load_after_save (ho : s.Ordered) (hpos : ∀ e ∈ s.items, 0 < e.2)
    (h : (s.save p).run.run w = (.ok (), w')) (hr : w'.disk.Retains p.text) :
    (load p).run.run w' = (.ok s, w') := by
  obtain ⟨hs, hn, ht⟩ := text?_of_save h hr
  exact run_load_of_text ho hpos hs hn ht

/-- Keys with quotes, a backslash, control characters, a line separator and a character beyond the
basic plane. -/
def oddKeys : Store :=
  ⟨[("\x00\x1f\r\n", 3), ("\"\\", 100000000000000000000), ("\u2028", 1), ("😀", 2)]⟩

/-- A tree without files. -/
def bareWorld : World :=
  { disk := ⟨[], ⟨[], 0⟩, [], 0, {}⟩
    env := [], homes := [], now := .int 0, logTime := .int 0, logging := {}, journal := [],
    metrics := none, out := "", err := "", input := [] }

/-- `load_after_save` at a store with such keys. -/
theorem load_after_save_oddKeys :
    (load ⟨"/", ["s.json"]⟩).outcome ((oddKeys.save ⟨"/", ["s.json"]⟩).after bareWorld) =
      .ok oddKeys := by
  have ho : oddKeys.Ordered := by
    unfold Ordered
    decide
  have hpos : ∀ e ∈ oddKeys.items, 0 < e.2 := by decide
  have hmade : (makeDirs (Path.mk "/" ["s.json"]).parent).run.run bareWorld =
      (.ok (), bareWorld) :=
    run_makeDirs (by decide) (Disk.stat_slash _)
  have hs : oddKeys.toJson.isWritable = true := by decide
  have hfree : bareWorld.disk.locate true "/s.json" = .ok (.vacant [] "s.json") := by
    rw [Disk.locate_of_names ["s.json"] (by decide +kernel)]
    exact Disk.locateFrom_vacant (by decide) (by decide +kernel) rfl
  have hwrite : bareWorld.disk.write (Path.mk "/" ["s.json"]).text (Text.encode oddKeys.render) =
      .ok (bareWorld.disk.putFile ["s.json"] (Text.encode oddKeys.render)) := by
    unfold Disk.write Disk.update
    rw [show (Path.mk "/" ["s.json"]).text = "/s.json" from by decide +kernel, hfree]
    rfl
  have hsave := run_save hs hmade (by decide) hwrite
  have hkept : (bareWorld.disk.putFile ["s.json"] (Text.encode oddKeys.render)).Retains
      (Path.mk "/" ["s.json"]).text := fun _ _ => List.not_mem_nil
  unfold after
  rw [hsave]
  exact congrArg Prod.fst (load_after_save ho hpos hsave hkept)

/-- A tree with a device. -/
def deviceWorld : World :=
  { bareWorld with
    disk := ⟨[(["null"], .file [] (.at 0))], ⟨[], 0⟩, [], 0, { sinks := [["null"]] }⟩ }

theorem file?_deviceWorld : deviceWorld.disk.file? "/null" = some ⟨["null"], [], .at 0⟩ := by
  rw [Disk.file?_eq_some, Disk.locate_of_names ["null"] (by decide +kernel)]
  exact Disk.locateFrom_file (by decide) (by decide +kernel) rfl

/-- A device takes any store, and nothing comes back from it. -/
theorem load_after_save_to_device :
    oddKeys.Ordered ∧ (∀ e ∈ oddKeys.items, 0 < e.2) ∧
      (oddKeys.save ⟨"/", ["null"]⟩).run.run deviceWorld = (.ok (), deviceWorld) ∧
      (load ⟨"/", ["null"]⟩).outcome deviceWorld = .ok empty := by
  have hmade : (makeDirs (Path.mk "/" ["null"]).parent).run.run deviceWorld =
      (.ok (), deviceWorld) :=
    run_makeDirs (by decide) (Disk.stat_slash _)
  have hwrite : deviceWorld.disk.write (Path.mk "/" ["null"]).text (Text.encode oddKeys.render) =
      .ok deviceWorld.disk :=
    Disk.update_of_sink file?_deviceWorld rfl rfl List.mem_cons_self
  have hsave := run_save (by decide) hmade (by decide) hwrite
  refine ⟨by unfold Ordered; decide, by decide, hsave, ?_⟩
  have hread : (readJson (Path.mk "/" ["null"]).text).run.run deviceWorld =
      (.error (.badValue "Expecting value: line 1 column 1 (char 0)"), deviceWorld) := by
    unfold readJson
    have htext : deviceWorld.disk.text? (Path.mk "/" ["null"]).text = some [] := by
      unfold Disk.text?
      rw [show (Path.mk "/" ["null"]).text = "/null" from rfl, file?_deviceWorld]
      rfl
    rw [run_bind_eq (run_readText (by decide) htext)]
    rfl
  have hexists : (pathExists ⟨"/", ["null"]⟩).run.run deviceWorld = (.ok true, deviceWorld) :=
    run_pathExists_of_stat (by decide) (stat_of_file? file?_deviceWorld)
  obtain ⟨u, w', hlog, -⟩ := calm_log logger Log.warning
    "Could not read result store /null: Expecting value: line 1 column 1 (char 0)" deviceWorld
    (by rintro m ⟨⟩)
  unfold outcome load
  rw [run_bind_eq hexists, Bool.not_true, if_neg Bool.false_ne_true,
    run_bind_eq (run_attempt _ deviceWorld), hread]
  exact congrArg Prod.fst (run_bind_eq hlog _)

end ConsoleSweep.Store
