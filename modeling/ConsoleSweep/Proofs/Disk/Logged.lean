/-
  What a log leaves as it is.

  Log lines go to files that are open, beside the work itself. As long as the open files
  stand in the tree, no line makes a new one, so a proper tree stays proper
  (`World.Orderly.later`). Directories and links are not touched: a path that leads to a
  directory still does, under the same real path (`leadsToDirectory_of_later`).
-/
import ConsoleSweep.Proofs.Begin

namespace ConsoleSweep

namespace Disk

variable {A : Place → Prop} {d d' : Disk} {p : Place} {path : String}

theorem Writes.linkPlaces_eq (h : Writes A d d') : d'.linkPlaces = d.linkPlaces := by
  induction h with
  | refl => rfl
  | @put d₁ p _ _ free bytes ih =>
    have hlink : ∀ target, d₁.node? p ≠ some (.link target) := by
      rcases free with hf | hn
      · exact hf.not_link
      · exact not_link_of_vacant hn
    exact (linkPlaces_putFile (ne_nil_of_free free) hlink bytes).trans ih

theorem Writes.grows (h : Writes A d d') : Grows d d' :=
  ⟨fun _ => h.node?_of_dir, fun _ _ => h.node?_of_link, fun _ => h.hasFile, h.cwd_eq,
    h.linkPlaces_eq, h.medium_eq⟩

/-- No key comes or goes if a file is there already. -/
theorem keys_putFile (h : HasFile d p) (bytes : Text.Bytes) :
    (d.putFile p bytes).nodes.map (·.1) = d.nodes.map (·.1) := by
  obtain ⟨old, stamp, hf⟩ := h
  have hsome : (d.nodes.lookup p).isSome = true := by
    unfold node? at hf
    split at hf
    · cases hf
    · rw [hf]
      rfl
  simp only [putFile, setNode, hsome, if_true, List.map_map]
  refine List.map_congr_left fun e _ => ?_
  simp only [Function.comp]
  split
  · next he => exact he.symm
  · rfl

/-- A tree stays proper if a file in it is written anew. -/
theorem Proper.putFile (hd : d.Proper) (h : HasFile d p) (bytes : Text.Bytes) :
    (d.putFile p bytes).Proper := by
  have hkeys := keys_putFile h bytes
  have key : ∀ e ∈ (d.putFile p bytes).nodes, ∃ e' ∈ d.nodes, e'.1 = e.1 := by
    intro e he
    have hmem : e.1 ∈ (d.putFile p bytes).nodes.map (·.1) := List.mem_map_of_mem he
    rw [hkeys] at hmem
    exact List.mem_map.1 hmem
  refine ⟨hkeys ▸ hd.once, ?_, ?_⟩
  · intro e he
    obtain ⟨e', he', hsame⟩ := key e he
    exact hsame ▸ hd.named e' he'
  · intro e he
    obtain ⟨e', he', hsame⟩ := key e he
    have habove := hd.above e' he'
    rw [hsame] at habove
    have hne : e.1.dropLast ≠ p := by
      rintro rfl
      obtain ⟨old, stamp, hf⟩ := h
      rw [habove] at hf
      cases hf
    rw [node?_putFile h.ne_nil, if_neg hne, habove]

/-- A tree stays proper if just files that are there are written anew. -/
theorem Writes.proper (h : Writes A d d') (hA : ∀ p, A p → HasFile d p) (hd : d.Proper) :
    d'.Proper := by
  induction h with
  | refl => exact hd
  | put h hp _ bytes ih => exact ih.putFile (h.hasFile (hA _ hp)) bytes

/-- A path leads to a directory just if it did before files were written. -/
theorem stat_eq_dir_iff_of_writes (h : Writes A d d') :
    d'.stat path = .ok .dir ↔ d.stat path = .ok .dir := by
  refine ⟨fun hd => ?_, stat_of_writes h⟩
  obtain ⟨hok, herror⟩ := locate_of_writes h true path
  unfold stat at hd ⊢
  cases hl : d.locate true path with
  | error e =>
    obtain ⟨e', he'⟩ := herror e hl
    rw [he'] at hd
    cases hd
  | ok found =>
    have hat := isAt_of_locate hl
    rw [hok found hl] at hd
    cases found with
    | gone a => rfl
    | vacant dir name =>
      rcases h.node?_of_free hat with hn | ⟨bytes, stamp, hn⟩
      · simp [Found.renew, hn] at hd
      · simp [Found.renew, hn] at hd
    | node q n =>
      cases n with
      | dir => rfl
      | link target => simp [Found.renew] at hd
      | file bytes stamp =>
        obtain ⟨bytes', stamp', hn⟩ := h.hasFile (q := q) ⟨bytes, stamp, hat⟩
        simp [Found.renew, hn] at hd

end Disk

/-! ## Surroundings -/

/-- Surroundings as the program keeps them: the counters are in order, the tree is a proper one, and
the working directory and the open files are in it. -/
structure World.Orderly (w : World) : Prop where
  sound : w.Sound
  proper : w.disk.Proper
  workDir : w.disk.node? w.disk.cwd.base = some .dir
  held : ∀ p, Disk.Open w.disk p → Disk.HasFile w.disk p

variable {w w' : World}

/-- They are in order still when something was logged. -/
theorem World.Orderly.later (h : w.Orderly) (hl : w.Later Nowhere w') : w'.Orderly := by
  have hfile : ∀ p, Disk.Open w.disk p ∨ Nowhere p → Disk.HasFile w.disk p := by
    rintro p (ho | hn)
    · exact h.held p ho
    · exact hn.elim
  refine ⟨hl.sound, hl.disk.proper hfile h.proper, ?_, fun p hp => ?_⟩
  · rw [hl.disk.cwd_eq]
    exact hl.disk.node?_of_dir h.workDir
  · exact hl.disk.hasFile (h.held p (hl.disk.open_iff.1 hp))

namespace Sweep

variable {root : String}

/-- The root of a scan has a real path, and that of a directory. -/
def LeadsToDirectory (root : String) (w : World) : Prop :=
  ∃ real, (resolve (Path.ofString root)).outcome w = .ok real ∧
    (isDirectory real.text).outcome w = .ok true

theorem leadsToDirectory_iff (hw : w.Orderly) : LeadsToDirectory root w ↔
    '\x00' ∉ (Path.ofString root).text.toList ∧ ∃ real : String,
      w.disk.realPath? (Path.ofString root).text = some real ∧ '\x00' ∉ real.toList ∧
        w.disk.stat real = .ok .dir := by
  constructor
  · rintro ⟨p, hp, hdir⟩
    obtain ⟨hn, real, hreal, rfl⟩ := exists_of_resolve hp
    rw [(Disk.normal_of_realPath? hw.proper hw.workDir hreal).text_ofString] at hdir
    exact ⟨hn, real, hreal, stat_of_isDirectory hdir⟩
  · rintro ⟨hn, real, hreal, hnul, hstat⟩
    refine ⟨Path.ofString real, ?_, ?_⟩
    · unfold resolve outcome
      rw [run_bind_eq (run_checkPath hn w), run_bind_eq (run_world w)]
      simp only [hreal, hstat]
      rfl
    · rw [(Disk.normal_of_realPath? hw.proper hw.workDir hreal).text_ofString]
      exact congrArg Prod.fst (run_isDirectory_of_stat hnul hstat)

/-- Where a root leads is not changed by what is logged. -/
theorem leadsToDirectory_of_later (hw : w.Orderly) (hl : w.Later Nowhere w') :
    LeadsToDirectory root w' ↔ LeadsToDirectory root w := by
  rw [leadsToDirectory_iff hw, leadsToDirectory_iff (hw.later hl),
    Disk.realPath?_of_grows hw.proper hl.disk.grows]
  simp only [Disk.stat_eq_dir_iff_of_writes hl.disk]

end Sweep

end ConsoleSweep
