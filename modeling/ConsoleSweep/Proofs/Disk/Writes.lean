/-
  Files that are written, and where paths lead afterwards.

  A run writes into files that are there and makes new ones; as long as it makes no
  directory, the directories and links stay the same. `Writes A d d'` says that this is all
  that lies between two trees, and that the files are at places in `A`. A path then goes the
  same way through both trees (`locate_of_writes`): it leads to the same place, to what
  stands there now. So a path that leads to no place in `A` finds the file that it found
  before, or none as before (`file?_of_writes`).
-/
import ConsoleSweep.Proofs.Disk.Kept

namespace ConsoleSweep.Disk

open ConsoleSweep.Text (Bytes)

/-- Files at places in `A` were written one after the other, each there before or new. -/
inductive Writes (A : Place → Prop) : Disk → Disk → Prop where
  | refl (d : Disk) : Writes A d d
  | put {d d' : Disk} {p : Place} (h : Writes A d d') (hA : A p)
      (free : HasFile d' p ∨ d'.node? p = none) (bytes : Bytes) : Writes A d (d'.putFile p bytes)

section

variable {A B : Place → Prop} {d d' d'' : Disk} {p q : Place}

theorem ne_nil_of_free (free : HasFile d p ∨ d.node? p = none) : p ≠ [] := by
  rcases free with h | h
  · exact h.ne_nil
  · rintro rfl
    simp [node?] at h

namespace Writes

theorem trans (h : Writes A d d') (h' : Writes A d' d'') : Writes A d d'' := by
  induction h' with
  | refl => exact h
  | put _ hA free bytes ih => exact .put ih hA free bytes

theorem mono (hAB : ∀ p, A p → B p) (h : Writes A d d') : Writes B d d' := by
  induction h with
  | refl => exact .refl d
  | put _ hA free bytes ih => exact .put ih (hAB _ hA) free bytes

/-- If there is no place to write at, nothing was written. -/
theorem eq_of_none (hA : ∀ p, ¬ A p) (h : Writes A d d') : d' = d := by
  cases h with
  | refl => rfl
  | put _ hp => exact absurd hp (hA _)

theorem cwd_eq (h : Writes A d d') : d'.cwd = d.cwd := by
  induction h with
  | refl => rfl
  | put _ _ _ _ ih => exact ih

theorem held_eq (h : Writes A d d') : d'.held = d.held := by
  induction h with
  | refl => rfl
  | put _ _ _ _ ih => exact ih

theorem medium_eq (h : Writes A d d') : d'.medium = d.medium := by
  induction h with
  | refl => rfl
  | put _ _ _ _ ih => exact ih

theorem refuses_eq (h : Writes A d d') : d'.refuses p = d.refuses p := by
  unfold refuses
  rw [h.medium_eq]

theorem open_iff (h : Writes A d d') : Open d' p ↔ Open d p := by
  unfold Open
  rw [h.held_eq]

/-- Elsewhere all is as before. -/
theorem node?_eq (h : Writes A d d') (hq : ¬ A q) : d'.node? q = d.node? q := by
  induction h with
  | refl => rfl
  | put _ hA free bytes ih =>
    have hne : q ≠ _ := fun e => hq (e ▸ hA)
    rw [node?_putFile (ne_nil_of_free free), if_neg hne, ih]

/-- What stands at a place is no file, and the same in both trees, or it is a file now. -/
theorem node?_cases (h : Writes A d d') (q : Place) :
    d'.node? q = d.node? q ∨
      HasFile d' q ∧ (HasFile d q ∨ d.node? q = none) := by
  induction h with
  | refl => exact .inl rfl
  | @put d₁ p _ _ free bytes ih =>
    by_cases hq : q = p
    · subst hq
      refine .inr ⟨⟨bytes, _, by rw [node?_putFile (ne_nil_of_free free), if_pos rfl]⟩, ?_⟩
      rcases ih with ih | ih
      · unfold HasFile at free ⊢
        rwa [ih] at free
      · exact ih.2
    · rw [HasFile, node?_putFile (ne_nil_of_free free), if_neg hq]
      exact ih

theorem node?_of_dir (h : Writes A d d') (hq : d.node? q = some .dir) :
    d'.node? q = some .dir := by
  rcases h.node?_cases q with e | ⟨-, ⟨bytes, stamp, hf⟩ | hn⟩
  · rw [e, hq]
  · rw [hq] at hf; simp at hf
  · rw [hq] at hn; simp at hn

theorem node?_of_link (h : Writes A d d') {target : String}
    (hq : d.node? q = some (.link target)) : d'.node? q = some (.link target) := by
  rcases h.node?_cases q with e | ⟨-, ⟨bytes, stamp, hf⟩ | hn⟩
  · rw [e, hq]
  · rw [hq] at hf; simp at hf
  · rw [hq] at hn; simp at hn

theorem hasFile (h : Writes A d d') (hq : HasFile d q) : HasFile d' q := by
  rcases h.node?_cases q with e | ⟨hf, -⟩
  · unfold HasFile at hq ⊢
    rwa [e]
  · exact hf

/-- A free place stays free, or there is a file now. -/
theorem node?_of_free (h : Writes A d d') (hq : d.node? q = none) :
    d'.node? q = none ∨ HasFile d' q := by
  rcases h.node?_cases q with e | ⟨hf, -⟩
  · exact .inl (e.trans hq)
  · exact .inr hf

end Writes

end

/-! ## Where paths lead -/

/-- A path leads to the same place after files were written. If it led nowhere it leads nowhere
still, though there may be another reason. -/
theorem locateFrom_of_writes {A : Place → Prop} {d d' : Disk} (h : Writes A d d') (follow : Bool)
    (links : Nat) (dir : Anchor) (todo : List String) :
    (∀ found, d.locateFrom follow links dir todo = .ok found →
      d'.locateFrom follow links dir todo = .ok (found.renew d')) ∧
    (∀ e, d.locateFrom follow links dir todo = .error e →
      ∃ e', d'.locateFrom follow links dir todo = .error e') := by
  fun_induction locateFrom d follow links dir todo with
  | case1 links dir =>
    refine ⟨fun found hf => ?_, fun e he => by simp at he⟩
    obtain rfl := Except.ok.inj hf
    rw [locateFrom]
    split <;> rfl
  | case2 links dir name rest h₁ ih =>
    rw [locateFrom, if_pos h₁]
    exact ih
  | case3 links dir rest h₁ ih =>
    rw [locateFrom, if_neg (by decide), if_pos rfl]
    exact ih
  | case4 links dir name rest h₁ h₂ h₃ =>
    rw [locateFrom, if_neg h₁, if_neg h₂, if_pos h₃]
    exact ⟨fun found hf => by simp at hf, fun e _ => ⟨_, rfl⟩⟩
  | case5 links dir name rest h₁ h₂ h₃ h₄ =>
    rw [locateFrom, if_neg h₁, if_neg h₂, if_neg h₃, if_pos h₄]
    exact ⟨fun found hf => by simp at hf, fun e _ => ⟨_, rfl⟩⟩
  | case6 links dir name h₁ h₂ h₃ h₄ here hn =>
    refine ⟨fun found hf => ?_, fun e he => by simp at he⟩
    obtain rfl := Except.ok.inj hf
    rw [locateFrom, if_neg h₁, if_neg h₂, if_neg h₃, if_neg h₄]
    rcases h.node?_of_free hn with hn' | ⟨bytes, stamp, hn'⟩
    · simp only [here] at hn'
      simp only [Found.renew, hn', if_true]
    · simp only [here] at hn'
      simp only [Found.renew, hn', if_true]
  | case7 links dir name rest h₁ h₂ h₃ h₄ here hn hr =>
    refine ⟨fun found hf => by simp at hf, fun e _ => ?_⟩
    rw [locateFrom, if_neg h₁, if_neg h₂, if_neg h₃, if_neg h₄]
    rcases h.node?_of_free hn with hn' | ⟨bytes, stamp, hn'⟩
    · simp only [here] at hn'
      simp only [hn', if_neg hr]
      exact ⟨_, rfl⟩
    · simp only [here] at hn'
      simp only [hn', if_neg hr]
      exact ⟨_, rfl⟩
  | case8 links dir name rest h₁ h₂ h₃ h₄ here hn ih =>
    have hn' : d'.node? (dir.base ++ [name]) = some .dir := h.node?_of_dir hn
    rw [locateFrom, if_neg h₁, if_neg h₂, if_neg h₃, if_neg h₄]
    simp only [hn']
    exact ih
  | case9 links dir name h₁ h₂ h₃ h₄ here bytes stamp hn =>
    refine ⟨fun found hf => ?_, fun e he => by simp at he⟩
    obtain rfl := Except.ok.inj hf
    obtain ⟨bytes', stamp', hn'⟩ := h.hasFile (q := here) ⟨bytes, stamp, hn⟩
    simp only [here] at hn'
    rw [locateFrom, if_neg h₁, if_neg h₂, if_neg h₃, if_neg h₄]
    simp only [here, Found.renew, hn', if_true, Option.getD_some]
  | case10 links dir name rest h₁ h₂ h₃ h₄ here bytes stamp hn hr =>
    refine ⟨fun found hf => by simp at hf, fun e _ => ?_⟩
    obtain ⟨bytes', stamp', hn'⟩ := h.hasFile (q := here) ⟨bytes, stamp, hn⟩
    simp only [here] at hn'
    rw [locateFrom, if_neg h₁, if_neg h₂, if_neg h₃, if_neg h₄]
    simp only [hn', if_neg hr]
    exact ⟨_, rfl⟩
  | case11 links dir name rest h₁ h₂ h₃ h₄ here target hn h₅ =>
    refine ⟨fun found hf => ?_, fun e he => by simp at he⟩
    obtain rfl := Except.ok.inj hf
    have hn' : d'.node? (dir.base ++ [name]) = some (.link target) := h.node?_of_link hn
    rw [locateFrom, if_neg h₁, if_neg h₂, if_neg h₃, if_neg h₄]
    simp only [hn', if_pos h₅]
    rfl
  | case12 links dir name rest h₁ h₂ h₃ h₄ here h₅ hn =>
    refine ⟨fun found hf => by simp at hf, fun e _ => ?_⟩
    have hn' : d'.node? (dir.base ++ [name]) = some (.link "") := h.node?_of_link hn
    rw [locateFrom, if_neg h₁, if_neg h₂, if_neg h₃, if_neg h₄]
    simp only [hn', if_neg h₅, if_true]
    exact ⟨_, rfl⟩
  | case13 dir name rest h₁ h₂ h₃ h₄ here target hn h₅ h₆ =>
    refine ⟨fun found hf => by simp at hf, fun e _ => ?_⟩
    have hn' : d'.node? (dir.base ++ [name]) = some (.link target) := h.node?_of_link hn
    rw [locateFrom, if_neg h₁, if_neg h₂, if_neg h₃, if_neg h₄]
    simp only [hn', if_neg h₅, if_neg h₆]
    exact ⟨_, rfl⟩
  | case14 dir name rest h₁ h₂ h₃ h₄ here target hn h₅ h₆ links ih =>
    have hn' : d'.node? (dir.base ++ [name]) = some (.link target) := h.node?_of_link hn
    rw [locateFrom, if_neg h₁, if_neg h₂, if_neg h₃, if_neg h₄]
    simp only [hn', if_neg h₅, if_neg h₆]
    simp only [dite_eq_ite] at ih
    exact ih

theorem locate_of_writes {A : Place → Prop} {d d' : Disk} (h : Writes A d d') (follow : Bool)
    (path : String) :
    (∀ found, d.locate follow path = .ok found →
      d'.locate follow path = .ok (found.renew d')) ∧
    (∀ e, d.locate follow path = .error e → ∃ e', d'.locate follow path = .error e') := by
  unfold locate
  rw [h.cwd_eq]
  split
  · exact ⟨fun found hf => by simp at hf, fun e _ => ⟨_, rfl⟩⟩
  · split
    · exact ⟨fun found hf => by simp at hf, fun e _ => ⟨_, rfl⟩⟩
    · exact locateFrom_of_writes h _ _ _ _

/-- The path leads to the file at the place, or to the place as a free name. -/
def Targets (d : Disk) (path : String) (p : Place) : Prop :=
  ∃ found, d.locate true path = .ok found ∧ found.IsFor p

/-- The path leads to no device: what is written under it can be read there. -/
def Retains (d : Disk) (path : String) : Prop :=
  ∀ p, d.Targets path p → p ∉ d.medium.sinks

/-- A file: where it stands, what is in it, and when it was last written. -/
structure File where
  place : Place
  bytes : Bytes
  stamp : Stamp
  deriving DecidableEq, Repr

/-- The file that a path leads to. -/
def file? (d : Disk) (path : String) : Option File :=
  match d.locate true path with
  | .ok (.node p (.file bytes stamp)) => some ⟨p, bytes, stamp⟩
  | _ => none

/-- The text of the file that a path leads to, if there is a file and it is a text. -/
def text? (d : Disk) (path : String) : Option (List Char) :=
  (d.file? path).bind fun f => (Text.decode f.bytes).toOption

section

variable {A : Place → Prop} {d d' : Disk} {path : String} {p : Place} {f : File}

theorem file?_eq_some : d.file? path = some f ↔
    d.locate true path = .ok (.node f.place (.file f.bytes f.stamp)) := by
  unfold file?
  split
  · next q bytes stamp hl =>
    rw [hl]
    constructor
    · intro e
      obtain rfl := Option.some.inj e
      rfl
    · intro e
      injection e with e
      injection e with hp hn
      injection hn with hb hs
      rw [hp, hb, hs]
  · next hne =>
    refine ⟨fun e => by simp at e, fun e => ?_⟩
    exact absurd e (hne _ _ _)

theorem decode_of_toOption {bytes : Bytes} {text : List Char}
    (h : (Text.decode bytes).toOption = some text) : Text.decode bytes = .ok text := by
  cases hd : Text.decode bytes with
  | ok t =>
    rw [hd] at h
    rw [Option.some.inj h]
  | error e =>
    rw [hd] at h
    simp [Except.toOption] at h

theorem node?_of_file? (h : d.file? path = some f) :
    d.node? f.place = some (.file f.bytes f.stamp) :=
  isAt_of_locate (file?_eq_some.1 h)

theorem targets_of_file? (h : d.file? path = some f) : d.Targets path f.place :=
  ⟨_, file?_eq_some.1 h, rfl⟩

theorem Targets.unique {q : Place} (hp : d.Targets path p) (hq : d.Targets path q) : p = q := by
  obtain ⟨found, hl, hp⟩ := hp
  obtain ⟨found', hl', hq⟩ := hq
  obtain rfl : found = found' := Except.ok.inj (hl.symm.trans hl')
  unfold Found.IsFor at hp hq
  split at hp
  · exact hp.symm.trans hq
  · exact hp.symm.trans hq
  · exact hp.elim

/-- A path that leads to a place finds the file that stands there. -/
theorem file?_of_targets (h : d.Targets path p) (hp : HasFile d p) :
    ∃ f, d.file? path = some f ∧ f.place = p := by
  obtain ⟨found, hl, hf⟩ := h
  have hat := isAt_of_locate hl
  unfold Found.IsFor at hf
  split at hf
  · next q bytes stamp =>
    exact ⟨⟨q, bytes, stamp⟩, file?_eq_some.2 hl, hf⟩
  · next dir name =>
    obtain ⟨bytes, stamp, hn⟩ := hp
    have hat' : d.node? (dir ++ [name]) = none := hat
    rw [hf, hn] at hat'
    simp at hat'
  · exact hf.elim

/-- A path that leads to no place where something was written finds the same file. -/
theorem file?_of_writes (h : Writes A d d') (hp : ∀ p, d.Targets path p → ¬ A p) :
    d'.file? path = d.file? path := by
  obtain ⟨hok, herror⟩ := locate_of_writes h true path
  unfold file?
  cases hl : d.locate true path with
  | error e =>
    obtain ⟨e', he'⟩ := herror e hl
    rw [he']
  | ok found =>
    rw [hok found hl]
    have hat := isAt_of_locate hl
    match found, hl, hat with
    | .node q (.file bytes stamp), hl, hat =>
      have hq : d'.node? q = d.node? q := h.node?_eq (hp q ⟨_, hl, rfl⟩)
      have hat' : d.node? q = some (.file bytes stamp) := hat
      simp only [Found.renew, hq, hat', Option.getD_some]
    | .node q .dir, _, _ => rfl
    | .node q (.link t), _, _ => rfl
    | .vacant dir name, hl, hat =>
      have hq : d'.node? (dir ++ [name]) = d.node? (dir ++ [name]) :=
        h.node?_eq (hp _ ⟨_, hl, rfl⟩)
      have hat' : d.node? (dir ++ [name]) = none := hat
      simp only [Found.renew, hq, hat']
    | .gone a, _, _ => rfl

/-- A file that was written is found under the same path. -/
theorem file?_of_node? (h : Writes A d d') (hf : d.file? path = some f) {bytes : Bytes}
    {stamp : Stamp} (hn : d'.node? f.place = some (.file bytes stamp)) :
    d'.file? path = some ⟨f.place, bytes, stamp⟩ := by
  rw [file?_eq_some, (locate_of_writes h true path).1 _ (file?_eq_some.1 hf)]
  simp only [Found.renew, hn, Option.getD_some]

theorem isFor_renew (h : Writes A d d') {found : Found} (hat : found.IsAt d) :
    (found.renew d').IsFor p ↔ found.IsFor p := by
  match found, hat with
  | .node q (.file bytes stamp), hat =>
    obtain ⟨bytes', stamp', hn⟩ := h.hasFile (q := q) ⟨bytes, stamp, hat⟩
    simp only [Found.renew, hn, Option.getD_some, Found.IsFor]
  | .node q .dir, _ => exact Iff.rfl
  | .node q (.link t), _ => exact Iff.rfl
  | .vacant dir name, hat =>
    rcases h.node?_of_free hat with hn | ⟨bytes, stamp, hn⟩
    · simp only [Found.renew, hn]
    · simp only [Found.renew, hn, Found.IsFor]
  | .gone a, _ => exact Iff.rfl

/-- Paths lead to the same places as before. -/
theorem targets_iff_of_writes (h : Writes A d d') : d'.Targets path p ↔ d.Targets path p := by
  obtain ⟨hok, herror⟩ := locate_of_writes h true path
  unfold Targets
  cases hl : d.locate true path with
  | error e =>
    obtain ⟨e', he'⟩ := herror e hl
    rw [he']
    simp
  | ok found =>
    rw [hok found hl]
    have hr := isFor_renew (p := p) h (isAt_of_locate hl)
    simpa using hr

theorem retains_iff_of_writes (h : Writes A d d') : d'.Retains path ↔ d.Retains path := by
  unfold Retains
  simp only [targets_iff_of_writes h, h.medium_eq]

theorem stat_of_writes (h : Writes A d d') (hd : d.stat path = .ok .dir) :
    d'.stat path = .ok .dir := by
  obtain ⟨hok, -⟩ := locate_of_writes h true path
  unfold stat at hd ⊢
  split at hd
  · next q n hl =>
    obtain rfl := Except.ok.inj hd
    rw [hok _ hl]
    rfl
  · next a hl =>
    rw [hok _ hl]
    rfl
  · simp at hd
  · simp at hd

end

/-! ## The operations -/

section

variable {d d' : Disk} {path : String} {change : Bytes → Bytes} {f : File}

theorem writes_replaceFile {A : Place → Prop} {p : Place} (hA : A p) (hf : HasFile d p)
    (old new : Bytes) : Writes A d (d.replaceFile p old new) := by
  rcases replaceFile_cases d p old new with h | h <;> rw [h]
  · exact .refl d
  · exact .put (.refl d) hA (.inl hf) _

/-- A file is written where its path leads. -/
theorem writes_update (h : d.update path change = .ok d') : Writes (d.Targets path) d d' := by
  rcases update_eq_ok h with ⟨p, bytes, stamp, hl, -, rfl⟩ | ⟨dir, name, hl, -, rfl⟩
  · exact writes_replaceFile ⟨_, hl, rfl⟩ ⟨bytes, stamp, isAt_of_locate hl⟩ _ _
  · exact .put (.refl d) ⟨_, hl, rfl⟩ (.inr (isAt_of_locate hl)) _

/-- What is no device takes other contents, and so does what has contents. -/
theorem replaceFile_eq_putFile {p : Place} {old : Bytes} (h : old ≠ [] ∨ p ∉ d.medium.sinks)
    (new : Bytes) : d.replaceFile p old new = d.putFile p new := by
  unfold replaceFile
  rw [if_neg]
  rw [Bool.and_eq_true, List.isEmpty_iff, List.contains_iff_mem]
  rintro ⟨ho, hp⟩
  rcases h with h | h
  · exact h ho
  · exact h hp

theorem update_of_file? (h : d.file? path = some f) (hr : d.refuses f.place = false) :
    d.update path change = .ok (d.replaceFile f.place f.bytes (change f.bytes)) := by
  unfold update
  rw [file?_eq_some.1 h]
  simp only [hr, Bool.false_eq_true, if_false]

theorem update_eq_putFile (h : d.file? path = some f) (hr : d.refuses f.place = false)
    (hs : f.bytes ≠ [] ∨ f.place ∉ d.medium.sinks) :
    d.update path change = .ok (d.putFile f.place (change f.bytes)) := by
  rw [update_of_file? h hr, replaceFile_eq_putFile hs]

/-- A device takes what is written and stays as it is. -/
theorem update_of_sink (h : d.file? path = some f) (hr : d.refuses f.place = false)
    (hb : f.bytes = []) (hs : f.place ∈ d.medium.sinks) : d.update path change = .ok d := by
  rw [update_of_file? h hr, replaceFile]
  simp [hb, hs]

/-- A file that is locked cannot be written. -/
theorem update_of_refuses (h : d.file? path = some f) (hr : d.refuses f.place = true) :
    d.update path change = .error .denied := by
  unfold update
  rw [file?_eq_some.1 h]
  simp only [hr, if_true]

/-- A file with other contents is found under the same path. -/
theorem file?_putFile (h : d.file? path = some f) (bytes : Bytes) :
    ∃ f', (d.putFile f.place bytes).file? path = some f' ∧ f'.bytes = bytes := by
  have hput : Writes (Eq f.place) d (d.putFile f.place bytes) :=
    .put (.refl d) rfl (.inl ⟨_, _, node?_of_file? h⟩) bytes
  have hn := node?_putFile (d := d) (HasFile.ne_nil ⟨_, _, node?_of_file? h⟩) bytes f.place
  rw [if_pos rfl] at hn
  exact ⟨_, file?_of_node? hput h hn, rfl⟩

/-- A file that was made is found under its path. -/
theorem file?_of_vacant {dir : Place} {name : String}
    (h : d.locate true path = .ok (.vacant dir name)) (bytes : Bytes) :
    ∃ f, (d.putFile (dir ++ [name]) bytes).file? path = some f ∧ f.bytes = bytes := by
  have hput : Writes (Eq (dir ++ [name])) d (d.putFile (dir ++ [name]) bytes) :=
    .put (.refl d) rfl (.inr (isAt_of_locate h)) bytes
  have hn := node?_putFile (d := d) (p := dir ++ [name]) (by simp) bytes (dir ++ [name])
  rw [if_pos rfl] at hn
  have hl := (locate_of_writes hput true path).1 _ h
  simp only [Found.renew, hn] at hl
  exact ⟨⟨_, _, _⟩, file?_eq_some.2 hl, rfl⟩

theorem refuses_of_mayMake {dir : Place} {name : String} (h : d.mayMake dir name = true) :
    d.refuses (dir ++ [name]) = false := by
  unfold mayMake at h
  simpa using (Bool.and_eq_true_iff.1 h).2

/-- A file that was written is found under its path, unless it is a device. -/
theorem exists_file?_of_update (h : d.update path change = .ok d') (hr : d'.Retains path) :
    ∃ f old, d'.file? path = some f ∧ f.bytes = change old := by
  have hkept : d.Retains path := (retains_iff_of_writes (writes_update h)).1 hr
  rcases update_eq_ok h with ⟨p, old, stamp, hl, -, rfl⟩ | ⟨dir, name, hl, -, rfl⟩
  · obtain ⟨f, hf, hb⟩ := file?_putFile (f := ⟨p, old, stamp⟩) (file?_eq_some.2 hl) (change old)
    rw [replaceFile_eq_putFile (.inr (hkept p ⟨_, hl, rfl⟩))]
    exact ⟨f, old, hf, hb⟩
  · obtain ⟨f, hf, hb⟩ := file?_of_vacant hl (change [])
    exact ⟨f, [], hf, hb⟩

/-- What was written is a file, which can be written again. -/
theorem exists_file?_of_written (h : d.update path change = .ok d') :
    ∃ f, d'.file? path = some f ∧ d'.refuses f.place = false := by
  have hw := writes_update h
  have there : ∀ {p : Place}, d.Targets path p → HasFile d' p → d.refuses p = false →
      ∃ f, d'.file? path = some f ∧ d'.refuses f.place = false := by
    intro p hp hfile hr
    obtain ⟨f, hf, rfl⟩ := file?_of_targets ((targets_iff_of_writes hw).2 hp) hfile
    exact ⟨f, hf, hw.refuses_eq.trans hr⟩
  rcases update_eq_ok h with ⟨p, bytes, stamp, hl, hr, -⟩ | ⟨dir, name, hl, hm, rfl⟩
  · exact there ⟨_, hl, rfl⟩ (hw.hasFile ⟨bytes, stamp, isAt_of_locate hl⟩) hr
  · refine there ⟨_, hl, rfl⟩ ?_ (refuses_of_mayMake hm)
    unfold HasFile
    rw [node?_putFile (by simp), if_pos rfl]
    exact ⟨_, _, rfl⟩

/-- Something can be written under the path. -/
def Takes (d : Disk) (path : String) : Prop :=
  ∃ d', d.append path [] = .ok d'

/-- Whether a file can be written has nothing to do with what is written. -/
theorem Takes.update (h : d.Takes path) (change : Bytes → Bytes) :
    ∃ d', d.update path change = .ok d' := by
  obtain ⟨d', h⟩ := h
  unfold Disk.update
  rcases update_eq_ok h with ⟨p, bytes, stamp, hl, hr, -⟩ | ⟨dir, name, hl, hm, -⟩
  · simp only [hl, hr, Bool.false_eq_true, if_false]
    exact ⟨_, rfl⟩
  · simp only [hl, hm, if_true]
    exact ⟨_, rfl⟩

theorem Takes.refuses_eq_false (h : d.Takes path) (hf : d.file? path = some f) :
    d.refuses f.place = false := by
  obtain ⟨d', h⟩ := h
  cases hr : d.refuses f.place with
  | false => rfl
  | true =>
    unfold append at h
    rw [update_of_refuses hf hr] at h
    cases h

/-- What could be written can be written after other files were written, or it itself was. -/
theorem Takes.of_writes {A : Place → Prop} (h : d.Takes path) (hw : Writes A d d') :
    d'.Takes path := by
  obtain ⟨_, h⟩ := h
  unfold Takes append Disk.update
  rcases update_eq_ok h with ⟨p, bytes, stamp, hl, hr, -⟩ | ⟨dir, name, hl, hm, -⟩
  · obtain ⟨bytes', stamp', hn⟩ := hw.hasFile (q := p) ⟨bytes, stamp, isAt_of_locate hl⟩
    have hr' : d'.refuses p = false := hw.refuses_eq.trans hr
    rw [(locate_of_writes hw true path).1 _ hl]
    simp only [Found.renew, hn, Option.getD_some, hr', Bool.false_eq_true, if_false]
    exact ⟨_, rfl⟩
  · have hm' : d'.mayMake dir name = true := by
      unfold mayMake at hm ⊢
      rwa [hw.refuses_eq, hw.refuses_eq]
    have hr' : d'.refuses (dir ++ [name]) = false := refuses_of_mayMake hm'
    rw [(locate_of_writes hw true path).1 _ hl]
    rcases hw.node?_of_free (isAt_of_locate hl) with hn | ⟨bytes, stamp, hn⟩
    · simp only [Found.renew, hn, hm', if_true]
      exact ⟨_, rfl⟩
    · simp only [Found.renew, hn, hr', Bool.false_eq_true, if_false]
      exact ⟨_, rfl⟩

theorem read_of_file? (h : d.file? path = some f) : d.read path = .ok f.bytes := by
  unfold read stat
  rw [file?_eq_some.1 h]

theorem read_eq_ok {bytes : Bytes} (h : d.read path = .ok bytes) :
    ∃ f, d.file? path = some f ∧ f.bytes = bytes := by
  unfold read at h
  split at h
  · next b s hs =>
    obtain rfl := Except.ok.inj h
    unfold stat at hs
    split at hs
    · next p n hl =>
      obtain rfl := Except.ok.inj hs
      exact ⟨⟨p, b, s⟩, file?_eq_some.2 hl, rfl⟩
    · simp at hs
    · simp at hs
    · simp at hs
  · simp at h
  · simp at h

/-- A line for an open file. -/
theorem writes_appendHeld (d : Disk) (number : Nat) (bytes : Bytes) :
    Writes (Open d) d (d.appendHeld number bytes) := by
  unfold appendHeld
  split
  · exact .refl d
  · next p hp =>
    obtain ⟨a, ha, hap⟩ := Option.bind_eq_some_iff.1 hp
    split
    · next old stamp hn =>
      exact writes_replaceFile ⟨a, List.mem_of_getElem? ha, hap⟩ ⟨old, stamp, hn⟩ _ _
    · exact .refl d

end

end ConsoleSweep.Disk
