/-
  How paths are followed.

  A path that leads to a directory can be gone on with: what follows it is looked for from
  that directory (`locateFrom_append`), and the links on the way to it count in addition.
  More links never hurt (`locateFrom_mono`). In a tree with proper names and directories
  (`Proper`), what a path finds as a directory is one of the tree.
-/
import ConsoleSweep.Proofs.Path
import ConsoleSweep.Disk.Files

namespace ConsoleSweep.Disk

variable {d : Disk} {follow : Bool} {links : Nat} {dir : Anchor} {todo : List String}
  {found : Found} {path : String} {p q : Place}

/-- More links may be followed. -/
theorem locateFrom_mono (h : d.locateFrom follow links dir todo = .ok found) (more : Nat) :
    d.locateFrom follow (links + more) dir todo = .ok found := by
  fun_induction locateFrom d follow links dir todo with
  | case1 links dir =>
    rw [locateFrom]
    exact h
  | case2 links dir name rest h₁ ih =>
    rw [locateFrom, if_pos h₁]
    exact ih h
  | case3 links dir rest h₁ ih =>
    rw [locateFrom, if_neg (by decide), if_pos rfl]
    exact ih h
  | case6 links dir name h₁ h₂ h₃ h₄ here hn =>
    rw [locateFrom, if_neg h₁, if_neg h₂, if_neg h₃, if_neg h₄]
    simp only [here] at hn
    simpa only [hn, if_true] using h
  | case8 links dir name rest h₁ h₂ h₃ h₄ here hn ih =>
    rw [locateFrom, if_neg h₁, if_neg h₂, if_neg h₃, if_neg h₄]
    simp only [here] at hn
    simp only [hn]
    exact ih h
  | case9 links dir name h₁ h₂ h₃ h₄ here bytes stamp hn =>
    rw [locateFrom, if_neg h₁, if_neg h₂, if_neg h₃, if_neg h₄]
    simp only [here] at hn
    simpa only [hn, if_true] using h
  | case11 links dir name rest h₁ h₂ h₃ h₄ here target hn h₅ =>
    rw [locateFrom, if_neg h₁, if_neg h₂, if_neg h₃, if_neg h₄]
    simp only [here] at hn
    simpa only [hn, if_pos h₅] using h
  | case14 dir name rest h₁ h₂ h₃ h₄ here target hn h₅ h₆ links ih =>
    rw [locateFrom, if_neg h₁, if_neg h₂, if_neg h₃, if_neg h₄, Nat.succ_add]
    simp only [here] at hn
    simp only [hn, if_neg h₅, if_neg h₆]
    simp only [dite_eq_ite] at ih
    exact ih h
  | case4 | case5 | case7 | case10 | case12 | case13 => simp at h

/-- Without following a link at the end, a path leads to the same, or to that link. -/
theorem locateFrom_unfollowed (h : d.locateFrom true links dir todo = .ok found) :
    d.locateFrom false links dir todo = .ok found ∨
      ∃ p target, d.locateFrom false links dir todo = .ok (.node p (.link target)) := by
  fun_induction locateFrom d true links dir todo with
  | case1 links dir =>
    rw [locateFrom]
    exact .inl h
  | case2 links dir name rest h₁ ih =>
    rw [locateFrom, if_pos h₁]
    exact ih h
  | case3 links dir rest h₁ ih =>
    rw [locateFrom, if_neg (by decide), if_pos rfl]
    exact ih h
  | case6 links dir name h₁ h₂ h₃ h₄ here hn =>
    rw [locateFrom, if_neg h₁, if_neg h₂, if_neg h₃, if_neg h₄]
    simp only [here] at hn
    simp only [hn, if_true]
    exact .inl h
  | case8 links dir name rest h₁ h₂ h₃ h₄ here hn ih =>
    rw [locateFrom, if_neg h₁, if_neg h₂, if_neg h₃, if_neg h₄]
    simp only [here] at hn
    simp only [hn]
    exact ih h
  | case9 links dir name h₁ h₂ h₃ h₄ here bytes stamp hn =>
    rw [locateFrom, if_neg h₁, if_neg h₂, if_neg h₃, if_neg h₄]
    simp only [here] at hn
    simp only [hn, if_true]
    exact .inl h
  | case11 links dir name rest h₁ h₂ h₃ h₄ here target hn h₅ => simp at h₅
  | case14 dir name rest h₁ h₂ h₃ h₄ here target hn h₅ h₆ links ih =>
    rw [locateFrom, if_neg h₁, if_neg h₂, if_neg h₃, if_neg h₄]
    simp only [here] at hn
    simp only [hn]
    by_cases hr : rest = []
    · rw [if_pos (by simp [hr])]
      exact .inr ⟨_, _, rfl⟩
    · rw [if_neg (by simp [hr]), if_neg h₆]
      simp only [dite_eq_ite] at ih
      exact ih h
  | case4 | case5 | case7 | case10 | case12 | case13 => simp at h

theorem locate_unfollowed (h : d.locate true path = .ok found) :
    d.locate false path = .ok found ∨
      ∃ p target, d.locate false path = .ok (.node p (.link target)) := by
  unfold locate at h ⊢
  split at h
  · simp at h
  · next h₁ =>
    rw [if_neg h₁]
    split at h
    · simp at h
    · next h₂ =>
      rw [if_neg h₂]
      exact locateFrom_unfollowed h

/-- A path that does not end at a link leads to the same if links at the end are followed. -/
theorem locateFrom_followed (h : d.locateFrom false links dir todo = .ok found)
    (hf : ∀ p target, found ≠ .node p (.link target)) :
    d.locateFrom true links dir todo = .ok found := by
  fun_induction locateFrom d false links dir todo with
  | case1 links dir =>
    rw [locateFrom]
    exact h
  | case2 links dir name rest h₁ ih =>
    rw [locateFrom, if_pos h₁]
    exact ih h
  | case3 links dir rest h₁ ih =>
    rw [locateFrom, if_neg (by decide), if_pos rfl]
    exact ih h
  | case6 links dir name h₁ h₂ h₃ h₄ here hn =>
    rw [locateFrom, if_neg h₁, if_neg h₂, if_neg h₃, if_neg h₄]
    simp only [here] at hn
    simpa only [hn, if_true] using h
  | case8 links dir name rest h₁ h₂ h₃ h₄ here hn ih =>
    rw [locateFrom, if_neg h₁, if_neg h₂, if_neg h₃, if_neg h₄]
    simp only [here] at hn
    simp only [hn]
    exact ih h
  | case9 links dir name h₁ h₂ h₃ h₄ here bytes stamp hn =>
    rw [locateFrom, if_neg h₁, if_neg h₂, if_neg h₃, if_neg h₄]
    simp only [here] at hn
    simpa only [hn, if_true] using h
  | case11 links dir name rest h₁ h₂ h₃ h₄ here target hn h₅ =>
    exact absurd (Except.ok.inj h).symm (hf _ _)
  | case14 dir name rest h₁ h₂ h₃ h₄ here target hn h₅ h₆ links ih =>
    rw [locateFrom, if_neg h₁, if_neg h₂, if_neg h₃, if_neg h₄]
    simp only [here] at hn
    simp only [hn, if_neg h₆, Bool.not_true, Bool.and_false, Bool.false_eq_true, if_false]
    simp only [dite_eq_ite] at ih
    exact ih h
  | case4 | case5 | case7 | case10 | case12 | case13 => simp at h

theorem locate_followed (h : d.locate false path = .ok found)
    (hf : ∀ p target, found ≠ .node p (.link target)) : d.locate true path = .ok found := by
  unfold locate at h ⊢
  split at h
  · simp at h
  · next h₁ =>
    rw [if_neg h₁]
    split at h
    · simp at h
    · next h₂ =>
      rw [if_neg h₂]
      exact locateFrom_followed h hf

/-- Behind the names that lead to a directory, a path goes on from there. -/
theorem locateFrom_append (h : d.locateFrom true links dir todo = .ok (.node p .dir)) :
    ∃ used, ∀ more rest, d.locateFrom true (used + more) dir (todo ++ rest) =
      d.locateFrom true more ⟨p, 0⟩ rest := by
  fun_induction locateFrom d true links dir todo with
  | case1 links dir =>
    refine ⟨0, fun more rest => ?_⟩
    obtain ⟨base, gone⟩ := dir
    split at h
    · next hg =>
      cases h
      rw [Nat.zero_add, List.nil_append, show gone = 0 from hg]
    · cases h
  | case2 links dir name rest h₁ ih =>
    obtain ⟨used, hu⟩ := ih h
    refine ⟨used, fun more rest' => ?_⟩
    rw [List.cons_append, locateFrom, if_pos h₁]
    exact hu more rest'
  | case3 links dir rest h₁ ih =>
    obtain ⟨used, hu⟩ := ih h
    refine ⟨used, fun more rest' => ?_⟩
    rw [List.cons_append, locateFrom, if_neg (by decide), if_pos rfl]
    exact hu more rest'
  | case8 links dir name rest h₁ h₂ h₃ h₄ here hn ih =>
    obtain ⟨used, hu⟩ := ih h
    refine ⟨used, fun more rest' => ?_⟩
    rw [List.cons_append, locateFrom, if_neg h₁, if_neg h₂, if_neg h₃, if_neg h₄]
    simp only [here] at hn
    simp only [hn]
    exact hu more rest'
  | case14 dir name rest h₁ h₂ h₃ h₄ here target hn h₅ h₆ links ih =>
    simp only [dite_eq_ite] at ih
    obtain ⟨used, hu⟩ := ih h
    refine ⟨used + 1, fun more rest' => ?_⟩
    have hu' := hu more rest'
    rw [List.append_assoc] at hu'
    rw [List.cons_append, locateFrom, if_neg h₁, if_neg h₂, if_neg h₃, if_neg h₄, Nat.add_right_comm]
    simp only [here] at hn
    simp only [hn, if_neg h₆, Bool.not_true, Bool.and_false, Bool.false_eq_true, if_false]
    exact hu'
  | case11 links dir name rest h₁ h₂ h₃ h₄ here target hn h₅ => simp at h₅
  | case4 | case5 | case6 | case7 | case9 | case10 | case12 | case13 => simp at h

/-- An empty name at the end does no harm, and is no help either. -/
theorem locateFrom_of_append_empty
    (h : d.locateFrom true links dir (todo ++ [""]) = .ok (.node p .dir)) :
    d.locateFrom true links dir todo = .ok (.node p .dir) := by
  fun_induction locateFrom d true links dir todo with
  | case1 links dir =>
    rw [List.nil_append, locateFrom, if_pos (by decide), locateFrom] at h
    exact h
  | case2 links dir name rest h₁ ih =>
    rw [List.cons_append, locateFrom, if_pos h₁] at h
    exact ih h
  | case3 links dir rest h₁ ih =>
    rw [List.cons_append, locateFrom, if_neg (by decide), if_pos rfl] at h
    exact ih h
  | case4 links dir name rest h₁ h₂ h₃ =>
    rw [List.cons_append, locateFrom, if_neg h₁, if_neg h₂, if_pos h₃] at h
    exact h
  | case5 links dir name rest h₁ h₂ h₃ h₄ =>
    rw [List.cons_append, locateFrom, if_neg h₁, if_neg h₂, if_neg h₃, if_pos h₄] at h
    exact h
  | case8 links dir name rest h₁ h₂ h₃ h₄ here hn ih =>
    rw [List.cons_append, locateFrom, if_neg h₁, if_neg h₂, if_neg h₃, if_neg h₄] at h
    simp only [here] at hn
    simp only [hn] at h
    exact ih h
  | case14 dir name rest h₁ h₂ h₃ h₄ here target hn h₅ h₆ links ih =>
    rw [List.cons_append, locateFrom, if_neg h₁, if_neg h₂, if_neg h₃, if_neg h₄] at h
    simp only [here] at hn
    simp only [hn, if_neg h₆, Bool.not_true, Bool.and_false, Bool.false_eq_true, if_false] at h
    simp only [dite_eq_ite] at ih
    rw [List.append_assoc] at ih
    exact ih h
  | case11 links dir name rest h₁ h₂ h₃ h₄ here target hn h₅ => simp at h₅
  | case6 | case7 | case9 | case10 | case12 | case13 =>
    rw [List.cons_append, locateFrom] at h
    grind

/-- A path from the root that is not too long. -/
theorem locate_of_rooted (h : Path.isAbsolute path = true) (hl : Text.byteLength path ≤ pathLimit) :
    d.locate follow path = d.locateFrom follow linkLimit ⟨[], 0⟩ (Text.splitAt '/' path) := by
  have hne : path ≠ "" := by
    rintro rfl
    exact absurd h (by decide)
  unfold locate
  rw [if_neg hne, if_neg (Nat.not_lt.2 hl), if_pos h]

/-- A path from the root, name by name. -/
theorem locate_of_names (names : List String) (h : Path.isAbsolute path = true ∧
    Text.byteLength path ≤ pathLimit ∧ Text.splitAt '/' path = "" :: names) :
    d.locate follow path = d.locateFrom follow linkLimit ⟨[], 0⟩ names := by
  obtain ⟨ha, hl, hnames⟩ := h
  rw [locate_of_rooted ha hl, hnames, locateFrom, if_pos (by decide)]

/-- A plain name leads into a directory. -/
theorem locateFrom_dir {name : String} (hname : name ∉ ["", ".", ".."])
    (hl : Text.byteLength name ≤ nameLimit) (hn : d.node? (p ++ [name]) = some .dir)
    (rest : List String) : d.locateFrom follow links ⟨p, 0⟩ (name :: rest) =
      d.locateFrom follow links ⟨p ++ [name], 0⟩ rest := by
  simp only [List.mem_cons, List.not_mem_nil, not_or, not_false_iff, and_true] at hname
  rw [locateFrom, if_neg (by simp [hname]), if_neg (by simp [hname]), if_neg (by simp),
    if_neg (Nat.not_lt.2 hl)]
  simp only [hn]

/-- A plain name leads to a file. -/
theorem locateFrom_file {name : String} {bytes : Text.Bytes} {stamp : Stamp}
    (hname : name ∉ ["", ".", ".."]) (hl : Text.byteLength name ≤ nameLimit)
    (hn : d.node? (p ++ [name]) = some (.file bytes stamp)) :
    d.locateFrom follow links ⟨p, 0⟩ [name] = .ok (.node (p ++ [name]) (.file bytes stamp)) := by
  simp only [List.mem_cons, List.not_mem_nil, not_or, not_false_iff, and_true] at hname
  rw [locateFrom, if_neg (by simp [hname]), if_neg (by simp [hname]), if_neg (by simp),
    if_neg (Nat.not_lt.2 hl)]
  simp only [hn, if_true]

/-- A plain name that is free. -/
theorem locateFrom_vacant {name : String} (hname : name ∉ ["", ".", ".."])
    (hl : Text.byteLength name ≤ nameLimit) (hn : d.node? (p ++ [name]) = none) :
    d.locateFrom follow links ⟨p, 0⟩ [name] = .ok (.vacant p name) := by
  simp only [List.mem_cons, List.not_mem_nil, not_or, not_false_iff, and_true] at hname
  rw [locateFrom, if_neg (by simp [hname]), if_neg (by simp [hname]), if_neg (by simp),
    if_neg (Nat.not_lt.2 hl)]
  simp only [hn, if_true]

/-- A path leads nowhere if its first name is free at the root. -/
theorem stat_eq_missing {d : Disk} {path n : String} {r : List String}
    (hp : Text.splitAt '/' path = "" :: n :: r) (ha : Path.isAbsolute path = true)
    (hl : Text.byteLength path ≤ pathLimit) (hn : n ∉ ["", ".", ".."])
    (hln : Text.byteLength n ≤ nameLimit) (hv : d.node? [n] = none) :
    d.stat path = .error .missing := by
  have hne : path ≠ "" := by
    rintro rfl
    exact absurd ha (by decide)
  simp only [List.mem_cons, List.not_mem_nil, not_or, not_false_iff, and_true] at hn
  unfold stat locate
  rw [if_neg hne, if_neg (Nat.not_lt.2 hl), if_pos ha, hp, locateFrom, if_pos (by decide),
    locateFrom, if_neg (by simp [hn]), if_neg (by simp [hn]), if_neg (by simp),
    if_neg (Nat.not_lt.2 hln)]
  simp only [List.nil_append, hv]
  cases r <;> simp

theorem stat_slash (d : Disk) : d.stat "/" = .ok .dir := by
  have hs : Text.splitAt '/' "/" = ["", ""] := rfl
  unfold stat locate
  rw [if_neg (by decide), if_neg (by decide), if_pos (by decide), hs, locateFrom,
    if_pos (by decide), locateFrom, if_pos (by decide), locateFrom]
  rfl

theorem makeDir_of_stat (h : d.stat path = .ok .dir) : d.makeDir path = .error .exists := by
  unfold stat at h
  unfold makeDir
  split at h
  · next p n hl =>
    rcases locate_unfollowed hl with hl | ⟨q, target, hl⟩ <;> rw [hl]
  · next a hl =>
    rcases locate_unfollowed hl with hl | ⟨q, target, hl⟩ <;> rw [hl]
  · simp at h
  · simp at h

/-- A directory that is there need not be made. -/
theorem makeDirs_of_stat (root : String) (parts : List String)
    (h : d.stat (Path.mk root parts).text = .ok .dir) : d.makeDirs root parts = (d, none) := by
  have hd : d.isDir (Path.mk root parts).text = true := by
    unfold isDir
    rw [h]
  unfold makeDirs
  simp only [makeDir_of_stat h, hd, if_true]

/-- A directory is made under a free name. -/
theorem makeDirs_of_vacant {root name : String} {parts : List String}
    (h : d.locate false (Path.mk root parts).text = .ok (.vacant p name))
    (hm : d.mayMake p name = true) :
    d.makeDirs root parts = (d.setNode (p ++ [name]) .dir, none) := by
  have hmade : d.makeDir (Path.mk root parts).text = .ok (d.setNode (p ++ [name]) .dir) := by
    unfold makeDir
    rw [h]
    exact if_pos hm
  unfold makeDirs
  simp only [hmade]

/-- Where there is a file, no directory can be made. -/
theorem makeDirs_of_file {root : String} {parts : List String} {bytes : Text.Bytes} {stamp : Stamp}
    (h : d.locate false (Path.mk root parts).text = .ok (.node p (.file bytes stamp)))
    (hs : d.isDir (Path.mk root parts).text = false) :
    d.makeDirs root parts = (d, some (.exists, (Path.mk root parts).text)) := by
  have hmade : d.makeDir (Path.mk root parts).text = .error .exists := by
    unfold makeDir
    rw [h]
  unfold makeDirs
  simp only [hmade, hs, Bool.false_eq_true, if_false]

/-- A file is written under a free name. -/
theorem write_of_vacant {name : String} (h : d.locate true path = .ok (.vacant p name))
    (hm : d.mayMake p name = true) (bytes : Text.Bytes) :
    d.write path bytes = .ok (d.putFile (p ++ [name]) bytes) := by
  unfold write update
  rw [h]
  exact if_pos hm

/-! ## Proper trees -/

/-- A name that a file can have. -/
structure IsName (name : String) : Prop where
  plain : name ∉ ["", ".", ".."]
  noSlash : '/' ∉ name.toList
  noNul : '\x00' ∉ name.toList
  short : Text.byteLength name ≤ nameLimit

instance (name : String) : Decidable (IsName name) :=
  decidable_of_iff (name ∉ ["", ".", ".."] ∧ '/' ∉ name.toList ∧ '\x00' ∉ name.toList ∧
      Text.byteLength name ≤ nameLimit)
    ⟨fun ⟨h₁, h₂, h₃, h₄⟩ => ⟨h₁, h₂, h₃, h₄⟩, fun ⟨h₁, h₂, h₃, h₄⟩ => ⟨h₁, h₂, h₃, h₄⟩⟩

theorem IsName.ne_empty {name : String} (h : IsName name) : name ≠ "" := by
  rintro rfl
  exact h.plain (by simp)

/-- A tree as a file system has it: each node stands at a place of its own, under names that files
can have, and in a directory. -/
structure Proper (d : Disk) : Prop where
  once : (d.nodes.map (·.1)).Nodup
  named : ∀ e ∈ d.nodes, e.1 ≠ [] ∧ ∀ name ∈ e.1, IsName name
  above : ∀ e ∈ d.nodes, d.node? e.1.dropLast = some .dir

instance (d : Disk) : Decidable d.Proper :=
  decidable_of_iff ((d.nodes.map (·.1)).Nodup ∧
      (∀ e ∈ d.nodes, e.1 ≠ [] ∧ ∀ name ∈ e.1, IsName name) ∧
      ∀ e ∈ d.nodes, d.node? e.1.dropLast = some .dir)
    ⟨fun ⟨h₁, h₂, h₃⟩ => ⟨h₁, h₂, h₃⟩, fun ⟨h₁, h₂, h₃⟩ => ⟨h₁, h₂, h₃⟩⟩

theorem lookup_of_mem {α β : Type} [BEq α] [LawfulBEq α] {entries : List (α × β)} {a : α} {b : β}
    (hn : (entries.map (·.1)).Nodup) (h : (a, b) ∈ entries) : entries.lookup a = some b := by
  induction entries with
  | nil => simp at h
  | cons e entries ih =>
    obtain ⟨a', b'⟩ := e
    rw [List.map_cons, List.nodup_cons] at hn
    rcases List.mem_cons.1 h with heq | h
    · obtain ⟨rfl, rfl⟩ := Prod.mk.inj heq
      simp
    · have hne : a ≠ a' := fun e => hn.1 (List.mem_map.2 ⟨_, h, e⟩)
      rw [List.lookup_cons, beq_false_of_ne hne]
      exact ih hn.2 h

theorem mem_of_lookup {α β : Type} [BEq α] [LawfulBEq α] {entries : List (α × β)} {a : α} {b : β}
    (h : entries.lookup a = some b) : (a, b) ∈ entries := by
  obtain ⟨l₁, l₂, rfl, -⟩ := List.lookup_eq_some_iff.1 h
  simp

namespace Proper

variable {n : Node} {name : String}

theorem node?_eq_some (h : d.Proper) (hp : p ≠ []) : d.node? p = some n ↔ (p, n) ∈ d.nodes := by
  unfold node?
  rw [if_neg hp]
  exact ⟨mem_of_lookup, lookup_of_mem h.once⟩

theorem mem_nodes (h : d.Proper) (hn : d.node? (p ++ [name]) = some n) :
    (p ++ [name], n) ∈ d.nodes :=
  (h.node?_eq_some (by simp)).1 hn

theorem isName (h : d.Proper) (hn : d.node? (p ++ [name]) = some n) : IsName name :=
  (h.named _ (h.mem_nodes hn)).2 name (by simp)

/-- A directory stands in a directory; so does the root, in itself. -/
theorem dir_above (h : d.Proper) (hp : d.node? p = some .dir) :
    d.node? p.dropLast = some .dir := by
  by_cases hnil : p = []
  · subst hnil
    exact hp
  · exact h.above _ ((h.node?_eq_some hnil).1 hp)

/-- From a directory of the tree, names lead to directories of the tree only. -/
theorem node?_of_locateFrom (hd : d.Proper) (hdir : d.node? dir.base = some .dir)
    (h : d.locateFrom follow links dir todo = .ok (.node q .dir)) : d.node? q = some .dir := by
  fun_induction locateFrom d follow links dir todo with
  | case1 links dir =>
    split at h
    · cases h
      exact hdir
    · cases h
  | case2 links dir name rest h₁ ih => exact ih hdir h
  | case3 links dir rest h₁ ih =>
    refine ih ?_ h
    unfold Anchor.up
    split
    · exact hd.dir_above hdir
    · exact hdir
  | case8 links dir name rest h₁ h₂ h₃ h₄ here hn ih => exact ih hn h
  | case14 dir name rest h₁ h₂ h₃ h₄ here target hn h₅ h₆ links ih =>
    simp only [dite_eq_ite] at ih
    refine ih ?_ h
    split
    · simp [node?]
    · exact hdir
  | case4 | case5 | case6 | case7 | case9 | case10 | case11 | case12 | case13 => simp at h

/-- Names that lead to a directory have no NUL in them. -/
theorem nul_not_mem_of_locateFrom (hd : d.Proper)
    (h : d.locateFrom true links dir todo = .ok (.node q .dir)) :
    ∀ name ∈ todo, '\x00' ∉ name.toList := by
  fun_induction locateFrom d true links dir todo with
  | case1 => simp
  | case2 links dir name rest h₁ ih =>
    have hname : '\x00' ∉ name.toList := by
      rcases Bool.or_eq_true_iff.1 h₁ with h₁ | h₁ <;> rw [of_decide_eq_true h₁] <;> decide
    exact List.forall_mem_cons.2 ⟨hname, ih h⟩
  | case3 links dir rest h₁ ih => exact List.forall_mem_cons.2 ⟨by decide, ih h⟩
  | case8 links dir name rest h₁ h₂ h₃ h₄ here hn ih =>
    exact List.forall_mem_cons.2 ⟨(hd.isName hn).noNul, ih h⟩
  | case14 dir name rest h₁ h₂ h₃ h₄ here target hn h₅ h₆ links ih =>
    simp only [dite_eq_ite] at ih
    exact List.forall_mem_cons.2 ⟨(hd.isName hn).noNul, fun name hname =>
      ih h name (List.mem_append_right _ hname)⟩
  | case4 | case5 | case6 | case7 | case9 | case10 | case11 | case12 | case13 => simp at h

end Proper

end ConsoleSweep.Disk
