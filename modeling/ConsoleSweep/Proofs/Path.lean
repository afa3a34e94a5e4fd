/-
  Path texts and their parts.

  A name that is joined to a directory is the last part of the result, and the parts before
  it are those of the directory (`splitAt_join`); only an empty part at the end of the
  directory, behind a slash, is not there any more.
-/
import ConsoleSweep.Path
import ConsoleSweep.Proofs.Text.Pieces

namespace ConsoleSweep

namespace Text

theorem splitAt_intercalate {names : List String} (hne : names ≠ [])
    (h : ∀ name ∈ names, '/' ∉ name.toList) : splitAt '/' ("/".intercalate names) = names := by
  have hslash : ("/" : String).toList = ['/'] := rfl
  rw [splitAt, String.toList_intercalate, hslash, pieces_intercalate (by simpa using hne)
    (by simpa using h), List.map_map]
  simp [Function.comp_def]

end Text

namespace Path

open Text

/-- The characters of a row of parts, without its last part. -/
theorem mem_intercalate_dropLast {c : Char} {sep : List Char} {parts : List (List Char)}
    (h : c ∈ sep.intercalate parts.dropLast) : c ∈ sep.intercalate parts := by
  induction parts with
  | nil => exact h
  | cons a rest ih =>
    cases rest with
    | nil => simp at h
    | cons b rest =>
      rw [List.dropLast_cons_of_ne_nil (List.cons_ne_nil b rest)] at h
      rw [List.intercalate_cons_cons, List.mem_append]
      by_cases hr : (b :: rest).dropLast = []
      · rw [hr, List.intercalate_singleton] at h
        exact .inl (List.mem_append_left _ h)
      · rw [List.intercalate_cons_of_ne_nil hr, List.mem_append] at h
        exact h.imp id ih

/-- The directory of a path has no character that the path has not, but for the point that stands
for an empty path. -/
theorem mem_of_mem_parent {p : Path} {c : Char} (h : c ∈ p.parent.text.toList) (hc : c ≠ '.') :
    c ∈ p.text.toList := by
  unfold text at h ⊢
  split at h
  · rw [show ".".toList = ['.'] from rfl, List.mem_singleton] at h
    exact absurd h hc
  · rw [String.toList_append, String.toList_intercalate, List.mem_append, parent] at h
    split
    · next he =>
      have hp : p.parts = [] := by
        rw [Bool.and_eq_true, List.isEmpty_iff] at he
        exact he.2
      have hr : p.root = "" := by
        rw [Bool.and_eq_true] at he
        exact of_decide_eq_true he.1
      simp [hp, hr] at h
    · rw [String.toList_append, String.toList_intercalate, List.mem_append]
      refine h.imp id fun h => mem_intercalate_dropLast ?_
      rwa [← List.map_dropLast]

/-! ## Roots -/

variable {path : String}

theorem rootOf_ne_empty (h : isAbsolute path = true) : rootOf path = "/" ∨ rootOf path = "//" := by
  unfold rootOf
  split
  · exact .inl rfl
  · exact .inr rfl
  · exact .inl rfl
  · next h₁ h₂ h₃ =>
    cases hp : path.toList with
    | nil => simp [isAbsolute, hp] at h
    | cons c cs =>
      have hc : c = '/' := by simpa [isAbsolute, hp] using h
      exact absurd (hc ▸ hp) (h₃ cs)

theorem isAbsolute_normalize (h : isAbsolute path = true) : isAbsolute (normalize path) = true := by
  unfold normalize
  rcases rootOf_ne_empty h with hr | hr <;> simp [hr, isAbsolute]

/-! ## Joining -/

variable {dir name : String}

theorem isAbsolute_join (h : isAbsolute dir = true) (hn : isAbsolute name = false) :
    isAbsolute (join dir name) = true := by
  obtain ⟨c, cs, hd⟩ : ∃ c cs, dir.toList = c :: cs := by
    cases hd : dir.toList with
    | nil => simp [isAbsolute, hd] at h
    | cons c cs => exact ⟨c, cs, rfl⟩
  have hc : c = '/' := by simpa [isAbsolute, hd] using h
  unfold join
  rw [if_neg (by simp [hn])]
  split <;> simp [isAbsolute, hd, hc]

theorem isAbsolute_of_not_mem (h : '/' ∉ name.toList) : isAbsolute name = false := by
  cases hn : name.toList with
  | nil => simp [isAbsolute, hn]
  | cons c cs =>
    have hc : c ≠ '/' := fun e => h (by rw [hn, e]; exact List.mem_cons_self)
    simp [isAbsolute, hn, hc]

/-- A joined path has no character that neither part has, but for the slash. -/
theorem not_mem_join {c : Char} (hd : c ∉ dir.toList) (hn : c ∉ name.toList) (hc : c ≠ '/') :
    c ∉ (join dir name).toList := by
  unfold join
  split
  · exact hn
  · split <;> simp [hd, hn, hc]

/-- The parts of a name below a directory. -/
theorem splitAt_join (hd : dir ≠ "") (hn : '/' ∉ name.toList) :
    ∃ parts, splitAt '/' (join dir name) = parts ++ [name] ∧
      (splitAt '/' dir = parts ∨ splitAt '/' dir = parts ++ [""]) := by
  have hname : pieces '/' name.toList = [name.toList] := pieces_of_not_mem hn
  unfold join
  rw [if_neg (by simp [isAbsolute_of_not_mem hn])]
  by_cases hlast : dir.toList.getLast? = some '/'
  · -- The slash at the end of the directory stands before the name.
    obtain ⟨front, hfront⟩ := List.getLast?_eq_some_iff.1 hlast
    refine ⟨(pieces '/' front).map String.ofList, ?_, .inr ?_⟩
    · rw [if_pos (by simp [hlast]), splitAt, String.toList_append, hfront, List.append_assoc,
        List.singleton_append, pieces_append, hname, List.map_append]
      simp
    · rw [splitAt, hfront, pieces_append, List.map_append]
      rfl
  · refine ⟨splitAt '/' dir, ?_, .inl rfl⟩
    have hslash : ("/" : String).toList = ['/'] := rfl
    rw [if_neg (by simp [hd, hlast]), splitAt, String.toList_append, String.toList_append, hslash,
      List.append_assoc, List.singleton_append, pieces_append, hname, List.map_append]
    simp [splitAt]

theorem join_ne_empty (hn : name ≠ "") : join dir name ≠ "" := by
  have happend : ∀ a : String, a ++ name ≠ "" := by
    intro a h
    exact hn ((String.append_eq_empty_iff.1 h).2)
  unfold join
  split
  · exact hn
  · split
    · exact happend dir
    · exact happend _

/-- The named parts of an entry are those of its directory and its name. -/
theorem namedParts_join (hd : dir ≠ "") (hn : '/' ∉ name.toList) (hne : name ≠ "") :
    namedParts (join dir name) = namedParts dir ++ [name] := by
  obtain ⟨parts, hjoin, hdir⟩ := splitAt_join hd hn
  unfold namedParts
  rw [hjoin, List.filter_append]
  rcases hdir with hdir | hdir
  · rw [hdir]
    simp [hne]
  · rw [hdir, List.filter_append]
    simp [hne]


/-! ## Normal form -/

/-- A part of a path that is a name. -/
structure IsPart (name : String) : Prop where
  plain : name ∉ ["", ".", ".."]
  noSlash : '/' ∉ name.toList

/-- The path starts at a root and goes down through names. -/
def Normal (path : String) : Prop :=
  ∃ root names, (root = "/" ∨ root = "//") ∧ (∀ name ∈ names, IsPart name) ∧
    path = root ++ "/".intercalate names

variable {root : String} {names : List String}

/-- The text of some names does not start with a slash. -/
theorem head?_intercalate (h : ∀ name ∈ names, IsPart name) :
    ("/".intercalate names).toList.head? ≠ some '/' := by
  rw [String.toList_intercalate]
  cases names with
  | nil => simp
  | cons name rest =>
    obtain ⟨hplain, hslash⟩ := h name List.mem_cons_self
    cases hc : name.toList with
    | nil =>
      have hempty : name = "" := String.toList_inj.1 hc
      simp [hempty] at hplain
    | cons c cs =>
      have hne : c ≠ '/' := fun e => hslash (by rw [hc, e]; exact List.mem_cons_self)
      cases rest with
      | nil => simp [hc, hne]
      | cons next rest => simp [hc, hne, List.intercalate_cons_cons]

theorem rootOf_append (hr : root = "/" ∨ root = "//") {text : String}
    (ht : text.toList.head? ≠ some '/') : rootOf (root ++ text) = root := by
  unfold rootOf
  rw [String.toList_append]
  cases hc : text.toList with
  | nil => rcases hr with rfl | rfl <;> rfl
  | cons c cs =>
    have hne : c ≠ '/' := by simpa [hc] using ht
    rcases hr with rfl | rfl <;> simp [hne]

theorem splitAt_root (hr : root = "/" ∨ root = "//") (text : String) :
    ∃ empties, (∀ part ∈ empties, part = "") ∧
      splitAt '/' (root ++ text) = empties ++ splitAt '/' text := by
  rcases hr with rfl | rfl
  · exact ⟨[""], by simp, by simp [splitAt, pieces]⟩
  · exact ⟨["", ""], by simp, by simp [splitAt, pieces]⟩

/-- The parts of a path in normal form are its names, and empty. -/
theorem splitAt_normal (hr : root = "/" ∨ root = "//") (hn : ∀ name ∈ names, IsPart name) :
    ∃ empties, (∀ part ∈ empties, part = "") ∧
      splitAt '/' (root ++ "/".intercalate names) = empties ++ names := by
  obtain ⟨empties, he, hs⟩ := splitAt_root hr ("/".intercalate names)
  by_cases hne : names = []
  · subst hne
    refine ⟨empties ++ [""], ?_, ?_⟩
    · intro part hpart
      rcases List.mem_append.1 hpart with hpart | hpart
      · exact he part hpart
      · exact List.mem_singleton.1 hpart
    · rw [hs, List.append_nil]
      rfl
  · rw [splitAt_intercalate hne fun name hname => (hn name hname).noSlash] at hs
    exact ⟨empties, he, hs⟩

theorem foldl_normalStep_of_empty {rooted : Bool} {done parts : List String}
    (h : ∀ part ∈ parts, part = "") : parts.foldl (normalStep rooted) done = done := by
  induction parts with
  | nil => rfl
  | cons part rest ih =>
    obtain ⟨hp, hrest⟩ := List.forall_mem_cons.1 h
    rw [List.foldl_cons, hp]
    exact ih hrest

theorem foldl_normalStep_of_names {rooted : Bool} {done : List String}
    (h : ∀ name ∈ names, IsPart name) :
    names.foldl (normalStep rooted) done = names.reverse ++ done := by
  induction names generalizing done with
  | nil => rfl
  | cons name rest ih =>
    obtain ⟨hname, hrest⟩ := List.forall_mem_cons.1 h
    have hplain := hname.plain
    simp only [List.mem_cons, List.not_mem_nil, or_false, not_or] at hplain
    have hstep : normalStep rooted done name = name :: done := by
      unfold normalStep
      rw [if_neg (by simp [hplain]), if_pos hplain.2.2]
    rw [List.foldl_cons, hstep, ih hrest, List.reverse_cons, List.append_assoc]
    rfl

namespace Normal

theorem isAbsolute (h : Normal path) : isAbsolute path = true := by
  obtain ⟨root, names, hr, -, rfl⟩ := h
  rcases hr with rfl | rfl <;> simp [Path.isAbsolute]

theorem normalize_eq (h : Normal path) : normalize path = path := by
  obtain ⟨root, names, hr, hn, rfl⟩ := h
  obtain ⟨empties, he, hs⟩ := splitAt_normal hr hn
  have hroot : rootOf (root ++ "/".intercalate names) = root :=
    rootOf_append hr (head?_intercalate hn)
  have hne : root ≠ "" := by rcases hr with rfl | rfl <;> decide
  unfold normalize
  dsimp only
  rw [hroot, hs, List.foldl_append, foldl_normalStep_of_empty he, foldl_normalStep_of_names hn]
  simp [hne]

theorem text_ofString (h : Normal path) : (ofString path).text = path := by
  obtain ⟨root, names, hr, hn, rfl⟩ := h
  obtain ⟨empties, he, hs⟩ := splitAt_normal hr hn
  have hroot : rootOf (root ++ "/".intercalate names) = root :=
    rootOf_append hr (head?_intercalate hn)
  have hne : root ≠ "" := by rcases hr with rfl | rfl <;> decide
  have hempty : empties.filter (fun p => decide (p ≠ "") && decide (p ≠ ".")) = [] :=
    List.filter_eq_nil_iff.2 fun part hpart => by simp [he part hpart]
  have hnames : names.filter (fun p => decide (p ≠ "") && decide (p ≠ ".")) = names :=
    List.filter_eq_self.2 fun name hname => by
      have hplain := (hn name hname).plain
      simp only [List.mem_cons, List.not_mem_nil, or_false, not_or] at hplain
      simp [hplain]
  unfold ofString text
  rw [hroot, hs, List.filter_append, hempty, hnames, List.nil_append, if_neg (by simp [hne])]

end Normal

end Path

end ConsoleSweep
