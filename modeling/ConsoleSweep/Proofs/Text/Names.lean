/-
  Texts without blanks at their ends, and names that are used as they are.

  Trimming takes the blanks off both ends of a text, and nothing off a text that has none
  there (`trim_of_ends`). Names are put into their normal form by trimming them, leaving out
  blank ones and those that came before; `Tidy` says of names that they are in it.
-/
import ConsoleSweep.Text.Blank

namespace ConsoleSweep.Text

variable {c : Char} {text : List Char} {names : List String}

theorem trimRight_cons (c : Char) (cs : List Char) : trimRight (c :: cs) =
    if trimRight cs = [] ∧ isBlank c = true then [] else c :: trimRight cs := by
  rw [trimRight]
  split
  · next h => cases hb : isBlank c <;> simp [h]
  · next h => rw [if_neg fun hn => h hn.1]

theorem trimRight_trimRight (text : List Char) : trimRight (trimRight text) = trimRight text := by
  induction text with
  | nil => rfl
  | cons c cs ih =>
    rw [trimRight_cons]
    split
    · rfl
    · next h => rw [trimRight_cons, ih, if_neg h]

theorem skipBlank_of_head (h : ∀ c ∈ text.head?, isBlank c = false) : skipBlank text = text := by
  cases text with
  | nil => rfl
  | cons c cs => exact List.dropWhile_cons_of_neg (by simp [h c rfl])

theorem head_skipBlank (text : List Char) : ∀ c ∈ (skipBlank text).head?, isBlank c = false := by
  intro c hc
  have hhead := List.head?_dropWhile_not isBlank text
  have hc : (text.dropWhile isBlank).head? = some c := hc
  rwa [hc] at hhead

/-- A text whose first character is no blank keeps that character. -/
theorem head_trimRight (h : ∀ c ∈ text.head?, isBlank c = false) :
    ∀ c ∈ (trimRight text).head?, isBlank c = false := by
  cases text with
  | nil => exact h
  | cons c cs =>
    have hc : isBlank c = false := h c rfl
    rw [trimRight_cons, if_neg (by simp [hc])]
    exact h

theorem trimRight_of_last (h : ∀ c ∈ text.getLast?, isBlank c = false) : trimRight text = text := by
  induction text with
  | nil => rfl
  | cons c cs ih =>
    rw [trimRight_cons]
    cases cs with
    | nil =>
      have hc : isBlank c = false := h c rfl
      rw [if_neg (by simp [hc])]
      rfl
    | cons d cs =>
      have hrest := ih (by simpa using h)
      rw [hrest, if_neg (by simp)]

/-- A text with no blank at either end is left as it is. -/
theorem trim_of_ends (hhead : ∀ c ∈ text.head?, isBlank c = false)
    (hlast : ∀ c ∈ text.getLast?, isBlank c = false) : trim text = text := by
  unfold trim
  rw [skipBlank_of_head hhead, trimRight_of_last hlast]

theorem trim_trim (text : List Char) : trim (trim text) = trim text := by
  have hhead := head_trimRight (head_skipBlank text)
  unfold trim
  rw [skipBlank_of_head hhead, trimRight_trimRight]

theorem trimmed_trimmed (s : String) : trimmed (trimmed s) = trimmed s := by
  simp [trimmed, trim_trim]

/-- Names as they are used: none has blanks at its ends, none is empty, and none comes twice. -/
structure Tidy (names : List String) : Prop where
  nodup : names.Nodup
  trimmed : ∀ n ∈ names, trimmed n = n
  filled : ∀ n ∈ names, n ≠ ""

instance (names : List String) : Decidable (Tidy names) :=
  decidable_of_iff (names.Nodup ∧ (∀ n ∈ names, trimmed n = n) ∧ ∀ n ∈ names, n ≠ "")
    ⟨fun h => ⟨h.1, h.2.1, h.2.2⟩, fun h => ⟨h.nodup, h.trimmed, h.filled⟩⟩

theorem nodup_eraseDups (names : List String) : names.eraseDups.Nodup := by
  match names with
  | [] => simp
  | n :: names =>
    rw [List.eraseDups_cons, List.nodup_cons, List.mem_eraseDups]
    exact ⟨by simp, nodup_eraseDups _⟩
termination_by names.length
decreasing_by exact Nat.lt_succ_of_le (List.length_filter_le _ _)

theorem removeAll_singleton (names : List String) (n : String) :
    [n].removeAll names = if n ∈ names then [] else [n] := by
  unfold List.removeAll
  by_cases h : n ∈ names <;> simp [h]

/-- One name more is added at the end, unless it came before. -/
theorem eraseDups_concat (names : List String) (n : String) : (names ++ [n]).eraseDups =
    if n ∈ names then names.eraseDups else names.eraseDups ++ [n] := by
  rw [List.eraseDups_append, removeAll_singleton]
  by_cases h : n ∈ names <;> simp [h, List.eraseDups_cons]

theorem eraseDups_of_nodup (h : names.Nodup) : names.eraseDups = names := by
  induction names with
  | nil => rfl
  | cons n names ih =>
    obtain ⟨hn, hnames⟩ := List.nodup_cons.1 h
    have hall : names.filter (fun m => !m == n) = names := by
      refine List.filter_eq_self.2 fun m hm => ?_
      have hne : m ≠ n := fun e => hn (e ▸ hm)
      simp [hne]
    rw [List.eraseDups_cons, hall, ih hnames]

theorem mem_normalizeNames {name : String} :
    name ∈ normalizeNames names ↔ name ∈ names.map trimmed ∧ name ≠ "" := by
  unfold normalizeNames
  rw [List.mem_eraseDups, List.mem_filter, decide_eq_true_eq]

theorem tidy_normalizeNames (names : List String) : Tidy (normalizeNames names) := by
  have hmem : ∀ n ∈ normalizeNames names, trimmed n = n ∧ n ≠ "" := by
    intro n hn
    obtain ⟨hmap, hne⟩ := mem_normalizeNames.1 hn
    obtain ⟨m, -, rfl⟩ := List.mem_map.1 hmap
    exact ⟨trimmed_trimmed m, hne⟩
  exact ⟨nodup_eraseDups _, fun n hn => (hmem n hn).1, fun n hn => (hmem n hn).2⟩

theorem normalizeNames_of_tidy (h : Tidy names) : normalizeNames names = names := by
  have hmap : names.map trimmed = names :=
    (List.map_congr_left h.trimmed).trans (List.map_id' names)
  have hfilter : names.filter (· ≠ "") = names :=
    List.filter_eq_self.2 fun n hn => by simpa using h.filled n hn
  unfold normalizeNames
  rw [hmap, hfilter, eraseDups_of_nodup h.nodup]

end ConsoleSweep.Text

