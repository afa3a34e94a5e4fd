/-
  Lines, and blank lines in a row.

  A text is divided into lines at its line feeds; all but the last are ended by one
  (`endedLines`). The line feeds in the whitespace that a text starts with are those of the
  blank lines it opens with (`breaksAhead_eq`). So a text has three blank lines in a row
  (`HasGap`) only where it starts, if no whitespace in it has more than three line feeds
  (`Tight`): anywhere else there is one more, that of the line before them.
-/
import ConsoleSweep.Proofs.Heads
import ConsoleSweep.Proofs.Text.Pieces

namespace ConsoleSweep.Text

variable {text : List Char}

/-! ## Lines -/

/-- The lines that are ended by a line feed. -/
def endedLines (text : List Char) : List (List Char) :=
  (pieces '\n' text).dropLast

/-- Whether there is nothing but whitespace on a line. -/
def isBlankLine (line : List Char) : Bool :=
  line.all isBlank

theorem isBlankLine_iff {line : List Char} : isBlankLine line = true ↔ Blank line :=
  List.all_eq_true

/-- Lines with nothing but whitespace on them. -/
def AllBlank (lines : List (List Char)) : Prop :=
  ∀ line ∈ lines, Blank line

/-- Three blank lines in a row, each ended by a line feed. -/
def HasGap (text : List Char) : Prop :=
  ∃ gap, gap <:+: endedLines text ∧ gap.length = 3 ∧ AllBlank gap

/-- The first three lines are blank, each ended by a line feed. -/
def OpensWithGap (text : List Char) : Prop :=
  ∃ gap, gap <+: endedLines text ∧ gap.length = 3 ∧ AllBlank gap

theorem endedLines_of_not_mem (h : '\n' ∉ text) : endedLines text = [] := by
  rw [endedLines, pieces_of_not_mem h]
  rfl

theorem endedLines_break (x z : List Char) :
    endedLines (x ++ '\n' :: z) = pieces '\n' x ++ endedLines z := by
  rw [endedLines, pieces_append, List.dropLast_append_of_ne_nil (pieces_ne_nil '\n' z)]
  rfl

theorem endedLines_line {line : List Char} (h : '\n' ∉ line) (rest : List Char) :
    endedLines (line ++ '\n' :: rest) = line :: endedLines rest := by
  rw [endedLines_break, pieces_of_not_mem h, List.singleton_append]

/-- What follows some of the lines is what follows a line feed. -/
theorem exists_of_endedLines {line : List Char} {above below : List (List Char)}
    (h : endedLines text = line :: (above ++ below)) :
    ∃ x z, text = x ++ '\n' :: z ∧ endedLines z = below := by
  induction text using pieces_induction '\n' generalizing line above with
  | last text htext =>
    rw [endedLines_of_not_mem htext] at h
    cases h
  | next first rest hfirst ih =>
    rw [endedLines_line hfirst] at h
    obtain ⟨-, hrest⟩ := List.cons.inj h
    cases above with
    | nil => exact ⟨first, rest, rfl, hrest⟩
    | cons next above =>
      obtain ⟨x, z, rfl, hz⟩ := ih hrest
      exact ⟨first ++ '\n' :: x, z, by simp, hz⟩

/-! ## Line feeds in whitespace -/

/-- The number of line feeds in the whitespace that the text starts with. -/
def breaksAhead (text : List Char) : Nat :=
  (text.takeWhile isBlank).count '\n'

theorem breaksAhead_cons {c : Char} (hc : isBlank c = true) (cs : List Char) :
    breaksAhead (c :: cs) = (if c = '\n' then 1 else 0) + breaksAhead cs := by
  rw [breaksAhead, List.takeWhile_cons_of_pos hc, List.count_cons, Nat.add_comm]
  simp [breaksAhead]

theorem breaksAhead_of_solid {c : Char} (hc : isBlank c = false) (cs : List Char) :
    breaksAhead (c :: cs) = 0 := by
  simp [breaksAhead, hc]

theorem breaksAhead_append {b : List Char} (hb : Blank b) (z : List Char) :
    breaksAhead (b ++ z) = b.count '\n' + breaksAhead z := by
  rw [breaksAhead, List.takeWhile_append_of_pos hb, List.count_append]
  rfl

theorem breaksAhead_append_of_not_blank {x : List Char} (hx : ¬ Blank x) (z : List Char) :
    breaksAhead (x ++ z) = breaksAhead x := by
  induction x with
  | nil => exact absurd blank_nil hx
  | cons c cs ih =>
    cases hc : isBlank c with
    | false => rw [List.cons_append, breaksAhead_of_solid hc, breaksAhead_of_solid hc]
    | true =>
      have hcs : ¬ Blank cs := fun h => hx (blank_cons.2 ⟨hc, h⟩)
      rw [List.cons_append, breaksAhead_cons hc, breaksAhead_cons hc, ih hcs]

theorem breaksAhead_of_not_mem (h : '\n' ∉ text) : breaksAhead text = 0 := by
  rw [breaksAhead, List.count_eq_zero]
  exact fun hmem => h ((List.takeWhile_prefix isBlank).subset hmem)

/-- A text opens with as many blank lines as there are line feeds in the whitespace ahead. -/
theorem breaksAhead_eq (text : List Char) :
    breaksAhead text = ((endedLines text).takeWhile isBlankLine).length := by
  induction text using pieces_induction '\n' with
  | last line hline =>
    rw [breaksAhead_of_not_mem hline, endedLines_of_not_mem hline]
    rfl
  | next line rest hline ih =>
    rw [endedLines_line hline]
    by_cases hb : Blank line
    · rw [breaksAhead_append hb, List.count_eq_zero.2 hline, breaksAhead_cons (by decide), ih,
        List.takeWhile_cons_of_pos (isBlankLine_iff.2 hb), List.length_cons, if_pos rfl]
      omega
    · rw [breaksAhead_append_of_not_blank hb, breaksAhead_of_not_mem hline,
        List.takeWhile_cons_of_neg (mt isBlankLine_iff.1 hb)]
      rfl

theorem length_le_breaksAhead {gap : List (List Char)} (h : gap <+: endedLines text)
    (hblank : AllBlank gap) : gap.length ≤ breaksAhead text := by
  obtain ⟨rest, e⟩ := h
  have hall : ∀ line ∈ gap, isBlankLine line = true := fun line hline =>
    isBlankLine_iff.2 (hblank line hline)
  rw [breaksAhead_eq, ← e, List.takeWhile_append_of_pos hall, List.length_append]
  exact Nat.le_add_right _ _

theorem opensWithGap_iff : OpensWithGap text ↔ 3 ≤ breaksAhead text := by
  constructor
  · rintro ⟨gap, hgap, hlen, hblank⟩
    exact hlen ▸ length_le_breaksAhead hgap hblank
  · rw [breaksAhead_eq]
    intro h
    refine ⟨((endedLines text).takeWhile isBlankLine).take 3, ?_, ?_, fun line hline => ?_⟩
    · exact (List.take_prefix 3 _).trans (List.takeWhile_prefix _)
    · rw [List.length_take, Nat.min_eq_left h]
    · have hall : ((endedLines text).takeWhile isBlankLine).all isBlankLine = true :=
        List.all_takeWhile
      exact isBlankLine_iff.1 (List.all_eq_true.1 hall line (List.mem_of_mem_take hline))

/-! ## Whitespace with few line feeds -/

/-- No whitespace in the text has more than three line feeds. -/
def Tight (text : List Char) : Prop :=
  ∀ x z, text = x ++ z → breaksAhead z ≤ 3

theorem tight_nil : Tight [] := by
  intro x z e
  obtain ⟨-, rfl⟩ := List.append_eq_nil_iff.1 e.symm
  exact Nat.zero_le 3

theorem tight_cons {c : Char} {cs : List Char} :
    Tight (c :: cs) ↔ breaksAhead (c :: cs) ≤ 3 ∧ Tight cs := by
  constructor
  · intro h
    exact ⟨h [] _ rfl, fun x z e => h (c :: x) z (congrArg (c :: ·) e)⟩
  · rintro ⟨hc, hcs⟩ x z e
    cases x with
    | nil => rwa [← List.nil_append z, ← e]
    | cons d x => exact hcs x z (List.cons.inj e).2

/-- Whitespace in front of a tight text. -/
theorem tight_append {b z : List Char} (hb : Blank b) (hle : breaksAhead (b ++ z) ≤ 3)
    (hz : Tight z) : Tight (b ++ z) := by
  induction b with
  | nil => exact hz
  | cons c b ih =>
    obtain ⟨hc, hb⟩ := blank_cons.1 hb
    have hcount := breaksAhead_cons hc (b ++ z)
    rw [List.cons_append] at hle ⊢
    exact tight_cons.2 ⟨hle, ih hb (by omega)⟩

theorem Tight.of_append {x z : List Char} (h : Tight (x ++ z)) : Tight z :=
  fun u v e => h (x ++ u) v (by rw [e, List.append_assoc])

/-- A tight text has at most two blank lines in a row, and three where it starts. -/
theorem Tight.length_le (h : Tight text) {above gap below : List (List Char)}
    (e : endedLines text = above ++ (gap ++ below)) (hblank : AllBlank gap) :
    gap.length ≤ if above = [] then 3 else 2 := by
  cases above with
  | nil => exact Nat.le_trans (length_le_breaksAhead ⟨below, e.symm⟩ hblank) (h [] text rfl)
  | cons line above =>
    obtain ⟨x, z, rfl, hz⟩ := exists_of_endedLines e
    have hlen := length_le_breaksAhead ⟨below, hz.symm⟩ hblank
    -- The line feed in front of the blank lines counts too.
    have hfew := h x ('\n' :: z) rfl
    rw [breaksAhead_cons (by decide), if_pos rfl] at hfew
    rw [if_neg (List.cons_ne_nil _ _)]
    omega

theorem Tight.hasGap_iff (h : Tight text) : HasGap text ↔ OpensWithGap text := by
  constructor
  · rintro ⟨gap, ⟨above, below, e⟩, hlen, hblank⟩
    rw [List.append_assoc] at e
    have hle := h.length_le e.symm hblank
    cases above with
    | nil => exact ⟨gap, ⟨below, e⟩, hlen, hblank⟩
    | cons line above =>
      rw [if_neg (List.cons_ne_nil _ _)] at hle
      omega
  · rintro ⟨gap, hpre, hlen, hblank⟩
    exact ⟨gap, hpre.isInfix, hlen, hblank⟩

end ConsoleSweep.Text
