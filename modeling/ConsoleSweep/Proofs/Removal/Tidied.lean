/-
  What tidying leaves of the blank lines.

  Shortening leaves whitespace with more than three line feeds nowhere (`tight_shortened`),
  and taking off lone indents works line by line and leaves the line feeds where they are
  (`pieces_bared`, `tight_bared`). So a tidied text has at most two blank lines in a row,
  but for its start: there no line stands before them, and the same whitespace makes three
  (`blank_lines_left`). Tidying keeps every line that is not blank, and a second time it
  finds nothing to do (`normalizeBlankLines_settles`).
-/
import Mathlib.Data.List.TakeWhile
import ConsoleSweep.Proofs.Removal.Statements
import ConsoleSweep.Proofs.Text.Lines

namespace ConsoleSweep.Removal

open ConsoleSweep.Text ConsoleSweep.Call

/-! ## Runs of blank lines -/

theorem breaksAhead_skipBlank (text : List Char) : breaksAhead (skipBlank text) = 0 := by
  cases h : skipBlank text with
  | nil => rfl
  | cons c cs => exact breaksAhead_of_solid (not_isBlank_of_skipBlank h) cs

/-- A run is found where four line feeds are ahead, and it takes them all. -/
theorem breaksAhead_of_blankRun {prev : Option Char} {text z : List Char}
    (h : blankRun prev text = some z) : 4 ≤ breaksAhead text ∧ breaksAhead z = 0 := by
  unfold blankRun at h
  split at h
  · next hc =>
    simp only [Bool.and_eq_true, decide_eq_true_eq] at hc
    refine ⟨hc.2, ?_⟩
    rw [← Option.some.inj h]
    -- What is left of the whitespace is its last line.
    have hlast : ∀ c ∈ (text.takeWhile isBlank).reverse.takeWhile (· ≠ '\n'), c ≠ '\n' := by
      intro c hc
      simpa using List.all_eq_true.1 List.all_takeWhile c hc
    have hblank : ∀ c ∈ (text.takeWhile isBlank).reverse.takeWhile (· ≠ '\n'),
        isBlank c = true := by
      intro c hc
      exact blank_takeWhile text c (List.mem_reverse.1 ((List.takeWhile_prefix _).subset hc))
    generalize (text.takeWhile isBlank).reverse.takeWhile (· ≠ '\n') = last at hlast hblank
    have hcount : last.reverse.count '\n' = 0 := by
      rw [List.count_reverse, List.count_eq_zero]
      exact fun hmem => hlast '\n' hmem rfl
    rw [breaksAhead_append (fun c hc => hblank c (List.mem_reverse.1 hc)), hcount,
      breaksAhead_skipBlank]
  · cases h

theorem breaksAhead_of_no_run {prev : Option Char} {cs : List Char}
    (h : blankRun prev ('\n' :: cs) = none) : breaksAhead ('\n' :: cs) ≤ 3 := by
  unfold blankRun at h
  split at h
  · cases h
  · next hc =>
    by_contra hle
    refine hc ?_
    simp only [Bool.and_eq_true, decide_eq_true_eq]
    exact ⟨rfl, Nat.lt_of_not_le hle⟩

theorem blank_collapsed (run : List Char) : Blank (collapsed run) := by
  unfold collapsed
  split <;> exact List.all_eq_true.1 (by decide)

theorem count_collapsed (run : List Char) : (collapsed run).count '\n' = 3 := by
  unfold collapsed
  split <;> rfl

/-- Shortening leaves no whitespace with more than three line feeds. Where there were fewer, they
stay as many. -/
theorem tight_shortened (text : List Char) :
    Tight (shortened text) ∧ breaksAhead (shortened text) = min 3 (breaksAhead text) := by
  rw [shortened_eq]
  refine rewritten_hits_induction advances_blankRun collapsed
    (P := fun _ text res => Tight res ∧ breaksAhead res = min 3 (breaksAhead text)) ?_ ?_ ?_ none
    text
  · intro _
    exact ⟨tight_nil, rfl⟩
  · rintro prev c cs res hnone ⟨htight, hcount⟩
    have hahead : breaksAhead (c :: res) = min 3 (breaksAhead (c :: cs)) := by
      cases hc : isBlank c with
      | false => rw [breaksAhead_of_solid hc, breaksAhead_of_solid hc]; rfl
      | true =>
        rw [breaksAhead_cons hc, breaksAhead_cons hc, hcount]
        split
        · next hbreak =>
          subst hbreak
          have hfew := breaksAhead_of_no_run hnone
          rw [breaksAhead_cons hc, if_pos rfl] at hfew
          omega
        · omega
    exact ⟨tight_cons.2 ⟨by omega, htight⟩, hahead⟩
  · rintro prev y z res _ hrun ⟨htight, hcount⟩
    obtain ⟨hmany, hnone⟩ := breaksAhead_of_blankRun hrun
    have hahead : breaksAhead (collapsed y ++ res) = 3 := by
      rw [breaksAhead_append (blank_collapsed y), count_collapsed, hcount, hnone]
      rfl
    refine ⟨tight_append (blank_collapsed y) (by omega) htight, by omega⟩

theorem shortened_of_tight {text : List Char} (h : Tight text) : shortened text = text := by
  have hnone : hits blankRun none text = [] := by
    rw [hits_eq_nil_iff advances_blankRun]
    intro x z e
    cases hrun : blankRun (behind none x) z with
    | none => rfl
    | some rest =>
      have hmany := (breaksAhead_of_blankRun hrun).1
      have hfew := h x z e
      omega
  rw [shortened_eq, hnone, rewritten_nil]

/-! ## Lines with an indent only -/

/-- An indent with nothing behind it but maybe a carriage return. -/
def IndentOnly (line : List Char) : Prop :=
  ∃ ind tail, ind ≠ [] ∧ (∀ c ∈ ind, isIndent c = true) ∧ (tail = [] ∨ tail = ['\r']) ∧
    line = ind ++ tail

/-- The line without its indent, if it has nothing else but maybe a carriage return. -/
def unindented (line : List Char) : List Char :=
  if skipIndent line = [] ∨ skipIndent line = ['\r'] then skipIndent line else line

theorem endsLine_of_tail {tail : List Char} (h : tail = [] ∨ tail = ['\r']) : EndsLine tail :=
  h.imp_right fun h => .inr (.inl h)

theorem skipIndent_of_endsLine {ind z : List Char} (hi : ∀ c ∈ ind, isIndent c = true)
    (hz : EndsLine z) : skipIndent (ind ++ z) = z := by
  rw [skipIndent_append hi]
  rcases hz with rfl | ⟨r, rfl⟩ | rfl | ⟨r, rfl⟩
  · rfl
  all_goals exact skipIndent_cons_of_not (by decide) _

theorem unindented_append {ind tail : List Char} (hi : ∀ c ∈ ind, isIndent c = true)
    (htail : tail = [] ∨ tail = ['\r']) : unindented (ind ++ tail) = tail := by
  rw [unindented, skipIndent_of_endsLine hi (endsLine_of_tail htail), if_pos htail]

theorem unindented_of_not_indentOnly {line : List Char} (h : ¬ IndentOnly line) :
    unindented line = line := by
  unfold unindented
  split
  · next hskip =>
    have hsplit := skipIndent_split line
    by_cases hnil : line.takeWhile isIndent = []
    · rwa [hnil, List.nil_append] at hsplit
    · exact absurd ⟨_, _, hnil, isIndent_takeWhile line, hskip, hsplit.symm⟩ h
  · rfl

theorem not_indentOnly_unindented (line : List Char) : ¬ IndentOnly (unindented line) := by
  unfold unindented
  split
  · next hskip =>
    -- What is left is a carriage return or nothing, and neither is an indent.
    rintro ⟨ind, tail, hne, hi, -, hline⟩
    obtain ⟨c, ind, rfl⟩ := List.exists_cons_of_ne_nil hne
    have hc := hi c List.mem_cons_self
    rcases hskip with hskip | hskip
    · rw [hskip] at hline
      cases hline
    · rw [hskip] at hline
      obtain ⟨rfl, -⟩ := List.cons.inj hline
      cases hc
  · next hskip =>
    rintro ⟨ind, tail, -, hi, htail, rfl⟩
    rw [skipIndent_of_endsLine hi (endsLine_of_tail htail)] at hskip
    exact hskip htail

theorem unindented_unindented (line : List Char) :
    unindented (unindented line) = unindented line :=
  unindented_of_not_indentOnly (not_indentOnly_unindented line)

/-- The indent of a line that has nothing else is found. -/
theorem loneIndent_isSome {prev : Option Char} {line text : List Char}
    (hprev : startsLine prev = true) (hline : IndentOnly line)
    (h : text = line ∨ ∃ rest, text = line ++ '\n' :: rest) :
    (loneIndent prev text).isSome = true := by
  obtain ⟨ind, tail, hne, hi, htail, rfl⟩ := hline
  -- The text goes on behind the indent with the end of the line.
  obtain ⟨z, rfl, hz⟩ : ∃ z, text = ind ++ z ∧ EndsLine z := by
    rcases h with rfl | ⟨rest, rfl⟩
    · exact ⟨tail, rfl, endsLine_of_tail htail⟩
    · refine ⟨tail ++ '\n' :: rest, List.append_assoc .., ?_⟩
      rcases htail with rfl | rfl
      · exact .inr (.inl ⟨rest, rfl⟩)
      · exact .inr (.inr (.inr ⟨rest, rfl⟩))
  have hskip := skipIndent_of_endsLine hi hz
  obtain ⟨c, ind, rfl⟩ := List.exists_cons_of_ne_nil hne
  unfold loneIndent
  rw [hskip, hprev]
  simp only [List.cons_append, List.head?_cons, Option.map_some, Option.getD_some,
    hi c List.mem_cons_self, Bool.and_self, if_true]
  rcases hz with rfl | ⟨r, rfl⟩ | rfl | ⟨r, rfl⟩ <;> rfl

/-- Where a line ends, its first piece is empty or a carriage return. -/
theorem pieces_of_endsLine {z : List Char} (hz : EndsLine z) :
    ∃ tail lines, pieces '\n' z = tail :: lines ∧ (tail = [] ∨ tail = ['\r']) := by
  rcases hz with rfl | ⟨r, rfl⟩ | rfl | ⟨r, rfl⟩
  · exact ⟨[], [], rfl, .inl rfl⟩
  · exact ⟨[], pieces '\n' r, rfl, .inl rfl⟩
  · exact ⟨['\r'], [], rfl, .inr rfl⟩
  · exact ⟨['\r'], pieces '\n' r, rfl, .inr rfl⟩

/-- Lone indents are taken off line by line. -/
theorem pieces_bared (text : List Char) :
    pieces '\n' (bared text) = (pieces '\n' text).map unindented := by
  rw [bared_eq]
  -- On a line that has begun, the rest of it is kept.
  have both := rewritten_hits_induction advances_loneIndent (fun _ => [])
    (P := fun prev text res =>
      (startsLine prev = true → pieces '\n' res = (pieces '\n' text).map unindented) ∧
      (startsLine prev = false → ∃ line lines, pieces '\n' text = line :: lines ∧
        pieces '\n' res = line :: lines.map unindented))
    ?_ ?_ ?_ none text
  · exact both.1 rfl
  · intro _
    exact ⟨fun _ => rfl, fun _ => ⟨[], [], rfl, rfl⟩⟩
  · intro prev c cs res hnone ih
    by_cases hc : c = '\n'
    · subst hc
      have hres : pieces '\n' ('\n' :: res) = [] :: (pieces '\n' cs).map unindented :=
        congrArg ([] :: ·) (ih.1 rfl)
      exact ⟨fun _ => hres, fun _ => ⟨[], _, rfl, hres⟩⟩
    · obtain ⟨line, lines, hcs, hres⟩ := ih.2 (by simp [startsLine, hc])
      refine ⟨fun hprev => ?_, fun _ => ⟨_, _, pieces_cons hc hcs, pieces_cons hc hres⟩⟩
      have hkept : ¬ IndentOnly (c :: line) := by
        intro hline
        have hsome := loneIndent_isSome hprev hline (exists_of_pieces (pieces_cons hc hcs)).2
        rw [hnone] at hsome
        cases hsome
      rw [pieces_cons hc hcs, pieces_cons hc hres, List.map_cons,
        unindented_of_not_indentOnly hkept]
  · intro prev y z res hy hm ih
    obtain ⟨hprev, hz, -, -⟩ := loneIndent_eq_some hm
    have hi := isIndent_of_loneIndent hm
    have hmem : '\n' ∉ y := fun hmem => absurd (hi _ hmem) (by decide)
    obtain ⟨line, lines, hline, hres⟩ := ih.2 (startsLine_behind_indent hi hy prev)
    obtain ⟨tail, lines', htail, hends⟩ := pieces_of_endsLine hz
    obtain ⟨rfl, rfl⟩ := List.cons.inj (htail.symm.trans hline)
    refine ⟨fun _ => ?_, fun hf => ?_⟩
    · rw [pieces_append_of_not_mem hmem hline, List.map_cons, unindented_append hi hends]
      exact hres
    · rw [hprev] at hf
      cases hf

theorem bared_bared (text : List Char) : bared (bared text) = bared text := by
  have hlines : pieces '\n' (bared (bared text)) = pieces '\n' (bared text) := by
    rw [pieces_bared (bared text), pieces_bared, List.map_map]
    exact List.map_congr_left fun line _ => unindented_unindented line
  exact pieces_injective hlines

/-- Taking off lone indents leaves the line feeds where they are. -/
theorem tight_bared (text : List Char) :
    (Tight text → Tight (bared text)) ∧ breaksAhead (bared text) = breaksAhead text := by
  rw [bared_eq]
  refine rewritten_hits_induction advances_loneIndent (fun _ => [])
    (P := fun _ text res =>
      (Tight text → Tight res) ∧ breaksAhead res = breaksAhead text) ?_ ?_ ?_ none text
  · intro _
    exact ⟨id, rfl⟩
  · rintro prev c cs res - ⟨htight, hcount⟩
    have hahead : breaksAhead (c :: res) = breaksAhead (c :: cs) := by
      cases hc : isBlank c with
      | false => rw [breaksAhead_of_solid hc, breaksAhead_of_solid hc]
      | true => rw [breaksAhead_cons hc, breaksAhead_cons hc, hcount]
    refine ⟨fun h => ?_, hahead⟩
    rw [tight_cons] at h ⊢
    exact ⟨hahead ▸ h.1, htight h.2⟩
  · rintro prev y z res - hm ⟨htight, hcount⟩
    have hi := isIndent_of_loneIndent hm
    refine ⟨fun h => htight h.of_append, ?_⟩
    have hnone : y.count '\n' = 0 :=
      List.count_eq_zero.2 fun hmem => absurd (hi _ hmem) (by decide)
    rw [breaksAhead_append (fun c hc => isBlank_of_isIndent (hi c hc)), hnone, Nat.zero_add]
    exact hcount

/-! ## Both steps -/

/-- In a tidied text, no whitespace has more than three line feeds. -/
theorem tight_normalizeBlankLines (text : List Char) :
    Tight (normalizeBlankLines text) ∧
      breaksAhead (normalizeBlankLines text) = min 3 (breaksAhead text) := by
  obtain ⟨htight, hcount⟩ := tight_shortened text
  obtain ⟨hkept, hahead⟩ := tight_bared (shortened text)
  exact ⟨hkept htight, hahead.trans hcount⟩

theorem normalizeBlankLines_normalizeBlankLines (text : List Char) :
    normalizeBlankLines (normalizeBlankLines text) = normalizeBlankLines text := by
  rw [normalizeBlankLines_eq (normalizeBlankLines text),
    shortened_of_tight (tight_normalizeBlankLines text).1, normalizeBlankLines_eq text, bared_bared]

/-! ## Lines with something on them -/

/-- The lines of a text that are not blank. -/
def solidLines (text : List Char) : List (List Char) :=
  (pieces '\n' text).filter fun line => !isBlankLine line

theorem solidLines_break (x z : List Char) :
    solidLines (x ++ '\n' :: z) = solidLines x ++ solidLines z := by
  rw [solidLines, pieces_append, List.filter_append]
  rfl

theorem solidLines_of_blank {text : List Char} (h : Blank text) : solidLines text = [] := by
  induction text using pieces_induction '\n' with
  | last line hline =>
    rw [solidLines, pieces_of_not_mem hline]
    simp [isBlankLine_iff.2 h]
  | next line rest hline ih =>
    obtain ⟨hblank, hrest⟩ := blank_append.1 h
    rw [solidLines_break, ih (blank_cons.1 hrest).2, solidLines, pieces_of_not_mem hline]
    simp [isBlankLine_iff.2 hblank]

/-- Texts that differ in their blank lines only have the same other lines. -/
theorem solidLines_of_loose {s t : List Char} (h : Loose s t) : solidLines s = solidLines t := by
  -- The first lines are the same, and the others agree when blank ones are left out.
  have agree : ∃ line lines lines', pieces '\n' s = line :: lines ∧
      pieces '\n' t = line :: lines' ∧
      lines.filter (fun l => !isBlankLine l) = lines'.filter (fun l => !isBlankLine l) := by
    induction h with
    | nil => exact ⟨[], [], [], rfl, rfl, rfl⟩
    | keep c h ih =>
      obtain ⟨line, lines, lines', hs, ht, hrest⟩ := ih
      by_cases hc : c = '\n'
      · subst hc
        refine ⟨[], _, _, rfl, rfl, ?_⟩
        rw [hs, ht, List.filter_cons, List.filter_cons, hrest]
      · exact ⟨_, _, _, pieces_cons hc hs, pieces_cons hc ht, hrest⟩
    | @lines u v s t hu hv _ ih =>
      obtain ⟨line, lines, lines', hs, ht, hrest⟩ := ih
      obtain ⟨-, rfl⟩ := List.cons.inj hs
      obtain ⟨-, rfl⟩ := List.cons.inj ht
      refine ⟨[], _, _, rfl, rfl, ?_⟩
      have hsolid : solidLines (u ++ '\n' :: s) = solidLines (v ++ '\n' :: t) := by
        rw [solidLines_break, solidLines_break, solidLines_of_blank hu, solidLines_of_blank hv]
        exact hrest
      exact hsolid
    | @tail u v hu hv =>
      exact ⟨[], _, _, rfl, rfl, (solidLines_of_blank hu).trans (solidLines_of_blank hv).symm⟩
  obtain ⟨line, lines, lines', hs, ht, hrest⟩ := agree
  rw [solidLines, solidLines, hs, ht, List.filter_cons, List.filter_cons, hrest]

theorem solidLines_normalizeBlankLines (text : List Char) :
    solidLines (normalizeBlankLines text) = solidLines text := by
  obtain ⟨short, h₁, h₂⟩ := loose_normalizeBlankLines text
  have hkept := (solidLines_of_loose h₁).trans (solidLines_of_loose h₂)
  -- The line break in front of both texts adds a blank line to each.
  rw [← List.nil_append ('\n' :: text), ← List.nil_append ('\n' :: normalizeBlankLines text),
    solidLines_break, solidLines_break] at hkept
  exact (List.append_cancel_left hkept).symm

/-! ## What tidying leaves -/

/-- Tidying keeps the lines that are not blank, each as it is and in their order; it leaves no line
that is an indent only; and what it leaves is tidy. -/
theorem normalizeBlankLines_settles (text : List Char) :
    solidLines (normalizeBlankLines text) = solidLines text ∧
      (∀ line ∈ pieces '\n' (normalizeBlankLines text), ¬ IndentOnly line) ∧
      normalizeBlankLines (normalizeBlankLines text) = normalizeBlankLines text := by
  refine ⟨solidLines_normalizeBlankLines text, fun line hline => ?_,
    normalizeBlankLines_normalizeBlankLines text⟩
  rw [normalizeBlankLines_eq, pieces_bared] at hline
  obtain ⟨line, -, rfl⟩ := List.mem_map.1 hline
  exact not_indentOnly_unindented line

/-- What is left of the blank lines of a source: behind a line at most two in a row, and at the
start at most three, which are there if and only if the source starts with three or more. -/
structure ClosesGaps (source result : List Char) : Prop where
  length_le : ∀ above gap below, endedLines result = above ++ (gap ++ below) → AllBlank gap →
    gap.length ≤ if above = [] then 3 else 2
  hasGap_iff : HasGap result ↔ OpensWithGap source

theorem closesGaps_normalizeBlankLines (text : List Char) :
    ClosesGaps text (normalizeBlankLines text) := by
  obtain ⟨htight, hcount⟩ := tight_normalizeBlankLines text
  refine ⟨fun above gap below => htight.length_le, ?_⟩
  rw [htight.hasGap_iff, opensWithGap_iff, opensWithGap_iff, hcount]
  omega

/-- Three blank lines in a row are left where a text starts with them, and nowhere else; after a
removal too, if it changes the text. -/
theorem blank_lines_left (methods : List String) (text : List Char) :
    ClosesGaps text (normalizeBlankLines text) ∧
      (removeCalls methods text ≠ text →
        ClosesGaps (swept methods text) (removeCalls methods text)) := by
  refine ⟨closesGaps_normalizeBlankLines text, fun hne => ?_⟩
  rw [removeCalls_eq] at hne ⊢
  split at hne
  · exact absurd rfl hne
  · next h =>
    rw [if_neg h]
    exact closesGaps_normalizeBlankLines (swept methods text)

/-- The blank lines above and below the statement come together, and two of them are left. -/
theorem blank_lines_left_aroundCall :
    removeCalls ["log"] "a();\n\n\nconsole.log(x);\n \n\r\nb();".toList ≠
        "a();\n\n\nconsole.log(x);\n \n\r\nb();".toList ∧
      ¬ HasGap (removeCalls ["log"] "a();\n\n\nconsole.log(x);\n \n\r\nb();".toList) := by
  have hne : removeCalls ["log"] "a();\n\n\nconsole.log(x);\n \n\r\nb();".toList ≠
      "a();\n\n\nconsole.log(x);\n \n\r\nb();".toList := by decide +kernel
  refine ⟨hne, ?_⟩
  rw [((blank_lines_left ["log"] _).2 hne).hasGap_iff, opensWithGap_iff]
  decide +kernel

/-- Three blank lines at the start stay as they are, whether or not a call is removed. -/
theorem gap_left_at_start :
    HasGap (normalizeBlankLines "\n\n\na();\n".toList) ∧
      removeCalls ["log"] "\n\n\nconsole.log(1);\na();\n".toList ≠
        "\n\n\nconsole.log(1);\na();\n".toList ∧
      HasGap (removeCalls ["log"] "\n\n\nconsole.log(1);\na();\n".toList) := by
  have hgap : HasGap "\n\n\na();\n".toList :=
    ⟨[[], [], []], ⟨[], ["a();".toList], by decide⟩, rfl, by simp [AllBlank, Blank]⟩
  have hleft : normalizeBlankLines "\n\n\na();\n".toList = "\n\n\na();\n".toList := by
    decide +kernel
  have hremoved : removeCalls ["log"] "\n\n\nconsole.log(1);\na();\n".toList =
      "\n\n\na();\n".toList := by decide +kernel
  refine ⟨hleft ▸ hgap, ?_, hremoved ▸ hgap⟩
  rw [hremoved]
  decide

end ConsoleSweep.Removal
