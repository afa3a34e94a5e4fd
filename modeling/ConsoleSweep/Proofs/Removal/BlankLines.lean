/-
  Tidying blank lines changes nothing but blank lines.

  Both steps of `normalizeBlankLines` replace whitespace between two line breaks, or
  behind the last one, by other whitespace; the line break before the first line is put
  there to treat it like the others. So the two texts are loose (`loose_normalizeBlankLines`),
  up to the one in the middle, and what does not depend on blank lines is kept: the weight
  of the text, the heads in it, and whether a round changes it.
-/
import ConsoleSweep.Proofs.Removal.Quiet

namespace ConsoleSweep.Removal

open ConsoleSweep.Text ConsoleSweep.Call

/-! ## Runs of blank lines -/

/-- A run reaches from a line break to a line break, over whitespace. -/
theorem blankRun_eq_some {prev : Option Char} {text z : List Char}
    (h : blankRun prev text = some z) : ∃ u, Blank u ∧ text = '\n' :: (u ++ '\n' :: z) := by
  unfold blankRun at h
  split at h
  · next hc =>
    simp only [Bool.and_eq_true, decide_eq_true_eq] at hc
    obtain ⟨hhead, hcount⟩ := hc
    have hz := Option.some.inj h
    have hblank := blank_takeWhile text
    have hsplit := skipBlank_split text
    generalize text.takeWhile isBlank = b at hcount hz hblank hsplit
    -- The run is what is left of the whitespace `b` when the end of its last line is taken off.
    have hback : b.reverse.takeWhile (· ≠ '\n') ++ b.reverse.dropWhile (· ≠ '\n') = b.reverse :=
      List.takeWhile_append_dropWhile
    have hnone : (b.reverse.takeWhile (· ≠ '\n')).count '\n' = 0 := by
      rw [List.count_eq_zero]
      intro hm
      have := List.all_eq_true.1 (List.all_takeWhile (p := (· ≠ '\n')) (l := b.reverse)) _ hm
      simp at this
    have hcount' : 4 ≤ (b.reverse.dropWhile (· ≠ '\n')).count '\n' := by
      have := congrArg (List.count '\n') hback
      rw [List.count_append, hnone, List.count_reverse] at this
      omega
    cases hd : b.reverse.dropWhile (· ≠ '\n') with
    | nil => rw [hd] at hcount'; simp at hcount'
    | cons c r =>
      have hc : c = '\n' := by
        have := List.head?_dropWhile_not (· ≠ '\n') b.reverse
        rw [hd] at this
        simpa using this
      subst hc
      rw [hd] at hcount' hback
      have hb : b = r.reverse ++ '\n' :: (b.reverse.takeWhile (· ≠ '\n')).reverse := by
        have := congrArg List.reverse hback
        rw [List.reverse_reverse] at this
        simpa using this.symm
      cases hr : r.reverse with
      | nil =>
        have : r = [] := by simpa using hr
        rw [this] at hcount'
        simp at hcount'
      | cons d u =>
        rw [hr] at hb
        rw [← hsplit, hb] at hhead
        have hdn : d = '\n' := by simpa using hhead
        have hu : Blank u := by
          intro e he
          exact hblank e (by rw [hb]; simp [he])
        refine ⟨u, hu, ?_⟩
        rw [← hz]
        conv => lhs; rw [← hsplit, hb, hdn]
        simp
  · simp at h

theorem advances_blankRun : Advances blankRun := by
  intro prev text z h
  obtain ⟨u, -, rfl⟩ := blankRun_eq_some h
  exact ⟨'\n' :: (u ++ ['\n']), by simp, by simp⟩

/-- What stands for a run also reaches from a line break to a line break. -/
theorem collapsed_eq (run : List Char) :
    ∃ v, Blank v ∧ collapsed run = '\n' :: (v ++ ['\n']) := by
  unfold collapsed
  split
  · exact ⟨['\r', '\n', '\r'], List.all_eq_true.1 (by decide), rfl⟩
  · exact ⟨['\n'], List.all_eq_true.1 (by decide), rfl⟩

/-- The text with its runs of blank lines shortened. -/
def shortened (text : List Char) : List Char :=
  splice collapsed (findAll blankRun text) text

theorem shortened_eq (text : List Char) :
    shortened text = rewritten collapsed (hits blankRun none text) text :=
  splice_findAll advances_blankRun collapsed text

theorem loose_shortened (text : List Char) : Loose text (shortened text) := by
  rw [shortened_eq]
  refine rewritten_hits_induction advances_blankRun collapsed
    (P := fun _ text res => Loose text res) ?_ ?_ ?_ none text
  · intro _
    exact .nil
  · intro _ c cs res _ ih
    exact .keep c ih
  · intro prev y z res _ hm ih
    obtain ⟨u, hu, e⟩ := blankRun_eq_some hm
    have hy : y = '\n' :: (u ++ ['\n']) := by
      have e' : y ++ z = '\n' :: (u ++ ['\n']) ++ z := by rw [e]; simp
      exact List.append_cancel_right e'
    obtain ⟨v, hv, ev⟩ := collapsed_eq y
    rw [ev, hy]
    simp only [List.cons_append, List.append_assoc, List.nil_append]
    exact .lines hu hv (.keep '\n' ih)

/-! ## Indents on lines of their own -/

/-- The end of the line, or of the text, that a lone indent stands before. -/
def EndsLine (text : List Char) : Prop :=
  text = [] ∨ (∃ r, text = '\n' :: r) ∨ text = ['\r'] ∨ ∃ r, text = '\r' :: '\n' :: r

theorem loneIndent_eq_some {prev : Option Char} {text z : List Char}
    (h : loneIndent prev text = some z) :
    startsLine prev = true ∧ EndsLine z ∧ text = text.takeWhile isIndent ++ z ∧
      text.takeWhile isIndent ≠ [] := by
  unfold loneIndent at h
  split at h
  · next hc =>
    rw [Bool.and_eq_true] at hc
    have hne : text.takeWhile isIndent ≠ [] := by
      cases text with
      | nil => simp at hc
      | cons c cs =>
        have : isIndent c = true := by simpa using hc.2
        simp [this]
    have hsplit := skipIndent_split text
    split at h
    · next hs =>
      obtain rfl := Option.some.inj h
      exact ⟨hc.1, .inl rfl, by rw [← hs, hsplit], hne⟩
    · next r hs =>
      obtain rfl := Option.some.inj h
      exact ⟨hc.1, .inr (.inl ⟨r, rfl⟩), by rw [← hs, hsplit], hne⟩
    · next hs =>
      obtain rfl := Option.some.inj h
      exact ⟨hc.1, .inr (.inr (.inl rfl)), by rw [← hs, hsplit], hne⟩
    · next r hs =>
      obtain rfl := Option.some.inj h
      exact ⟨hc.1, .inr (.inr (.inr ⟨r, rfl⟩)), by rw [← hs, hsplit], hne⟩
    · simp at h
  · simp at h

theorem advances_loneIndent : Advances loneIndent := by
  intro prev text z h
  obtain ⟨-, -, e, hne⟩ := loneIndent_eq_some h
  exact ⟨_, hne, e⟩

theorem startsLine_behind_indent {ind : List Char} (hi : ∀ c ∈ ind, isIndent c = true)
    (hne : ind ≠ []) (prev : Option Char) : startsLine (behind prev ind) = false := by
  rcases List.eq_nil_or_concat ind with rfl | ⟨w, c, rfl⟩
  · exact absurd rfl hne
  · rw [List.concat_eq_append] at hi ⊢
    have hc := hi c (by simp)
    rw [behind_concat]
    simp only [isIndent, Bool.or_eq_true, beq_iff_eq] at hc
    rcases hc with rfl | rfl <;> rfl

/-- A line without its indent, when there is nothing else on it. -/
theorem loose_line {ind z z' : List Char} (hi : Blank ind) (hz : EndsLine z) (h : Loose z z') :
    Loose ('\n' :: (ind ++ z)) ('\n' :: z') := by
  rcases hz with rfl | ⟨r, rfl⟩ | rfl | ⟨r, rfl⟩
  · rw [h.nil_iff.1 rfl, List.append_nil]
    exact .tail hi blank_nil
  · obtain ⟨r', rfl⟩ := h.break_inv
    exact .lines (v := []) hi blank_nil h
  · obtain ⟨r', rfl, h'⟩ := h.cons_inv (by decide)
    rw [h'.nil_iff.1 rfl]
    have hr : Blank ['\r'] := List.all_eq_true.1 (by decide)
    exact .tail (blank_append.2 ⟨hi, hr⟩) hr
  · obtain ⟨r', rfl, h'⟩ := h.cons_inv (by decide)
    obtain ⟨r'', rfl⟩ := h'.break_inv
    have hr : Blank ['\r'] := List.all_eq_true.1 (by decide)
    have := Loose.lines (blank_append.2 ⟨hi, hr⟩) hr h'
    simpa using this

/-- The text without the indents of lines that have nothing else. -/
def bared (text : List Char) : List Char :=
  cut (findAll loneIndent text) text

theorem bared_eq (text : List Char) :
    bared text = rewritten (fun _ => []) (hits loneIndent none text) text :=
  cut_findAll advances_loneIndent text

theorem isIndent_of_loneIndent {prev : Option Char} {y z : List Char}
    (h : loneIndent prev (y ++ z) = some z) : ∀ c ∈ y, isIndent c = true := by
  obtain ⟨-, -, e, -⟩ := loneIndent_eq_some h
  rw [List.append_cancel_right e]
  exact isIndent_takeWhile (y ++ z)

theorem loose_bared (text : List Char) : Loose ('\n' :: text) ('\n' :: bared text) := by
  rw [bared_eq]
  -- On a line that has begun, the texts are loose without the line break before them.
  have both := rewritten_hits_induction advances_loneIndent (fun _ => [])
    (P := fun prev text res =>
      (startsLine prev = true → Loose ('\n' :: text) ('\n' :: res)) ∧
      (startsLine prev = false → Loose text res))
    ?_ ?_ ?_ none text
  · exact both.1 rfl
  · intro _
    exact ⟨fun _ => Loose.refl _, fun _ => Loose.refl _⟩
  · intro prev c cs res _ ih
    have h : Loose (c :: cs) (c :: res) := by
      by_cases hc : c = '\n'
      · rw [hc] at ih ⊢
        exact ih.1 rfl
      · exact .keep c (ih.2 (by simp [startsLine, hc]))
    exact ⟨fun _ => .keep _ h, fun _ => h⟩
  · intro prev y z res hy hm ih
    obtain ⟨hp, hz, -, -⟩ := loneIndent_eq_some hm
    have hi := isIndent_of_loneIndent hm
    have hrest := ih.2 (startsLine_behind_indent hi hy prev)
    refine ⟨fun _ => loose_line (fun c hc => isBlank_of_isIndent (hi c hc)) hz hrest, ?_⟩
    intro hf
    rw [hp] at hf
    simp at hf

/-! ## Both steps -/

theorem normalizeBlankLines_eq (text : List Char) :
    normalizeBlankLines text = bared (shortened text) := rfl

/-- The text between the two steps differs from either end in blank lines only. -/
theorem loose_normalizeBlankLines (text : List Char) :
    ∃ short, Loose ('\n' :: text) ('\n' :: short) ∧
      Loose ('\n' :: short) ('\n' :: normalizeBlankLines text) :=
  ⟨_, .keep '\n' (loose_shortened text), loose_bared _⟩

theorem weight_normalizeBlankLines (text : List Char) :
    weight (normalizeBlankLines text) = weight text := by
  obtain ⟨short, h₁, h₂⟩ := loose_normalizeBlankLines text
  have e₁ := weight_of_loose h₁
  have e₂ := weight_of_loose h₂
  rw [weight_cons] at e₁ e₂
  rw [weight_cons '\n' short] at e₁
  rw [weight_cons '\n' (normalizeBlankLines text)] at e₂
  omega

theorem length_hits_head_of_loose {names : List String} (hn : OneLine names) {s t : List Char}
    (h : Loose ('\n' :: s) ('\n' :: t)) :
    (hits (head names) none s).length = (hits (head names) none t).length := by
  rw [← hits_break_cons (silent_head names) (fun _ => rfl) s,
    ← hits_break_cons (silent_head names) (fun _ => rfl) t]
  exact (forall₂_hits_head hn h none).length_eq

theorem length_hits_normalizeBlankLines {names : List String} (hn : OneLine names)
    (text : List Char) :
    (hits (head names) none (normalizeBlankLines text)).length =
      (hits (head names) none text).length := by
  obtain ⟨short, h₁, h₂⟩ := loose_normalizeBlankLines text
  rw [← length_hits_head_of_loose hn h₂, ← length_hits_head_of_loose hn h₁]

theorem round_normalizeBlankLines_eq_self_iff {names : List String} (hn : OneLine names)
    (text : List Char) :
    round names (normalizeBlankLines text) = normalizeBlankLines text ↔
      round names text = text := by
  obtain ⟨short, h₁, h₂⟩ := loose_normalizeBlankLines text
  rw [← round_eq_self_of_loose hn h₂, ← round_eq_self_of_loose hn h₁]

end ConsoleSweep.Removal
