/-
  Comments as matches of a search.

  `commentHits` lists the comments of a text by what is left of the text where they
  start and end; `spans_eq` ties it to the spans. A comment that was closed is one with
  an end mark behind its start (`isClosedBlock_iff`). Where spans lie apart, the search for
  a place among them by halving agrees with plain membership (`insideAny_iff_covered`), and
  the comments of a text do lie apart (`apart_spans`, `inside_iff_comment_covers`).
-/
import Mathlib.Data.List.Basic
import ConsoleSweep.Comment
import ConsoleSweep.Text.Basic
import ConsoleSweep.Proofs.Search

namespace ConsoleSweep.Text

/-! ## A text in a text -/

theorem holds_iff {needle text : List Char} :
    holds needle text = true ↔ ∃ x z, text = x ++ (needle ++ z) := by
  induction text with
  | nil =>
    rw [holds, List.isEmpty_iff]
    constructor
    · rintro rfl; exact ⟨[], [], rfl⟩
    · rintro ⟨x, z, e⟩
      exact (List.append_eq_nil_iff.1 (List.append_eq_nil_iff.1 e.symm).2).1
  | cons c cs ih =>
    rw [holds, Bool.or_eq_true, ih, List.isPrefixOf_iff_prefix]
    constructor
    · rintro (⟨z, e⟩ | ⟨x, z, e⟩)
      · exact ⟨[], z, e.symm⟩
      · exact ⟨c :: x, z, congrArg (c :: ·) e⟩
    · rintro ⟨x, z, e⟩
      cases x with
      | nil => exact .inl ⟨z, e.symm⟩
      | cons d x => exact .inr ⟨x, z, (List.cons.inj e).2⟩

/-! ## Places among spans -/

/-- The spans follow one another, and none is empty. -/
def Apart (spans : List Span) : Prop :=
  spans.Pairwise (fun s t => s.stop ≤ t.start) ∧ ∀ s ∈ spans, s.start < s.stop

theorem Parts.start_ge {hs : List Hit} {text : List Char} (h : Parts hs text) (i : Nat) :
    ∀ g ∈ hs, i ≤ (g.span (i + text.length)).start := by
  induction h generalizing i with
  | nil => intro g hg; simp at hg
  | cons x y z hy _ ih =>
    intro g hg
    rcases List.mem_cons.1 hg with rfl | hg
    · rw [Hit.span_eq]; simp only; omega
    · have e : i + (x ++ (y ++ z)).length = i + x.length + y.length + z.length := by
        simp only [List.length_append]; omega
      have := ih (i + x.length + y.length) g hg
      rw [e]; omega

theorem Parts.apart {hs : List Hit} {text : List Char} (h : Parts hs text) (i : Nat) :
    Apart (hs.map (Hit.span (i + text.length))) := by
  induction h generalizing i with
  | nil => exact ⟨.nil, by intro s hs; simp at hs⟩
  | cons x y z hy hz ih =>
    have e : i + (x ++ (y ++ z)).length = i + x.length + y.length + z.length := by
      simp only [List.length_append]; omega
    obtain ⟨hp, hlt⟩ := ih (i + x.length + y.length)
    rw [← e] at hp hlt
    rw [List.map_cons, Hit.span_eq]
    refine ⟨List.pairwise_cons.2 ⟨?_, hp⟩, ?_⟩
    · intro s hs
      obtain ⟨g, hg, rfl⟩ := List.mem_map.1 hs
      have := hz.start_ge (i + x.length + y.length) g hg
      rw [← e] at this
      exact this
    · intro s hs
      rcases List.mem_cons.1 hs with rfl | hs
      · have := List.length_pos_iff.2 hy
        simp only; omega
      · exact hlt s hs

/-- The halving finds the place in a sorted array behind all numbers that are at most `i`. -/
theorem upperBound_spec (starts : Array Nat) (i lo hi : Nat)
    (sorted : ∀ j k, j ≤ k → k < hi → starts.getD j 0 ≤ starts.getD k 0) (hle : lo ≤ hi) :
    lo ≤ upperBound starts i lo hi ∧ upperBound starts i lo hi ≤ hi ∧
      (∀ j, lo ≤ j → j < upperBound starts i lo hi → starts.getD j 0 ≤ i) ∧
      (∀ j, upperBound starts i lo hi ≤ j → j < hi → i < starts.getD j 0) := by
  fun_induction upperBound starts i lo hi with
  | case1 lo hi hlt hi' ih =>
    obtain ⟨h₁, h₂, h₃, h₄⟩ := ih (fun j k hjk hk => sorted j k hjk (by omega)) (by omega)
    refine ⟨h₁, by omega, h₃, ?_⟩
    intro j hj hj'
    by_cases hm : j < (lo + hi) / 2
    · exact h₄ j hj hm
    · have := sorted ((lo + hi) / 2) j (by omega) hj'
      omega
  | case2 lo hi hlt hi' ih =>
    obtain ⟨h₁, h₂, h₃, h₄⟩ := ih sorted (by omega)
    refine ⟨by omega, h₂, ?_, h₄⟩
    intro j hj hj'
    by_cases hm : (lo + hi) / 2 + 1 ≤ j
    · exact h₃ j hm hj'
    · have := sorted j ((lo + hi) / 2) (by omega) (by omega)
      omega
  | case3 lo hi hlt => exact ⟨Nat.le_refl _, hle, by omega, by omega⟩

theorem getD_starts (spans : List Span) {j : Nat} (hj : j < spans.length) :
    (spans.toArray.map (·.start)).getD j 0 = spans[j].start := by
  simp [Array.getD, hj]

/-- Looking at one span only is enough to tell whether a place is covered. -/
theorem insideAny_iff_covered {spans : List Span} (h : Apart spans) (i : Nat) :
    insideAny spans.toArray i = true ↔ Covered spans i := by
  obtain ⟨hp, hlt⟩ := h
  have apart : ∀ j k (hj : j < spans.length) (hk : k < spans.length), j < k →
      spans[j].stop ≤ spans[k].start := fun j k hj hk hjk =>
    List.pairwise_iff_getElem.1 hp j k hj hk hjk
  have order : ∀ j (hj : j < spans.length), spans[j].start < spans[j].stop := fun j hj =>
    hlt _ (List.getElem_mem hj)
  have sorted : ∀ j k, j ≤ k → k < spans.length →
      (spans.toArray.map (·.start)).getD j 0 ≤ (spans.toArray.map (·.start)).getD k 0 := by
    intro j k hjk hk
    rw [getD_starts spans (by omega), getD_starts spans hk]
    rcases Nat.lt_or_eq_of_le hjk with hjk | rfl
    · have := apart j k (by omega) hk hjk
      have := order j (by omega)
      omega
    · exact Nat.le_refl _
  obtain ⟨-, hu, below, above⟩ :=
    upperBound_spec (spans.toArray.map (·.start)) i 0 spans.length sorted (Nat.zero_le _)
  unfold insideAny
  rw [List.size_toArray]
  generalize upperBound (spans.toArray.map (·.start)) i 0 spans.length = k at hu below above
  -- A span that covers the place starts at or before it, so it is not behind the bound.
  have bound : ∀ j (hj : j < spans.length), spans[j].start ≤ i → j < k := by
    intro j hj hs
    rcases Nat.lt_or_ge j k with hjk | hjk
    · exact hjk
    · have := above j hjk hj
      rw [getD_starts spans hj] at this
      omega
  cases k with
  | zero =>
    constructor
    · intro hf; simp at hf
    · rintro ⟨s, hs, h₁, h₂⟩
      obtain ⟨j, hj, rfl⟩ := List.getElem_of_mem hs
      have := bound j hj h₁
      omega
  | succ k =>
    have hk : k < spans.length := by omega
    have hget : spans.toArray.getD k ⟨0, 0⟩ = spans[k] := by simp [Array.getD, hk]
    simp only [hget, decide_eq_true_eq]
    have hstart := below k (Nat.zero_le _) (Nat.lt_succ_self k)
    rw [getD_starts spans hk] at hstart
    constructor
    · intro hi
      exact ⟨spans[k], List.getElem_mem hk, hstart, hi⟩
    · rintro ⟨s, hs, h₁, h₂⟩
      obtain ⟨j, hj, rfl⟩ := List.getElem_of_mem hs
      have hjk := bound j hj h₁
      rcases Nat.lt_or_eq_of_le (Nat.lt_succ_iff.1 hjk) with hjk | rfl
      · have := apart j k hj hk hjk
        omega
      · exact h₂

end ConsoleSweep.Text

namespace ConsoleSweep.Comment

open ConsoleSweep.Text

/-! ## The search for comments -/

theorem afterBlock_split (text : List Char) : ∃ y, text = y ++ afterBlock text := by
  fun_induction afterBlock text with
  | case1 rest => exact ⟨['*', '/'], rfl⟩
  | case2 c rest _ ih =>
    obtain ⟨y, e⟩ := ih
    exact ⟨c :: y, congrArg (c :: ·) e⟩
  | case3 => exact ⟨[], rfl⟩

theorem afterQuote_split {quote : Char} {stop : Char → Bool} {text z : List Char}
    (h : afterQuote quote stop text = some z) : ∃ y, text = y ++ z := by
  fun_induction afterQuote quote stop text with
  | case1 c rest ih =>
    obtain ⟨y, rfl⟩ := ih h
    exact ⟨'\\' :: c :: y, rfl⟩
  | case2 rest =>
    obtain rfl := Option.some.inj h
    exact ⟨[quote], rfl⟩
  | case3 => simp at h
  | case4 c rest _ _ _ ih =>
    obtain ⟨y, rfl⟩ := ih h
    exact ⟨c :: y, rfl⟩
  | case5 => simp at h

theorem advances_token : Advances token := by
  intro prev text z h
  have quoted : ∀ {q : Char} {stop : Char → Bool} {rest : List Char},
      afterQuote q stop rest = some z → ∃ y, y ≠ [] ∧ q :: rest = y ++ z := by
    intro q stop rest hq
    obtain ⟨y, rfl⟩ := afterQuote_split hq
    exact ⟨q :: y, by simp, rfl⟩
  unfold token at h
  split at h
  · next rest =>
    obtain rfl := Option.some.inj h
    refine ⟨'/' :: '/' :: rest.takeWhile (!isBreak ·), by simp, ?_⟩
    rw [List.cons_append, List.cons_append, List.takeWhile_append_dropWhile]
  · next rest =>
    obtain rfl := Option.some.inj h
    obtain ⟨y, e⟩ := afterBlock_split rest
    exact ⟨'/' :: '*' :: y, by simp, congrArg ('/' :: '*' :: ·) e⟩
  · exact quoted h
  · exact quoted h
  · exact quoted h
  · simp at h

/-- The comments of a text, leftmost first. -/
def commentHits (text : List Char) : List Hit :=
  (hits token none text).filter fun h => h.here.head? == some '/'

theorem spans_eq (text : List Char) :
    spans text = (commentHits text).map (Hit.span text.length) := by
  unfold spans commentHits
  rw [findAll_eq advances_token, List.filter_map]
  refine congrArg _ (List.filter_congr ?_)
  intro h hh
  simp only [Function.comp_apply]
  rw [getElem?_start_of_mem advances_token hh]

/-- A comment is a line comment that stops before a break, or a block comment. -/
theorem mem_commentHits {text : List Char} {h : Hit} (hh : h ∈ commentHits text) :
    (∃ s, h = ⟨'/' :: '/' :: s, s.dropWhile (!isBreak ·)⟩) ∨
      (∃ s, h = ⟨'/' :: '*' :: s, afterBlock s⟩) := by
  obtain ⟨hm, hc⟩ := List.mem_filter.1 hh
  obtain ⟨x, y, z, -, -, rfl, ht⟩ := mem_hits advances_token hm
  simp only [beq_iff_eq] at hc
  generalize y ++ z = here at hc ht
  unfold token at ht
  split at ht
  · next s =>
    obtain rfl := Option.some.inj ht
    exact .inl ⟨s, rfl⟩
  · next s =>
    obtain rfl := Option.some.inj ht
    exact .inr ⟨s, rfl⟩
  all_goals simp at hc ht

theorem mem_commentHits_suffix {text : List Char} {h : Hit} (hh : h ∈ commentHits text) :
    ∃ x y z, text = x ++ (y ++ z) ∧ h = ⟨y ++ z, z⟩ := by
  obtain ⟨x, y, z, e, -, eh, -⟩ := mem_hits advances_token (List.mem_filter.1 hh).1
  exact ⟨x, y, z, e, eh⟩

theorem apart_spans (text : List Char) : Apart (spans text) := by
  have := ((parts_hits advances_token none text).filter fun h => h.here.head? == some '/').apart 0
  rw [Nat.zero_add] at this
  rw [spans_eq]; exact this

theorem stop_le_of_mem_spans {text : List Char} {s : Span} (h : s ∈ spans text) :
    s.stop ≤ text.length := by
  rw [spans_eq] at h
  obtain ⟨g, -, rfl⟩ := List.mem_map.1 h
  exact Nat.sub_le _ _

/-- The search by halving finds a place inside a comment just if some comment covers it: one that
starts there or before, and ends behind it. -/
theorem inside_iff_comment_covers (text : List Char) (i : Nat) :
    insideAny (spans text).toArray i = true ↔ ∃ s ∈ spans text, s.start ≤ i ∧ i < s.stop :=
  insideAny_iff_covered (apart_spans text) i

/-- A place lies in a comment if and only if a comment starts there or before and has not yet
ended. -/
theorem insideAny_spans_iff {text x here : List Char} (e : text = x ++ here) :
    insideAny (spans text).toArray (text.length - here.length) = true ↔
      ∃ g ∈ commentHits text, here.length ≤ g.here.length ∧ g.rest.length < here.length := by
  rw [insideAny_iff_covered (apart_spans text), spans_eq]
  have hlen : here.length ≤ text.length := by simp [e]
  have iff : ∀ g ∈ commentHits text,
      ((g.span text.length).start ≤ text.length - here.length ∧
        text.length - here.length < (g.span text.length).stop) ↔
      here.length ≤ g.here.length ∧ g.rest.length < here.length := by
    intro g hg
    obtain ⟨x, y, z, e, rfl⟩ := mem_commentHits_suffix hg
    have hy : (y ++ z).length ≤ text.length := by simp [e]
    have hz : z.length ≤ (y ++ z).length := by simp
    simp only [Hit.span]
    omega
  constructor
  · rintro ⟨s, hs, h⟩
    obtain ⟨g, hg, rfl⟩ := List.mem_map.1 hs
    exact ⟨g, hg, (iff g hg).1 h⟩
  · rintro ⟨g, hg, h⟩
    exact ⟨_, List.mem_map.2 ⟨g, hg, rfl⟩, (iff g hg).2 h⟩

/-! ## Closed block comments -/

theorem afterBlock_of_holds {text : List Char} (h : holds ['*', '/'] text = true) :
    ∃ y, text = y ++ (['*', '/'] ++ afterBlock text) := by
  fun_induction afterBlock text with
  | case1 rest => exact ⟨[], rfl⟩
  | case2 c rest hne ih =>
    rw [holds, Bool.or_eq_true, List.isPrefixOf_iff_prefix] at h
    rcases h with ⟨z, e⟩ | h
    · obtain ⟨rfl, rfl⟩ := List.cons.inj e
      exact absurd rfl (hne z rfl)
    · obtain ⟨y, e⟩ := ih h
      exact ⟨c :: y, congrArg (c :: ·) e⟩
  | case3 => simp [holds] at h

theorem afterBlock_of_not_holds {text : List Char} (h : holds ['*', '/'] text = false) :
    afterBlock text = [] := by
  fun_induction afterBlock text with
  | case1 rest => simp [holds] at h
  | case2 c rest _ ih =>
    rw [holds, Bool.or_eq_false_iff] at h
    exact ih h.2
  | case3 => rfl

/-- A block comment is closed if and only if there is an end mark behind its start. -/
theorem isClosedBlock_iff (s : List Char) :
    isClosedBlock (Hit.part ⟨'/' :: '*' :: s, afterBlock s⟩) = holds ['*', '/'] s := by
  cases h : holds ['*', '/'] s with
  | true =>
    obtain ⟨y, e⟩ := afterBlock_of_holds h
    have ep : Hit.part ⟨'/' :: '*' :: s, afterBlock s⟩ = '/' :: '*' :: (y ++ ['*', '/']) := by
      have := Hit.part_mk ('/' :: '*' :: (y ++ ['*', '/'])) (afterBlock s)
      rw [← this]
      congr 2
      simpa using e
    rw [ep]
    simp only [isClosedBlock, Bool.and_eq_true, decide_eq_true_eq]
    refine ⟨⟨by simp, by simp⟩, ?_⟩
    exact List.isSuffixOf_iff_suffix.2 ⟨'/' :: '*' :: y, rfl⟩
  | false =>
    have ep : Hit.part ⟨'/' :: '*' :: s, afterBlock s⟩ = '/' :: '*' :: s := by
      rw [afterBlock_of_not_holds h]
      simp [Hit.part]
    rw [ep]
    refine Bool.eq_false_iff.2 fun hc => ?_
    simp only [isClosedBlock, Bool.and_eq_true, decide_eq_true_eq] at hc
    obtain ⟨⟨-, hlen⟩, hs⟩ := hc
    obtain ⟨y, e⟩ := List.isSuffixOf_iff_suffix.1 hs
    -- The mark is not the opening one, as the comment has four characters.
    rcases y with _ | ⟨_, _ | ⟨_, y⟩⟩
    · simp [← e] at hlen
    · simp [← e] at hlen
    · simp only [List.cons_append, List.cons.injEq] at e
      have : holds ['*', '/'] s = true := holds_iff.2 ⟨y, [], by rw [← e.2.2]; simp⟩
      rw [this] at h
      simp at h

theorem isClosedBlock_line (s : List Char) :
    isClosedBlock (Hit.part ⟨'/' :: '/' :: s, s.dropWhile (!isBreak ·)⟩) = false := by
  have e : s.takeWhile (!isBreak ·) ++ s.dropWhile (!isBreak ·) = s :=
    List.takeWhile_append_dropWhile
  have := Hit.part_mk ('/' :: '/' :: s.takeWhile (!isBreak ·)) (s.dropWhile (!isBreak ·))
  rw [List.cons_append, List.cons_append, e] at this
  rw [this]
  simp [isClosedBlock]

end ConsoleSweep.Comment
