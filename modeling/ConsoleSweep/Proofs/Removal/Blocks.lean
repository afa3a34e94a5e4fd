/-
  The pass for block comments, and the comments that it deletes.

  The pass tells a closed comment by its own text: by its length and by the marks at its
  ends. It looks for calls in that text alone, as if nothing stood around it. Neither makes a
  difference. A block comment has a closing mark behind its opening one just if it was closed
  (`isClosedBlock_iff_closedBlock`), and a call that lies in it is a call of the whole text
  (`holdsCall_iff_within`). So the pass deletes the closed comments with a call in them, all
  else stays in its order, and a comment that was not closed stays whole
  (`block_deletes_exactly`).
-/
import ConsoleSweep.Proofs.Removal.Inline

namespace ConsoleSweep.Text

variable {spans spans' : List Span} {i : Nat} {text : List Char}

/-! ## Places outside of spans -/

instance (spans : List Span) (i : Nat) : Decidable (Covered spans i) :=
  inferInstanceAs (Decidable (∃ s ∈ spans, _))

/-- The characters under none of the spans, in their order, for a text that starts at place `i`. -/
def outsideFrom (spans : List Span) (i : Nat) (text : List Char) : List Char :=
  ((text.zipIdx i).filter fun e => ¬ Covered spans e.2).map (·.1)

/-- The characters of a text under none of the spans, in their order. -/
def outside (spans : List Span) (text : List Char) : List Char :=
  outsideFrom spans 0 text

theorem outsideFrom_cons_of_covered (h : Covered spans i) (c : Char) (cs : List Char) :
    outsideFrom spans i (c :: cs) = outsideFrom spans (i + 1) cs := by
  simp [outsideFrom, h]

theorem outsideFrom_cons_of_not_covered (h : ¬ Covered spans i) (c : Char) (cs : List Char) :
    outsideFrom spans i (c :: cs) = c :: outsideFrom spans (i + 1) cs := by
  simp [outsideFrom, h]

theorem outsideFrom_append (spans : List Span) (i : Nat) (x z : List Char) :
    outsideFrom spans i (x ++ z) = outsideFrom spans i x ++ outsideFrom spans (i + x.length) z := by
  unfold outsideFrom
  rw [List.zipIdx_append, List.filter_append, List.map_append]

theorem outsideFrom_congr (h : ∀ j, i ≤ j → (Covered spans j ↔ Covered spans' j))
    (text : List Char) : outsideFrom spans i text = outsideFrom spans' i text := by
  unfold outsideFrom
  refine congrArg _ (List.filter_congr fun e he => ?_)
  exact decide_eq_decide.2 (not_congr (h e.2 (List.le_snd_of_mem_zipIdx he)))

theorem outsideFrom_eq_self (h : ∀ j, i ≤ j → ¬ Covered spans j) (text : List Char) :
    outsideFrom spans i text = text := by
  unfold outsideFrom
  rw [List.filter_eq_self.2, List.zipIdx_map_fst]
  intro e he
  exact decide_eq_true (h e.2 (List.le_snd_of_mem_zipIdx he))

theorem Apart.sublist (h : Apart spans) (hs : spans'.Sublist spans) : Apart spans' :=
  ⟨h.1.sublist hs, fun s hmem => h.2 s (hs.subset hmem)⟩

/-- Spans that lie apart begin behind the first of them. -/
theorem Apart.not_covered {s : Span} (h : Apart (s :: spans)) (hi : i < s.stop) :
    ¬ Covered spans i := by
  rintro ⟨t, ht, hti, -⟩
  have := (List.pairwise_cons.1 h.1).1 t ht
  omega

theorem spliceFrom_eq_outsideFrom (h : Apart spans) (hi : ∀ s ∈ spans, i < s.stop)
    (text : List Char) : spliceFrom (fun _ => []) i spans text = outsideFrom spans i text := by
  induction text generalizing i spans with
  | nil => rw [spliceFrom]; rfl
  | cons c cs ih =>
    cases spans with
    | nil =>
      rw [spliceFrom_nil, outsideFrom_eq_self]
      rintro j - ⟨s, hs, -⟩
      cases hs
    | cons s ss =>
      obtain ⟨hs, hss⟩ := List.forall_mem_cons.1 hi
      have hrest : Apart ss := h.sublist (List.sublist_cons_self s ss)
      -- Every span behind the first one ends behind it.
      have later : ∀ t ∈ ss, s.stop < t.stop := by
        intro t ht
        have := (List.pairwise_cons.1 h.1).1 t ht
        have := hrest.2 t ht
        omega
      have hpos := h.2 s List.mem_cons_self
      by_cases hstart : i < s.start
      · have hnot : ¬ Covered (s :: ss) i := by
          rintro ⟨t, ht, hti, htj⟩
          rcases List.mem_cons.1 ht with rfl | ht
          · omega
          · exact h.not_covered hs ⟨t, ht, hti, htj⟩
        rw [spliceFrom, if_pos hstart, outsideFrom_cons_of_not_covered hnot]
        refine congrArg (c :: ·) (ih h fun t ht => ?_)
        rcases List.mem_cons.1 ht with rfl | ht
        · omega
        · have := later t ht
          omega
      · have hcovered : Covered (s :: ss) i := ⟨s, List.mem_cons_self, by omega, hs⟩
        rw [spliceFrom, if_neg hstart, ite_self, List.nil_append,
          outsideFrom_cons_of_covered hcovered]
        split
        · next hmore =>
          refine ih h fun t ht => ?_
          rcases List.mem_cons.1 ht with rfl | ht
          · exact hmore
          · have := later t ht
            omega
        · next hend =>
          rw [ih hrest fun t ht => by have := later t ht; omega]
          refine outsideFrom_congr (fun j hj => ?_) cs
          constructor
          · rintro ⟨t, ht, hj⟩
            exact ⟨t, List.mem_cons_of_mem s ht, hj⟩
          · rintro ⟨t, ht, hj₁, hj₂⟩
            rcases List.mem_cons.1 ht with rfl | ht
            · omega
            · exact ⟨t, ht, hj₁, hj₂⟩

/-- Cutting spans that lie apart leaves the characters outside of them. -/
theorem cut_eq_outside (h : Apart spans) (text : List Char) : cut spans text = outside spans text :=
  spliceFrom_eq_outsideFrom h (fun s hs => by have := h.2 s hs; omega) text

end ConsoleSweep.Text

namespace ConsoleSweep.Comment

open ConsoleSweep.Text

/-! ## Closed comments in their text -/

/-- A block comment that was closed: the span starts with the opening mark, and ends with a closing
mark that stands wholly behind it. -/
structure ClosedBlock (text : List Char) (s : Span) : Prop where
  opened : "/*".toList <+: text.drop s.start
  closed : ∃ i, s.start + 2 ≤ i ∧ "*/".toList <+: text.drop i ∧ s.stop = i + 2

theorem exists_of_mem_spans {text : List Char} {s : Span} (h : s ∈ spans text) :
    ∃ x y z, text = x ++ (y ++ z) ∧ s = ⟨x.length, x.length + y.length⟩ ∧
      ⟨y ++ z, z⟩ ∈ commentHits text := by
  rw [spans_eq] at h
  obtain ⟨g, hg, rfl⟩ := List.mem_map.1 h
  obtain ⟨x, y, z, rfl, rfl⟩ := mem_commentHits_suffix hg
  have hspan := Hit.span_eq 0 x y z
  rw [Nat.zero_add, Nat.zero_add] at hspan
  exact ⟨x, y, z, rfl, hspan, hg⟩

/-- A closing mark behind the opening one is found where the text behind the opening one is
searched. -/
theorem holds_iff_mark (x s : List Char) :
    holds ['*', '/'] s = true ↔
      ∃ i, x.length + 2 ≤ i ∧ ['*', '/'] <+: (x ++ '/' :: '*' :: s).drop i := by
  have hdrop : ∀ k, (x ++ '/' :: '*' :: s).drop (x.length + 2 + k) = s.drop k := by
    intro k
    rw [Nat.add_assoc, List.drop_length_add_append, Nat.add_comm 2 k]
    rfl
  rw [holds_iff]
  constructor
  · rintro ⟨u, v, rfl⟩
    refine ⟨x.length + 2 + u.length, by omega, ?_⟩
    rw [hdrop, List.drop_left]
    exact List.prefix_append _ _
  · rintro ⟨i, hi, hmark⟩
    obtain ⟨k, rfl⟩ := Nat.exists_eq_add_of_le hi
    rw [hdrop] at hmark
    obtain ⟨v, hv⟩ := hmark
    exact ⟨s.take k, v, by rw [hv, List.take_append_drop]⟩

/-- The tests on the text of a comment tell whether it was closed. -/
theorem isClosedBlock_iff_closedBlock {x y z : List Char}
    (h : ⟨y ++ z, z⟩ ∈ commentHits (x ++ (y ++ z))) :
    isClosedBlock y = true ↔
      ClosedBlock (x ++ (y ++ z)) ⟨x.length, x.length + y.length⟩ := by
  have hpart : y = Hit.part ⟨y ++ z, z⟩ := (Hit.part_mk y z).symm
  rcases mem_commentHits h with ⟨s, e⟩ | ⟨s, e⟩
  · -- A line comment does not start with the opening mark.
    have hnot : isClosedBlock y = false := by
      rw [hpart, e]
      exact isClosedBlock_line s
    obtain ⟨hhere, -⟩ := Hit.mk.inj e
    rw [hnot]
    constructor
    · intro hf
      cases hf
    · rintro ⟨hopen, -⟩
      simp [hhere] at hopen
  · have hclosed := isClosedBlock_iff s
    rw [← e, Hit.part_mk] at hclosed
    obtain ⟨hhere, hz⟩ := Hit.mk.inj e
    rw [hclosed]
    constructor
    · intro hs
      obtain ⟨u, hu⟩ := afterBlock_of_holds hs
      have hy : y = '/' :: '*' :: (u ++ ['*', '/']) := by
        rw [← hz] at hu
        rw [hu] at hhere
        have hsame : y ++ z = '/' :: '*' :: (u ++ ['*', '/']) ++ z := hhere.trans (by simp)
        exact List.append_cancel_right hsame
      rw [hy]
      refine ⟨by simp, x.length + 2 + u.length, Nat.le_add_right _ _, ?_, by simp; omega⟩
      have hdrop : (x ++ '/' :: '*' :: (u ++ ['*', '/'] ++ z)).drop (x.length + 2 + u.length) =
          ['*', '/'] ++ z := by
        rw [Nat.add_assoc, List.drop_length_add_append, Nat.add_comm 2]
        simp
      rw [List.cons_append, List.cons_append, hdrop]
      exact List.prefix_append _ _
    · rintro ⟨-, i, hi, hmark, -⟩
      rw [hhere] at hmark
      exact (holds_iff_mark x s).2 ⟨i, hi, hmark⟩

/-- A block comment without a closing mark behind its opening one goes to the end of the text. -/
theorem rest_eq_nil_of_unclosed {x y z : List Char}
    (h : ⟨y ++ z, z⟩ ∈ commentHits (x ++ (y ++ z))) (hopen : "/*".toList <+: y ++ z)
    (hnone : ∀ i, x.length + 2 ≤ i → ¬ "*/".toList <+: (x ++ (y ++ z)).drop i) : z = [] := by
  rcases mem_commentHits h with ⟨s, e⟩ | ⟨s, e⟩
  · obtain ⟨hhere, -⟩ := Hit.mk.inj e
    simp [hhere] at hopen
  · obtain ⟨hhere, hz⟩ := Hit.mk.inj e
    rw [hhere] at hnone
    rw [hz]
    refine afterBlock_of_not_holds (Bool.eq_false_iff.2 fun hs => ?_)
    obtain ⟨i, hi, hmark⟩ := (holds_iff_mark x s).1 hs
    exact hnone i hi hmark

end ConsoleSweep.Comment

namespace ConsoleSweep.Removal

open ConsoleSweep.Text ConsoleSweep.Call ConsoleSweep.Comment

variable {methods : List String} {text : List Char}

/-! ## Calls in a comment -/

/-- A text that starts with a slash has a call in it just if a call of the whole text lies in its
span. -/
theorem holdsCall_iff_within (hw : Wordy (normalizeNames methods)) {x y z : List Char}
    (hy : y.head? = some '/') :
    HoldsCall (normalizeNames methods) none y ↔
      ∃ c ∈ calls methods (x ++ (y ++ z)), c.Within ⟨x.length, x.length + y.length⟩ := by
  obtain ⟨cs, rfl⟩ := List.head?_eq_some_iff.1 hy
  constructor
  · intro h
    -- A slash is no part of a word, so it does not matter what stands before it.
    have hcall : HoldsCall (normalizeNames methods) (behind none x) ('/' :: cs) :=
      HoldsCall.of_cons (by decide) h
    obtain ⟨u, v, r, e, hr⟩ := hcall
    obtain ⟨-, name, -, -, b₁, b₂, b₃, -, -, -, rfl⟩ := mem_heads_iff.1 hr
    have hmem := mem_heads_append hr z
    rw [← behind_append, List.append_assoc] at hmem
    have hlisted := exists_call_of_mem_heads hw hmem
    have htext : (x ++ u) ++ (headText b₁ b₂ b₃ name ++ (r ++ z)) = x ++ ('/' :: cs ++ z) := by
      rw [e]
      simp only [List.append_assoc]
    rw [htext] at hlisted
    refine ⟨_, hlisted, ?_⟩
    have hlen := congrArg List.length e
    simp only [List.length_append] at hlen
    simp only [Span.Within, List.length_append, hlen]
    omega
  · rintro ⟨c, hc, hstart, hstop⟩
    obtain ⟨x', y', z', e, rfl, hz'⟩ := exists_of_mem_calls hc
    simp only at hstart hstop
    obtain ⟨u, rfl⟩ : x <+: x' :=
      List.prefix_of_prefix_length_le ⟨_, rfl⟩ ⟨_, e.symm⟩ hstart
    rw [List.append_assoc] at e
    have e' := List.append_cancel_left e
    -- The call ends in the span, so what follows it has the rest of the text at its end.
    have hlen := congrArg List.length e'
    simp only [List.length_append] at hlen hstop
    obtain ⟨r, rfl⟩ : z <:+ z' :=
      List.suffix_of_suffix_length_le ⟨'/' :: cs, rfl⟩ ⟨u ++ y', by rw [e', List.append_assoc]⟩
        (by omega)
    rw [← List.append_assoc y' r z, ← List.append_assoc u] at e'
    have e'' := List.append_cancel_right e'
    rw [← List.append_assoc y' r z] at hz'
    obtain ⟨r', hr', hmem⟩ := mem_heads_of_append hz' (by simp)
    rw [behind_append] at hmem
    exact HoldsCall.of_cons (by decide) ⟨u, y' ++ r, r', e'', hmem⟩

/-! ## The pass -/

/-- What the pass deletes: closed comments with a call in them. -/
theorem mem_callBlocks_iff (hw : Wordy (normalizeNames methods)) {s : Span}
    (hs : s ∈ Comment.spans text) :
    s ∈ callBlocks (normalizeNames methods) text ↔
      ClosedBlock text s ∧ ∃ c ∈ calls methods text, c.Within s := by
  obtain ⟨x, y, z, rfl, rfl, hg⟩ := exists_of_mem_spans hs
  have hblock := isClosedBlock_iff_closedBlock hg
  have hslash : isClosedBlock y = true → y.head? = some '/' := by
    intro hc
    simp only [isClosedBlock, Bool.and_eq_true] at hc
    obtain ⟨v, rfl⟩ := List.isPrefixOf_iff_prefix.1 hc.1.1
    rfl
  unfold callBlocks
  rw [List.mem_filter, slice_append, Bool.and_eq_true, Bool.not_eq_true', Bool.eq_false_iff, ne_eq,
    findAll_head_isEmpty, not_not]
  constructor
  · rintro ⟨-, hc, hcall⟩
    exact ⟨hblock.1 hc, (holdsCall_iff_within hw (hslash hc)).1 hcall⟩
  · rintro ⟨hc, hcall⟩
    have hc := hblock.2 hc
    exact ⟨hs, hc, (holdsCall_iff_within hw (hslash hc)).2 hcall⟩

theorem callBlocks_sublist (names : List String) (text : List Char) :
    (callBlocks names text).Sublist (Comment.spans text) :=
  List.filter_sublist

/-- With names to look for, the pass looks for these. -/
theorem run_block (h : normalizeNames methods ≠ []) (text : List Char) :
    Pass.run .block methods text = removeBlocks (normalizeNames methods) text := by
  obtain ⟨name, names, e⟩ := List.exists_cons_of_ne_nil h
  unfold Pass.run
  simp only [e]

/-- The pass for block comments deletes just the comments that were closed and in which a call of
the whole text lies; every other character stays, in its order. A block comment that was not closed
stays whole, at the end of the text. There has to be a name that is not blank. -/
theorem block_deletes_exactly (methods : List String) (text : List Char)
    (hw : Wordy (methods.map trimmed)) (hn : normalizeNames methods ≠ []) :
    (∃ deleted : List Span, deleted.Sublist (Comment.spans text) ∧
      (∀ s ∈ Comment.spans text, s ∈ deleted ↔
        ClosedBlock text s ∧ ∃ c ∈ calls methods text, c.Within s) ∧
      Pass.run .block methods text = outside deleted text) ∧
    ∀ s ∈ Comment.spans text, "/*".toList <+: text.drop s.start →
      (∀ i, s.start + 2 ≤ i → ¬ "*/".toList <+: text.drop i) →
      text.drop s.start <:+ Pass.run .block methods text := by
  have hnames := wordy_of_trimmed hw
  have hapart := apart_spans text
  have hsub := callBlocks_sublist (normalizeNames methods) text
  have hrun : Pass.run .block methods text =
      outside (callBlocks (normalizeNames methods) text) text :=
    (run_block hn text).trans (cut_eq_outside (hapart.sublist hsub) text)
  refine ⟨⟨_, hsub, fun s hs => mem_callBlocks_iff hnames hs, hrun⟩, ?_⟩
  intro s hs hopen hnone
  have hkept : s ∉ callBlocks (normalizeNames methods) text := by
    intro hmem
    obtain ⟨⟨-, i, hi, hmark, -⟩, -⟩ := (mem_callBlocks_iff hnames hs).1 hmem
    exact hnone i hi hmark
  obtain ⟨x, y, z, rfl, rfl, hg⟩ := exists_of_mem_spans hs
  simp only [List.drop_left] at hopen
  obtain rfl : z = [] := rest_eq_nil_of_unclosed hg hopen hnone
  rw [List.append_nil] at *
  -- A deleted span that reaches into the comment would meet it.
  have hfree : ∀ j, x.length ≤ j →
      ¬ Covered (callBlocks (normalizeNames methods) (x ++ y)) j := by
    rintro j hj ⟨t, ht, htj, hjt⟩
    have hmem := hsub.subset ht
    have hlt : j < x.length + y.length := by
      rw [← List.length_append]
      exact Nat.lt_of_lt_of_le hjt (stop_le_of_mem_spans hmem)
    have hsame := hapart.eq_of_covered hmem hs ⟨htj, hjt⟩ ⟨hj, hlt⟩
    exact hkept (hsame ▸ ht)
  rw [hrun, List.drop_left, outside, outsideFrom_append, Nat.zero_add, outsideFrom_eq_self hfree]
  exact List.suffix_append _ _

/-- A string that looks like a comment, a comment with a call, one without, and one that only seems
to be closed. -/
def mixedComments : List Char :=
  "'/* console.log(0) */' /* console.log(1) */ /* b */ /*/ console.log(2)".toList

/-- Only the second of the three calls is deleted, and the last comment stays. -/
theorem block_deletes_mixedComments :
    Pass.run .block ["log"] mixedComments =
        "'/* console.log(0) */'  /* b */ /*/ console.log(2)".toList ∧
      (∃ deleted : List Span, ⟨23, 43⟩ ∈ deleted ∧
        Pass.run .block ["log"] mixedComments = outside deleted mixedComments) ∧
      "/*/ console.log(2)".toList <:+ Pass.run .block ["log"] mixedComments := by
  have hw : Wordy (["log"].map trimmed) := wordy_of_all (by decide +kernel)
  have hspans : Comment.spans mixedComments = [⟨23, 43⟩, ⟨44, 51⟩, ⟨52, 70⟩] := by decide +kernel
  have hcalls : calls ["log"] mixedComments = [⟨4, 16⟩, ⟨26, 38⟩, ⟨56, 68⟩] := by decide +kernel
  obtain ⟨⟨deleted, -, hiff, hrun⟩, hkept⟩ :=
    block_deletes_exactly ["log"] mixedComments hw (by decide +kernel)
  rw [hspans] at hiff hkept
  refine ⟨by decide +kernel, ⟨deleted, (hiff ⟨23, 43⟩ (by simp)).2 ⟨⟨?_, 41, ?_⟩, ?_⟩, hrun⟩, ?_⟩
  · exact List.isPrefixOf_iff_prefix.1 (by decide +kernel)
  · exact ⟨by decide, List.isPrefixOf_iff_prefix.1 (by decide +kernel), rfl⟩
  · rw [hcalls]
    exact ⟨⟨26, 38⟩, by simp, by unfold Span.Within; decide⟩
  · refine hkept ⟨52, 70⟩ (by simp) (List.isPrefixOf_iff_prefix.1 (by decide +kernel)) ?_
    have hnone : ∀ i < 70, 54 ≤ i →
        "*/".toList.isPrefixOf (mixedComments.drop i) = false := by decide +kernel
    intro i hi hmark
    by_cases hlt : i < 70
    · have := hnone i hlt hi
      rw [List.isPrefixOf_iff_prefix.2 hmark] at this
      cases this
    · have hlen : mixedComments.length = 70 := by decide +kernel
      rw [List.drop_eq_nil_of_le (by omega)] at hmark
      simp at hmark

end ConsoleSweep.Removal
