/-
  Texts that a round leaves as they are.

  Whether a round changes a text does not depend on its blank lines, as long as no method
  name has a line break in it (`round_eq_self_of_loose`). For the passes on whole lines
  this is said by their searches. The inline pass also asks whether a call stands in a
  comment; places are compared by what is left of the text that is no whitespace
  (`insideAny_iff_weight`), which blank lines do not change.

  Loose texts are compared behind a line break: the first line of a text is a line too.
-/
import ConsoleSweep.Proofs.Removal.Lockstep

namespace ConsoleSweep.Removal

open ConsoleSweep.Text ConsoleSweep.Call ConsoleSweep.Comment

/-! ## The line break before a text -/

theorem hits_congr_prev {m : Matcher} {p q : Option Char} (h : ∀ text, m p text = m q text)
    (text : List Char) : hits m p text = hits m q text := by
  cases text with
  | nil => rfl
  | cons c cs =>
    unfold hits
    rw [hitsFrom, hitsFrom, h]

/-- A line break before the text adds no match. -/
theorem hits_break_cons {m : Matcher} (hm : Silent m)
    (hp : ∀ text, m none text = m (some '\n') text) (text : List Char) :
    hits m none ('\n' :: text) = hits m none text := by
  rw [hits_of_none (hm.eq_none (not_visible_break blank_nil text)), hits_congr_prev hp]

theorem indentedHeads_break (names : List String) (text : List Char) :
    indentedHeads names none text = indentedHeads names (some '\n') text := by
  unfold indentedHeads heads
  have : startsWord (beforeIndented none text) = startsWord (beforeIndented (some '\n') text) :=
    startsWord_beforeIndented_of_loose (by decide) (Loose.refl text)
  rw [this]

/-! ## Passes on whole lines -/

theorem cut_hits_eq_self_iff {m : Matcher} (adv : Advances m) (text : List Char) (p : Hit → Bool) :
    rewritten (fun _ => []) ((hits m none text).filter p) text = text ↔
      ∀ h ∈ hits m none text, p h = false := by
  rw [rewritten_eq_self_iff ((parts_hits adv none text).filter p), List.filter_eq_nil_iff]
  simp only [Bool.not_eq_true]

section

variable {names : List String} (hn : OneLine names) {s t : List Char}
  (h : Loose ('\n' :: s) ('\n' :: t))
include hn h

theorem removeSingle_eq_self_of_loose (hs : removeSingle names s = s) :
    removeSingle names t = t := by
  have adv := (covers_singleLine names).advances
  have silent := silent_singleLine names
  have hp : ∀ text, singleLine names none text = singleLine names (some '\n') text := by
    intro text
    unfold singleLine
    rw [indentedHeads_break]; rfl
  rw [removeSingle_eq, rewritten_eq_self_iff (parts_hits adv none _)] at hs ⊢
  rw [← hits_break_cons silent hp] at hs ⊢
  exact (hits_eq_nil_of_loose adv silent (singleLine_none_iff hn) none h).1 hs

theorem removeNested_eq_self_of_loose (hs : removeNested names s = s) :
    removeNested names t = t := by
  have adv := (covers_nestedStatement names).advances
  have silent := silent_nestedStatement names
  have hp : ∀ text, nestedStatement names none text = nestedStatement names (some '\n') text := by
    intro text
    unfold nestedStatement
    rw [indentedHeads_break]; rfl
  rw [removeNested_eq, rewritten_eq_self_iff (parts_hits adv none _)] at hs ⊢
  rw [← hits_break_cons silent hp] at hs ⊢
  exact (hits_eq_nil_of_loose adv silent (nestedStatement_none_iff hn) none h).1 hs

theorem removeCommented_eq_self_of_loose (hs : removeCommented names s = s) :
    removeCommented names t = t := by
  have adv := (covers_commentedLine names).advances
  have silent := silent_commentedLine names
  rw [removeCommented_eq, rewritten_eq_self_iff (parts_hits adv none _)] at hs ⊢
  rw [← hits_break_cons silent fun _ => rfl] at hs ⊢
  refine (hits_eq_nil_of_loose adv silent ?_ none h).1 hs
  intro p s t h
  exact rel_none_iff ((alike_commentedLine hn p).rel h)

end

/-! ## Corresponding matches -/

theorem weight_cons (c : Char) (cs : List Char) :
    weight (c :: cs) = weight [c] + weight cs :=
  weight_append [c] cs

theorem weight_of_loose {s t : List Char} (h : Loose s t) : weight s = weight t := by
  have blank : ∀ {u : List Char}, Blank u → weight u = 0 := weight_eq_zero_iff.2
  induction h with
  | nil => rfl
  | keep c _ ih => rw [weight_cons, ih, ← weight_cons]
  | lines hu hv _ ih =>
    rw [← List.cons_append, ← List.cons_append, weight_append, weight_append,
      blank (blank_break hu), blank (blank_break hv), ih]
  | tail hu hv => rw [blank (blank_break hu), blank (blank_break hv)]

theorem exists_corresponding {hs hs' : List Hit} (h : List.Forall₂ Hit.Corresponds hs hs')
    {g' : Hit} (hg : g' ∈ hs') : ∃ g ∈ hs, g.Corresponds g' := by
  induction h with
  | nil => simp at hg
  | @cons a b _ _ hab _ ih =>
    rcases List.mem_cons.1 hg with rfl | hg
    · exact ⟨a, List.mem_cons_self, hab⟩
    · obtain ⟨g, hg, hc⟩ := ih hg
      exact ⟨g, List.mem_cons_of_mem a hg, hc⟩

theorem contains_eq_holds (c : Char) (text : List Char) : text.contains c = holds [c] text := by
  induction text with
  | nil => rfl
  | cons d cs ih =>
    rw [List.contains_cons, holds, ih]
    simp [List.isPrefixOf]

theorem isErasable_of_corresponds {g g' : Hit} (h : g.Corresponds g') :
    isErasable g.part = isErasable g'.part := by
  have hp : Loose g.part g'.part := Upto.part h
  have same : ∀ (c : Char) (cs : List Char), isBlank c = false → '\n' ∉ c :: cs →
      holds (c :: cs) g.part = holds (c :: cs) g'.part := fun c cs hc hn =>
    holds_eq_of_loose hc hn hp
  have hf : holds "function".toList g.part = holds "function".toList g'.part :=
    same 'f' _ (by decide) (by decide)
  unfold isErasable
  rw [contains_eq_holds, contains_eq_holds, contains_eq_holds, contains_eq_holds,
    same '\x7b' [] (by decide) (by decide), same '\x7d' [] (by decide) (by decide), hf]

/-! ## Places in comments -/

/-- A comment ends at the end of the text, before a line break, or with a slash. -/
theorem mem_commentHits_end {text : List Char} {g : Hit} (hg : g ∈ commentHits text) :
    g.rest = [] ∨ (∃ c cs, g.rest = c :: cs ∧ isBreak c = true) ∨
      ∃ y, g.here = y ++ '/' :: g.rest := by
  rcases mem_commentHits hg with ⟨s, rfl⟩ | ⟨s, rfl⟩
  · simp only
    cases hs : s.dropWhile (!isBreak ·) with
    | nil => exact .inl rfl
    | cons c cs =>
      have := List.head?_dropWhile_not (!isBreak ·) s
      rw [hs] at this
      exact .inr (.inl ⟨c, cs, rfl, by simpa using this⟩)
  · simp only
    cases hb : holds ['*', '/'] s with
    | false => exact .inl (afterBlock_of_not_holds hb)
    | true =>
      obtain ⟨y, e⟩ := afterBlock_of_holds hb
      refine .inr (.inr ⟨'/' :: '*' :: (y ++ ['*']), ?_⟩)
      conv => lhs; rw [e]
      simp

theorem skipBlank_of_skipIndent {text : List Char} {c : Char} {cs : List Char}
    (h : skipIndent text = c :: cs) (hc : isBlank c = false) : skipBlank text = c :: cs := by
  have hi : Blank (text.takeWhile isIndent) := fun d hd =>
    isBlank_of_isIndent (isIndent_takeWhile text d hd)
  rw [← skipIndent_split text, skipBlank_append hi, h, skipBlank_cons_of_not hc]

/-- Comments and calls start with different characters, so they start in the order of what is
left of the text, whitespace aside. -/
theorem length_le_iff_weight_le {text here there : List Char} (h₁ : here <:+ text)
    (h₂ : there <:+ text) {c d : Char} {cs ds : List Char} (hc : skipIndent here = c :: cs)
    (hcb : isBlank c = false) (hd : there = d :: ds) (hdb : isBlank d = false) (hcd : c ≠ d) :
    here.length ≤ there.length ↔ weight here ≤ weight there := by
  constructor
  · intro hlen
    obtain ⟨w, e⟩ := List.suffix_of_suffix_length_le h₁ h₂ hlen
    rw [← e, weight_append]
    omega
  · intro hw
    by_contra hlen
    obtain ⟨w, e⟩ := List.suffix_of_suffix_length_le h₂ h₁ (by omega)
    have hblank : Blank w := by
      rw [← weight_eq_zero_iff]
      rw [← e, weight_append] at hw
      omega
    have h₃ := skipBlank_of_skipIndent hc hcb
    rw [← e, skipBlank_append hblank, hd, skipBlank_cons_of_not hdb] at h₃
    exact hcd (List.cons.inj h₃).1.symm

/-- Comments do not end in the indent of a call, so they end before it in the order of what is
left of the text, whitespace aside. -/
theorem rest_length_lt_iff_weight_lt {text here : List Char} {g : Hit} (h₁ : here <:+ text)
    (hg : g ∈ commentHits text) {cs : List Char} (hc : skipIndent here = 'c' :: cs) :
    g.rest.length < here.length ↔ weight g.rest < weight here := by
  obtain ⟨x, y, z, e, eg⟩ := mem_commentHits_suffix hg
  have h₂ : g.rest <:+ text := ⟨x ++ y, by rw [e, eg, List.append_assoc]⟩
  constructor
  · intro hlen
    obtain ⟨w, ew⟩ := List.suffix_of_suffix_length_le h₂ h₁ (Nat.le_of_lt hlen)
    rw [← ew, weight_append]
    have hpos : weight w ≠ 0 := by
      intro h0
      have hblank := weight_eq_zero_iff.1 h0
      have hskip := skipBlank_of_skipIndent hc (by decide)
      rw [← ew, skipBlank_append hblank] at hskip
      rcases mem_commentHits_end hg with hr | ⟨d, ds, hr, hd⟩ | ⟨y', hr⟩
      · rw [hr] at hskip
        simp [skipBlank] at hskip
      · -- The line break would be part of the indent.
        have hd' : isBlank d = true ∧ isIndent d = false := by
          simp only [isBreak, Bool.or_eq_true, beq_iff_eq] at hd
          rcases hd with rfl | rfl <;> decide
        refine not_visible_append hblank hd'.1 hd'.2 ds ?_
        rw [← hr, ew]
        exact ⟨'c', cs, hc, by decide⟩
      · -- The slash at the end of the comment would be part of the indent.
        obtain ⟨x', ex⟩ := h₁
        rcases List.eq_nil_or_concat w with rfl | ⟨w', d, rfl⟩
        · rw [← ew] at hlen
          simp at hlen
        · have hd : (x' ++ w') ++ [d] ++ g.rest = (x ++ y') ++ ['/'] ++ g.rest := by
            rw [eg] at hr
            simp only at hr
            rw [hr, ← ex, ← ew] at e
            rw [eg] at e ⊢
            simpa using e
          have := (List.append_inj' (List.append_cancel_right hd) rfl).2
          rw [List.cons.injEq] at this
          have hmem := hblank d (by simp)
          rw [this.1] at hmem
          exact absurd hmem (by decide)
    omega
  · intro hw
    by_contra hlen
    obtain ⟨w, ew⟩ := List.suffix_of_suffix_length_le h₁ h₂ (by omega)
    rw [← ew, weight_append] at hw
    omega

/-- A call stands in a comment if and only if the comment starts before it and ends behind its
start, in the order of what is left of the text, whitespace aside. -/
theorem insideAny_iff_weight {names : List String} {text : List Char} {h : Hit}
    (hh : h ∈ hits (inlineCall names) none text) :
    insideAny (spans text).toArray (text.length - h.here.length) = true ↔
      ∃ g ∈ commentHits text, weight h.here ≤ weight g.here ∧ weight g.rest < weight h.here := by
  obtain ⟨x, y, z, e, -, eh, hm⟩ := mem_hits (covers_inlineCall names).advances hh
  obtain ⟨r, hr, -⟩ := List.exists_of_findSome?_eq_some hm
  obtain ⟨-, name, -, -, b₁, b₂, b₃, -, -, -, hc⟩ := mem_heads_iff.1 hr
  have hsuf : h.here <:+ text := ⟨x, by rw [e, eh]⟩
  have hstart : ∃ cs, skipIndent h.here = 'c' :: cs := ⟨_, by rw [eh]; exact hc⟩
  obtain ⟨cs, hcs⟩ := hstart
  have split : text = x ++ h.here := by rw [e, eh]
  rw [insideAny_spans_iff split]
  have same : ∀ g ∈ commentHits text, (h.here.length ≤ g.here.length ∧
      g.rest.length < h.here.length) ↔
      (weight h.here ≤ weight g.here ∧ weight g.rest < weight h.here) := by
    intro g hg
    have hgsuf : g.here <:+ text := by
      obtain ⟨x', y', z', e', eg⟩ := mem_commentHits_suffix hg
      exact ⟨x', by rw [e', eg]⟩
    have hgstart : ∃ ds, g.here = '/' :: ds := by
      rcases mem_commentHits hg with ⟨s, rfl⟩ | ⟨s, rfl⟩
      · exact ⟨_, rfl⟩
      · exact ⟨_, rfl⟩
    obtain ⟨ds, hds⟩ := hgstart
    rw [length_le_iff_weight_le hsuf hgsuf hcs (by decide) hds (by decide) (by decide),
      rest_length_lt_iff_weight_lt hsuf hg hcs]
  constructor
  · rintro ⟨g, hg, hlen⟩
    exact ⟨g, hg, (same g hg).1 hlen⟩
  · rintro ⟨g, hg, hw⟩
    exact ⟨g, hg, (same g hg).2 hw⟩

/-! ## Passes that look at comments -/

section

variable {s t : List Char} (h : Loose ('\n' :: s) ('\n' :: t))
include h

theorem forall₂_tokens : List.Forall₂ Hit.Corresponds (hits token none s) (hits token none t) := by
  rw [← hits_break_cons silent_token (fun _ => rfl) s,
    ← hits_break_cons silent_token (fun _ => rfl) t]
  exact forall₂_hits_token h none

theorem exists_corresponding_comment {g' : Hit} (hg' : g' ∈ commentHits t) :
    ∃ g ∈ commentHits s, g.Corresponds g' := by
  obtain ⟨hm, hc⟩ := List.mem_filter.1 hg'
  obtain ⟨g, hg, hgg⟩ := exists_corresponding (forall₂_tokens h) hm
  refine ⟨g, List.mem_filter.2 ⟨hg, ?_⟩, hgg⟩
  have hl : Loose g.here g'.here := hgg.loose
  rcases mem_commentHits hg' with ⟨r, rfl⟩ | ⟨r, rfl⟩
  · obtain ⟨r', e, -⟩ := hl.symm.cons_inv (by decide)
    rw [e]; rfl
  · obtain ⟨r', e, -⟩ := hl.symm.cons_inv (by decide)
    rw [e]; rfl

variable {names : List String} (hn : OneLine names)
include hn

theorem forall₂_inlineCalls :
    List.Forall₂ Hit.Corresponds (hits (inlineCall names) none s)
      (hits (inlineCall names) none t) := by
  have hp : ∀ text, inlineCall names none text = inlineCall names (some '\n') text := by
    intro text
    unfold inlineCall
    rw [indentedHeads_break]
  rw [← hits_break_cons (silent_inlineCall names) hp s,
    ← hits_break_cons (silent_inlineCall names) hp t]
  exact forall₂_hits_inlineCall hn h none

theorem removeInlineOnce_eq_self_of_loose (hs : removeInlineOnce names s = s) :
    removeInlineOnce names t = t := by
  have adv := (covers_inlineCall names).advances
  rw [removeInlineOnce_eq, cut_hits_eq_self_iff adv] at hs ⊢
  intro g' hg'
  obtain ⟨g, hg, hgg⟩ := exists_corresponding (forall₂_inlineCalls h hn) hg'
  have hno := hs g hg
  unfold isErased at hno ⊢
  rw [← isErasable_of_corresponds hgg]
  cases he : isErasable g.part with
  | false => rfl
  | true =>
    -- The call stands in a comment, and in the other text in the one that corresponds.
    rw [he, Bool.true_and, Bool.not_eq_false', insideAny_iff_weight hg] at hno
    obtain ⟨c, hc, h₁, h₂⟩ := hno
    obtain ⟨c', hc', hcc⟩ := exists_corresponding_comment h.symm hc
    rw [Bool.true_and, Bool.not_eq_false', insideAny_iff_weight hg']
    refine ⟨c', hc', ?_, ?_⟩
    · rw [← weight_of_loose hgg.loose, weight_of_loose hcc.loose]; exact h₁
    · rw [← weight_of_loose hgg.loose, weight_of_loose hcc.rest]; exact h₂

theorem removeBlocks_eq_self_of_loose (hs : removeBlocks names s = s) :
    removeBlocks names t = t := by
  rw [removeBlocks_eq, cut_hits_eq_self_iff advances_token] at hs ⊢
  intro g' hg'
  refine Bool.eq_false_iff.2 fun hb' => ?_
  unfold isCallBlock at hb'
  simp only [Bool.and_eq_true] at hb'
  obtain ⟨hslash, hclosed, hcalls⟩ := hb'
  obtain ⟨g, hg, hgg⟩ := exists_corresponding_comment h (List.mem_filter.2 ⟨hg', hslash⟩)
  have hno := hs g (List.mem_filter.1 hg).1
  have hl : Loose g.here g'.here := hgg.loose
  rcases mem_commentHits (List.mem_filter.2 ⟨hg', hslash⟩) with ⟨r', rfl⟩ | ⟨r', rfl⟩
  · rw [isClosedBlock_line] at hclosed
    simp at hclosed
  · obtain ⟨r, e, hr⟩ := hl.symm.append_inv (w := ['/', '*']) (by decide)
    have hclosed' : isClosedBlock g.part = true := by
      rcases mem_commentHits hg with ⟨q, rfl⟩ | ⟨q, rfl⟩
      · simp at e
      · simp only [List.cons_append, List.nil_append, List.cons.injEq, true_and] at e
        rw [isClosedBlock_iff] at hclosed ⊢
        rw [e, ← hclosed]
        exact holds_eq_of_loose (by decide) (by decide) hr.symm
    have hcalls' : (findAll (head names) g.part).isEmpty =
        (findAll (head names) (Hit.part ⟨'/' :: '*' :: r', afterBlock r'⟩)).isEmpty := by
      rw [Bool.eq_iff_iff, findAll_head_isEmpty, findAll_head_isEmpty, ← hits_head_eq_nil,
        ← hits_head_eq_nil, ← List.length_eq_zero_iff, ← List.length_eq_zero_iff,
        (forall₂_hits_head hn (Upto.part hgg) none).length_eq]
    have hyes : isCallBlock names g = true := by
      unfold isCallBlock
      rw [hclosed', hcalls', hcalls, (List.mem_filter.1 hg).2]
      rfl
    rw [hyes] at hno
    simp at hno

end

/-- Blank lines do not matter to whether a round changes a text. -/
theorem round_eq_self_of_loose {names : List String} (hn : OneLine names) {s t : List Char}
    (h : Loose ('\n' :: s) ('\n' :: t)) : round names s = s ↔ round names t = t := by
  have forward : ∀ {s t : List Char}, Loose ('\n' :: s) ('\n' :: t) → round names s = s →
      round names t = t := by
    intro s t h hs
    rw [round_eq_self_iff] at hs ⊢
    obtain ⟨h₁, h₂, h₃, h₄, h₅⟩ := hs
    exact ⟨removeSingle_eq_self_of_loose hn h h₁, removeNested_eq_self_of_loose hn h h₂,
      removeInlineOnce_eq_self_of_loose h hn h₃, removeCommented_eq_self_of_loose hn h h₄,
      removeBlocks_eq_self_of_loose h hn h₅⟩
  exact ⟨forward h, forward h.symm⟩

end ConsoleSweep.Removal
