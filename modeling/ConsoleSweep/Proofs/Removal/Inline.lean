/-
  The pass for calls anywhere in a line, and the calls that it leaves.

  A match of the pass goes from the blanks before a call through the first parenthesis
  behind its head, and over the blanks and the semicolon after it (`MatchParts`). So it
  holds every head that starts in it, and a call stays for one of two reasons
  (`Explained`): no parenthesis closes it before its statement ends, or it stands in a
  match that is kept, in a comment or for the word `function`. The pass leaves a text
  alone if and only if each call in it has such a reason
  (`removeInlineOnce_eq_self_iff_explained`).
-/
import ConsoleSweep.Proofs.Calls

namespace ConsoleSweep.Text

/-! ## Spans of a search -/

/-- No place is under two spans. -/
theorem Apart.eq_of_covered {spans : List Span} (h : Apart spans) {s t : Span} (hs : s ∈ spans)
    (ht : t ∈ spans) {i : Nat} (hsi : s.start ≤ i ∧ i < s.stop) (hti : t.start ≤ i ∧ i < t.stop) :
    s = t := by
  obtain ⟨j, hj, rfl⟩ := List.getElem_of_mem hs
  obtain ⟨k, hk, rfl⟩ := List.getElem_of_mem ht
  have apart := List.pairwise_iff_getElem.1 h.1
  rcases Nat.lt_trichotomy j k with hjk | rfl | hjk
  · have := apart j k hj hk hjk
    omega
  · rfl
  · have := apart k j hk hj hjk
    omega

/-- The span lies in the other one. -/
def Span.Within (s t : Span) : Prop :=
  t.start ≤ s.start ∧ s.stop ≤ t.stop

end ConsoleSweep.Text

namespace ConsoleSweep.Removal

open ConsoleSweep.Text ConsoleSweep.Call

/-! ## Matches of the pass -/

/-- A character that the pass does not pass on the way to the parenthesis. -/
def isStop (c : Char) : Bool :=
  c == ';' || c == '\x7b' || c == '\x7d'

theorem afterFirstClose_cons {c : Char} {cs : List Char} (hc : c ≠ ')') :
    afterFirstClose (c :: cs) = if isStop c then none else afterFirstClose cs := by
  rw [afterFirstClose, if_neg hc]
  simp only [isStop, Bool.or_eq_true, beq_iff_eq, decide_eq_true_eq, or_assoc]

/-- What the pass skips behind the parenthesis. -/
theorem skipSemicolon_skipIndent_split (text : List Char) :
    ∃ b, text = b ++ skipSemicolon (skipIndent text) ∧ ∀ c ∈ b, isIndent c = true ∨ c = ';' := by
  have hsplit := skipIndent_split text
  have hblank := isIndent_takeWhile text
  generalize text.takeWhile isIndent = b at hsplit hblank
  unfold skipSemicolon
  split
  · next rest e =>
    rw [e] at hsplit
    refine ⟨b ++ [';'], by rw [← hsplit]; simp, fun c hc => ?_⟩
    rcases List.mem_append.1 hc with hc | hc
    · exact .inl (hblank c hc)
    · exact .inr (List.mem_singleton.1 hc)
  · exact ⟨b, hsplit.symm, fun c hc => .inl (hblank c hc)⟩

/-- The pass goes on to the first parenthesis, if nothing before it stops the pass. -/
theorem afterFirstClose_eq_some {text z : List Char} :
    afterFirstClose text = some z ↔ ∃ args rest, text = args ++ ')' :: rest ∧
      (∀ c ∈ args, c ≠ ')' ∧ isStop c = false) ∧ z = skipSemicolon (skipIndent rest) := by
  induction text with
  | nil => simp [afterFirstClose]
  | cons c cs ih =>
    by_cases hc : c = ')'
    · rw [afterFirstClose, if_pos hc]
      constructor
      · intro h
        exact ⟨[], cs, by rw [hc]; rfl, by simp, (Option.some.inj h).symm⟩
      · rintro ⟨args, rest, e, hargs, rfl⟩
        cases args with
        | nil => rw [(List.cons.inj e).2]
        | cons d args =>
          obtain ⟨rfl, -⟩ := List.cons.inj e
          exact absurd hc (hargs c List.mem_cons_self).1
    · rw [afterFirstClose_cons hc]
      constructor
      · intro h
        split at h
        · cases h
        · next hstop =>
          obtain ⟨args, rest, rfl, hargs, hz⟩ := ih.1 h
          refine ⟨c :: args, rest, rfl, fun d hd => ?_, hz⟩
          rcases List.mem_cons.1 hd with rfl | hd
          · exact ⟨hc, Bool.eq_false_iff.2 hstop⟩
          · exact hargs d hd
      · rintro ⟨args, rest, e, hargs, hz⟩
        cases args with
        | nil => exact absurd (List.cons.inj e).1 hc
        | cons d args =>
          obtain ⟨rfl, rfl⟩ := List.cons.inj e
          rw [(hargs c List.mem_cons_self).2]
          exact ih.2 ⟨args, rest, rfl, fun d hd => hargs d (List.mem_cons_of_mem c hd), hz⟩

theorem afterFirstClose_isSome_iff {text : List Char} :
    (afterFirstClose text).isSome = true ↔ ')' ∈ text.takeWhile (!isStop ·) := by
  induction text with
  | nil => simp [afterFirstClose]
  | cons c cs ih =>
    by_cases hc : c = ')'
    · have hstop : isStop ')' = false := by decide
      simp [afterFirstClose, hc, hstop]
    · rw [afterFirstClose_cons hc, List.takeWhile_cons]
      cases isStop c
      · simpa [Ne.symm hc] using ih
      · simp

/-- The parts of a match of the pass that follows the character `prev`, with `rest` behind it. -/
structure MatchParts (names : List String) (prev : Option Char) (part rest : List Char) where
  indent : List Char
  head : List Char
  args : List Char
  trail : List Char
  part_eq : part = indent ++ (head ++ (args ++ ')' :: trail))
  indent_blank : ∀ c ∈ indent, isIndent c = true
  head_mem : args ++ ')' :: (trail ++ rest) ∈
    heads names (behind prev indent) (head ++ (args ++ ')' :: (trail ++ rest)))
  args_open : ∀ c ∈ args, c ≠ ')' ∧ isStop c = false
  trail_skipped : ∀ c ∈ trail, isIndent c = true ∨ c = ';'

theorem exists_matchParts {names : List String} {prev : Option Char} {part rest : List Char}
    (h : inlineCall names prev (part ++ rest) = some rest) :
    Nonempty (MatchParts names prev part rest) := by
  obtain ⟨r, hr, hz⟩ := List.exists_of_findSome?_eq_some h
  obtain ⟨args, after, rfl, hargs, erest⟩ := afterFirstClose_eq_some.1 hz
  obtain ⟨trail, hafter, htrail⟩ := skipSemicolon_skipIndent_split after
  rw [← erest] at hafter
  subst hafter
  have hmem := mem_heads_behind_indent hr
  obtain ⟨-, name, -, -, b₁, b₂, b₃, -, -, -, hy⟩ := mem_heads_iff.1 hmem
  generalize headText b₁ b₂ b₃ name = y at hy
  have hsplit := skipIndent_split (part ++ rest)
  have hblank := isIndent_takeWhile (part ++ rest)
  rw [hy] at hmem hsplit
  generalize (part ++ rest).takeWhile isIndent = ind at hmem hsplit hblank
  refine ⟨⟨ind, y, args, trail, ?_, hblank, hmem, hargs, htrail⟩⟩
  apply List.append_cancel_right
  rw [← hsplit]
  simp

namespace MatchParts

variable {names : List String} {prev : Option Char} {part rest : List Char}
  (t : MatchParts names prev part rest)
include t

theorem text_eq : part ++ rest =
    t.indent ++ (t.head ++ (t.args ++ ')' :: (t.trail ++ rest))) := by
  have e := congrArg (· ++ rest) t.part_eq
  simpa using e

/-- A head that starts in the match starts behind the blanks. -/
theorem indent_length_le {p : Option Char} {w there r : List Char} (e : part ++ rest = w ++ there)
    (hr : r ∈ heads names p there) : t.indent.length ≤ w.length := by
  obtain ⟨cs, rfl⟩ := exists_cons_of_mem_heads hr
  rw [t.text_eq] at e
  by_contra hlen
  obtain ⟨v, hv⟩ : w <+: t.indent :=
    List.prefix_of_prefix_length_le ⟨_, e.symm⟩ (List.prefix_append _ _) (by omega)
  cases v with
  | nil =>
    rw [← hv] at hlen
    simp at hlen
  | cons d v =>
    have hd := t.indent_blank d (by simp [← hv])
    rw [← hv, List.append_assoc] at e
    rw [(List.cons.inj (List.append_cancel_left e)).1] at hd
    exact absurd hd (by decide)

/-- A head that starts in the match ends in it. -/
theorem rest_length_le (hw : Wordy names) {p : Option Char} {w there r : List Char}
    (e : part ++ rest = w ++ there) (hr : r ∈ heads names p there)
    (hlt : rest.length < there.length) : rest.length ≤ r.length := by
  by_contra hlen
  obtain ⟨y, hy, -, hchars⟩ := heads_split hw hr
  have hthere : there <:+ part ++ rest := ⟨w, e.symm⟩
  rw [t.text_eq] at hthere
  by_cases htrail : there.length ≤ (t.trail ++ rest).length
  · -- The head would start in what is skipped behind the parenthesis.
    have hafter : t.trail ++ rest <:+
        t.indent ++ (t.head ++ (t.args ++ ')' :: (t.trail ++ rest))) :=
      ⟨t.indent ++ (t.head ++ (t.args ++ [')'])), by simp⟩
    obtain ⟨u, hu⟩ := List.suffix_of_suffix_length_le hthere hafter htrail
    obtain ⟨v, rfl⟩ : rest <:+ there :=
      List.suffix_of_suffix_length_le ⟨t.trail, rfl⟩ ⟨u, hu⟩ (Nat.le_of_lt hlt)
    rw [← List.append_assoc] at hu
    cases v with
    | nil => simp at hlt
    | cons d v =>
      obtain ⟨cs, hcs⟩ := exists_cons_of_mem_heads hr
      have hmem := t.trail_skipped d (by rw [← List.append_cancel_right hu]; simp)
      rw [(List.cons.inj hcs).1] at hmem
      exact absurd hmem (by decide)
  · -- The head would go on over the parenthesis.
    have hclose : ')' :: (t.trail ++ rest) <:+
        t.indent ++ (t.head ++ (t.args ++ ')' :: (t.trail ++ rest))) :=
      ⟨t.indent ++ (t.head ++ t.args), by simp⟩
    obtain ⟨v, hv⟩ := List.suffix_of_suffix_length_le hclose hthere
      (by simp only [List.length_cons]; omega)
    obtain ⟨u, hu⟩ : r <:+ t.trail ++ rest := by
      have hafter : t.trail ++ rest <:+ there := ⟨v ++ [')'], by rw [← hv]; simp⟩
      refine List.suffix_of_suffix_length_le ⟨y, hy.symm⟩ hafter ?_
      rw [List.length_append]
      omega
    have hyv : y = v ++ ')' :: u := by
      apply List.append_cancel_right
      rw [← hy, ← hv, ← hu]
      simp
    rcases hchars ')' (by simp [hyv]) with h | h | h | h <;> exact absurd h (by decide +kernel)

/-- A match has no braces. -/
theorem isErasable_eq (hw : Wordy names) : isErasable part = !holds "function".toList part := by
  obtain ⟨y, hy, -, hchars⟩ := heads_split hw t.head_mem
  have hhead := List.append_cancel_right hy
  have hstop : ∀ c, c = '\x7b' ∨ c = '\x7d' → c ∉ part := by
    intro c hc hmem
    rw [t.part_eq] at hmem
    simp only [List.mem_append, List.mem_cons] at hmem
    rcases hmem with hmem | hmem | hmem | hmem | hmem
    · have := t.indent_blank c hmem
      rcases hc with rfl | rfl <;> exact absurd this (by decide)
    · have := hchars c (hhead ▸ hmem)
      rcases hc with rfl | rfl <;> exact absurd this (by decide +kernel)
    · have := (t.args_open c hmem).2
      rcases hc with rfl | rfl <;> exact absurd this (by decide)
    · rcases hc with rfl | rfl <;> exact absurd hmem (by decide)
    · have := t.trail_skipped c hmem
      rcases hc with rfl | rfl <;> exact absurd this (by decide)
  have hopen := hstop '\x7b' (.inl rfl)
  have hclose := hstop '\x7d' (.inr rfl)
  unfold isErasable
  simp [hopen, hclose]

end MatchParts

/-! ## Calls that stay -/

/-- No parenthesis stands between the head and the next character that the pass stops at. -/
def Unclosed (text : List Char) (s : Span) : Prop :=
  ')' ∉ (text.drop s.stop).takeWhile (!isStop ·)

/-- `h` is a match of the pass, and `d` the head of its call: it stands behind the blanks. -/
structure Matches (methods : List String) (text : List Char) (h d : Span) : Prop where
  found : h ∈ findAll (inlineCall (normalizeNames methods)) text
  listed : d ∈ calls methods text
  within : d.Within h
  indented : ∀ c ∈ Span.slice ⟨h.start, d.start⟩ text, isIndent c = true

/-- The pass keeps the match: it starts in a comment, or it has the word `function`. -/
def Exempt (text : List Char) (h : Span) : Prop :=
  Covered (Comment.spans text) h.start ∨ holds "function".toList (h.slice text) = true

/-- Why a call stays: it is not closed, or it stands in a match that is kept. -/
def Explained (methods : List String) (text : List Char) (s : Span) : Prop :=
  Unclosed text s ∨
    ∃ h d, Matches methods text h d ∧ d.start ≤ s.start ∧ s.Within h ∧ Exempt text h

section

variable {methods : List String} (hw : Wordy (normalizeNames methods)) {text : List Char}
include hw

/-- A match belongs to a call, and has the calls in it that start in it. -/
theorem exists_matches {h : Span} (hh : h ∈ findAll (inlineCall (normalizeNames methods)) text) :
    ∃ d, Matches methods text h d ∧ ¬ Unclosed text d ∧
      ∀ s ∈ calls methods text, h.start ≤ s.start → s.start < h.stop →
        d.start ≤ s.start ∧ s.Within h := by
  obtain ⟨u, part, rest, rfl, -, rfl, hm⟩ :=
    mem_findAll (covers_inlineCall _).advances hh
  obtain ⟨t⟩ := exists_matchParts hm
  have hmem := t.head_mem
  rw [← behind_append] at hmem
  have hcall := exists_call_of_mem_heads hw hmem
  have htext : (u ++ t.indent) ++ (t.head ++ (t.args ++ ')' :: (t.trail ++ rest))) =
      u ++ (part ++ rest) := by rw [t.text_eq, List.append_assoc]
  have hlen := congrArg List.length t.part_eq
  simp only [List.length_append, List.length_cons] at hlen
  rw [htext] at hcall
  refine ⟨_, ⟨hh, hcall, ?_, ?_⟩, ?_, ?_⟩
  · simp only [Span.Within, List.length_append]
    omega
  · intro c hc
    refine t.indent_blank c ?_
    simpa [Span.slice, t.text_eq] using hc
  · have hdrop : (u ++ (part ++ rest)).drop ((u ++ t.indent).length + t.head.length) =
        t.args ++ ')' :: (t.trail ++ rest) := by
      rw [← htext, ← List.append_assoc, ← List.length_append, List.drop_left]
    unfold Unclosed
    rw [hdrop, not_not, ← afterFirstClose_isSome_iff, Option.isSome_iff_exists]
    exact ⟨_, afterFirstClose_eq_some.2 ⟨_, _, rfl, t.args_open, rfl⟩⟩
  · intro s hs hstart hstop
    obtain ⟨x, y, z, e, rfl, hz⟩ := exists_of_mem_calls hs
    simp only at hstart hstop
    obtain ⟨w, rfl⟩ : u <+: x :=
      List.prefix_of_prefix_length_le (List.prefix_append _ _) ⟨_, e.symm⟩ hstart
    rw [List.append_assoc] at e
    have ew := List.append_cancel_left e
    have hwlen := congrArg List.length ew
    simp only [List.length_append] at hwlen hstop
    have hind := t.indent_length_le ew hz
    have hrest := t.rest_length_le hw ew hz (by rw [List.length_append]; omega)
    simp only [Span.Within, List.length_append]
    omega

/-- A call with a parenthesis behind it stands in a match. -/
theorem exists_matches_of_closed {s : Span} (hs : s ∈ calls methods text)
    (hclosed : ¬ Unclosed text s) :
    ∃ h d, Matches methods text h d ∧ d.start ≤ s.start ∧ s.Within h := by
  obtain ⟨x, y, z, rfl, rfl, hz⟩ := exists_of_mem_calls hs
  have hdrop : (x ++ (y ++ z)).drop (x.length + y.length) = z := by
    rw [← List.append_assoc, ← List.length_append, List.drop_left]
  unfold Unclosed at hclosed
  rw [hdrop, not_not, ← afterFirstClose_isSome_iff] at hclosed
  have hmatch : inlineCall (normalizeNames methods) (behind none x) ([] ++ (y ++ z)) =
      afterFirstClose z := by
    apply findSome?_indentedHeads hw
    · simp
    · exact hz
  rw [← hmatch] at hclosed
  obtain ⟨h, hh, hstart, hstop⟩ := covered_of_isSome (covers_inlineCall _).advances hclosed
  obtain ⟨d, hd, -, hall⟩ := exists_matches hw hh
  exact ⟨h, d, hd, hall _ hs hstart hstop⟩

theorem isErasable_slice {h : Span}
    (hh : h ∈ findAll (inlineCall (normalizeNames methods)) text) :
    isErasable (h.slice text) = !holds "function".toList (h.slice text) := by
  obtain ⟨u, part, rest, rfl, -, rfl, hm⟩ :=
    mem_findAll (covers_inlineCall _).advances hh
  obtain ⟨t⟩ := exists_matchParts hm
  rw [slice_append]
  exact t.isErasable_eq hw

/-- The pass leaves a text alone if and only if it keeps each of its matches. -/
theorem removeInlineOnce_eq_self_iff_exempt :
    removeInlineOnce (normalizeNames methods) text = text ↔
      ∀ h ∈ findAll (inlineCall (normalizeNames methods)) text, Exempt text h := by
  have adv := (covers_inlineCall (normalizeNames methods)).advances
  rw [removeInlineOnce_eq, cut_hits_eq_self_iff adv]
  have same : ∀ g ∈ hits (inlineCall (normalizeNames methods)) none text,
      isErased text g = false ↔ Exempt text (g.span text.length) := by
    intro g hg
    have hmem : g.span text.length ∈ findAll (inlineCall (normalizeNames methods)) text := by
      rw [findAll_eq adv]
      exact List.mem_map_of_mem hg
    have hfunction := isErasable_slice hw hmem
    rw [slice_of_mem adv hg] at hfunction
    unfold isErased Exempt
    rw [← insideAny_iff_covered (Comment.apart_spans text), slice_of_mem adv hg, hfunction]
    simp only [Hit.span]
    cases holds "function".toList g.part <;> simp
  constructor
  · intro h s hs
    rw [findAll_eq adv] at hs
    obtain ⟨g, hg, rfl⟩ := List.mem_map.1 hs
    exact (same g hg).1 (h g hg)
  · intro h g hg
    refine (same g hg).2 (h _ ?_)
    rw [findAll_eq adv]
    exact List.mem_map_of_mem hg

/-- The pass leaves a text alone if and only if each call in it has a reason to stay. -/
theorem removeInlineOnce_eq_self_iff_explained :
    removeInlineOnce (normalizeNames methods) text = text ↔
      ∀ s ∈ calls methods text, Explained methods text s := by
  rw [removeInlineOnce_eq_self_iff_exempt hw]
  constructor
  · intro hall s hs
    by_cases hclosed : Unclosed text s
    · exact .inl hclosed
    · obtain ⟨h, d, hd, hstart, hwithin⟩ := exists_matches_of_closed hw hs hclosed
      exact .inr ⟨h, d, hd, hstart, hwithin, hall h hd.found⟩
  · intro hall h hh
    obtain ⟨d, hd, hclosed, -⟩ := exists_matches hw hh
    obtain hunclosed | ⟨k, e, hk, -, hwithin, hexempt⟩ := hall d hd.listed
    · exact absurd hunclosed hclosed
    · -- The head of the match lies in both matches, so they are one.
      have hdlen : d.start < d.stop := by
        obtain ⟨x, y, z, -, rfl, hz⟩ := exists_of_mem_calls hd.listed
        obtain ⟨v, hv, hne, -⟩ := heads_split hw hz
        have hy := List.append_cancel_right hv
        have := List.length_pos_iff.2 (hy ▸ hne)
        simp only
        omega
      have hapart := apart_findAll (covers_inlineCall (normalizeNames methods)).advances text
      have hh' := hd.within
      unfold Span.Within at hh' hwithin
      obtain rfl : h = k := hapart.eq_of_covered hh hk.found (i := d.start) (by omega) (by omega)
      exact hexempt

end

/-- Each call in a text that a removal does not change has a reason to stay: it is not closed before
a character that stops the pass, or it stands in a match that is kept, for the comment that this
match starts in or for the word `function`. -/
theorem surviving_calls_explained (methods : List String) (text : List Char) (hw : Wordy methods)
    (h : removeCalls methods text = text) :
    ∀ s ∈ calls methods text, Explained methods text s := by
  have hround := (removeCalls_eq_self_iff methods text).1 h
  have hinline := ((round_eq_self_iff _ _).1 hround).2.2.1
  exact (removeInlineOnce_eq_self_iff_explained (wordy_normalizeNames hw)).1 hinline

/-- A call with a function, two in a comment of which the first hides the second, and one with
braces before its parenthesis. -/
def keptCalls : List Char :=
  "f(console.log(function () \x7b\x7d)); // console.log(1, console.log(2)\n".toList ++
    "x = console.log(\x7b\x7d);\n".toList

theorem surviving_calls_explained_keptCalls :
    removeCalls ["log"] keptCalls = keptCalls ∧ count ["log"] keptCalls = 4 ∧
      ∀ s ∈ calls ["log"] keptCalls, Explained ["log"] keptCalls s := by
  have hw : Wordy ["log"] := wordy_of_all (by decide +kernel)
  have hkept : removeCalls ["log"] keptCalls = keptCalls := by decide +kernel
  exact ⟨hkept, by decide +kernel, surviving_calls_explained ["log"] keptCalls hw hkept⟩

end ConsoleSweep.Removal
