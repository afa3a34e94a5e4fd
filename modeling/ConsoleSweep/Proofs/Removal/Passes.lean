/-
  The five passes and their repetition.

  Each pass deletes some matches of one search, and what it deletes are regions with a
  call in them, so its outcome is a `Shed` of the text. From this the text gets lighter
  whenever a pass changes it (`Trims`), which settles when a repeated step and a chain of
  passes leave a text alone: if and only if each single pass does (`settle_eq_self_iff`,
  `round_eq_self_iff`).

  So the detector and the removal agree: where no call is found, no pass changes anything.
-/
import ConsoleSweep.Proofs.Comments
import ConsoleSweep.Proofs.Removal.Regions

namespace ConsoleSweep.Removal

open ConsoleSweep.Text ConsoleSweep.Call ConsoleSweep.Comment

/-! ## The passes as deletions of matches -/

theorem removeSingle_eq (names : List String) (text : List Char) :
    removeSingle names text =
      rewritten (fun _ => []) (hits (singleLine names) none text) text :=
  cut_findAll (covers_singleLine names).advances text

theorem removeNested_eq (names : List String) (text : List Char) :
    removeNested names text =
      rewritten (fun _ => []) (hits (nestedStatement names) none text) text :=
  cut_findAll (covers_nestedStatement names).advances text

theorem removeCommented_eq (names : List String) (text : List Char) :
    removeCommented names text =
      rewritten (fun _ => []) (hits (commentedLine names) none text) text :=
  cut_findAll (covers_commentedLine names).advances text

/-- A match of the inline pass that is deleted from the text. -/
def isErased (text : List Char) (h : Hit) : Bool :=
  isErasable h.part && !insideAny (spans text).toArray (text.length - h.here.length)

theorem removeInlineOnce_eq (names : List String) (text : List Char) :
    removeInlineOnce names text =
      rewritten (fun _ => []) ((hits (inlineCall names) none text).filter (isErased text))
        text := by
  have adv := (covers_inlineCall names).advances
  refine cut_filter_findAll adv text (isErased text) _ ?_
  intro h hh
  rw [slice_of_mem adv hh]
  rfl

/-- A match of the comment search that is a closed block comment with a call in it. -/
def isCallBlock (names : List String) (h : Hit) : Bool :=
  h.here.head? == some '/' && (isClosedBlock h.part && !(findAll (head names) h.part).isEmpty)

theorem removeBlocks_eq (names : List String) (text : List Char) :
    removeBlocks names text =
      rewritten (fun _ => []) ((hits token none text).filter (isCallBlock names)) text := by
  unfold removeBlocks callBlocks spans
  rw [List.filter_filter]
  refine cut_filter_findAll advances_token text (isCallBlock names) _ ?_
  intro h hh
  rw [slice_of_mem advances_token hh, getElem?_start_of_mem advances_token hh, Bool.and_comm]
  rfl

/-! ## The passes shed regions -/

theorem shed_removeSingle (names : List String) (text : List Char) :
    Shed names none text (removeSingle names text) := by
  rw [removeSingle_eq]
  simpa using (covers_singleLine names).shed (fun _ => true) none text

theorem shed_removeNested (names : List String) (text : List Char) :
    Shed names none text (removeNested names text) := by
  rw [removeNested_eq]
  simpa using (covers_nestedStatement names).shed (fun _ => true) none text

theorem shed_removeCommented (names : List String) (text : List Char) :
    Shed names none text (removeCommented names text) := by
  rw [removeCommented_eq]
  simpa using (covers_commentedLine names).shed (fun _ => true) none text

theorem shed_removeInlineOnce (names : List String) (text : List Char) :
    Shed names none text (removeInlineOnce names text) := by
  rw [removeInlineOnce_eq]
  exact (covers_inlineCall names).shed (isErased text) none text

theorem findAll_head_isEmpty {names : List String} {text : List Char} :
    (findAll (head names) text).isEmpty = true ↔ ¬ HoldsCall names none text := by
  rw [findAll_eq (advances_head names), List.isEmpty_iff, List.map_eq_nil_iff, hits_head_eq_nil]

/-- What precedes a text that does not start with the keyword does not matter. -/
theorem HoldsCall.of_cons {names : List String} {prev p : Option Char} {c : Char} {cs : List Char}
    (hc : c ≠ 'c') (h : HoldsCall names p (c :: cs)) : HoldsCall names prev (c :: cs) := by
  obtain ⟨x, z, r, e, hr⟩ := h
  cases x with
  | nil =>
    obtain ⟨-, name, -, -, b₁, b₂, b₃, -, -, -, e'⟩ := mem_heads_iff.1 hr
    rw [List.nil_append] at e
    rw [← e] at e'
    exact absurd (List.cons.inj e').1 hc
  | cons d x => exact ⟨d :: x, z, r, e, hr⟩

/-- A closed block comment with a call in it is a region, whatever precedes it. -/
theorem region_of_isCallBlock {names : List String} {y z : List Char} (prev : Option Char)
    (h : isCallBlock names ⟨y ++ z, z⟩ = true) : Region names prev y z := by
  simp only [isCallBlock, Hit.part_mk, isClosedBlock, Bool.and_eq_true] at h
  obtain ⟨-, ⟨⟨hp, -⟩, hs⟩, hcall⟩ := h
  obtain ⟨v, rfl⟩ := List.isPrefixOf_iff_prefix.1 hp
  have hc : HoldsCall names none ("/*".toList ++ v) := by
    by_contra hn
    rw [findAll_head_isEmpty.2 hn] at hcall
    simp at hcall
  refine ⟨HoldsCall.of_cons (by decide) hc, .inr ?_⟩
  obtain ⟨u, e⟩ := List.isSuffixOf_iff_suffix.1 hs
  exact ⟨u ++ ['*'], '/', by rw [← e]; simp, by decide⟩

theorem shed_removeBlocks (names : List String) (text : List Char) :
    Shed names none text (removeBlocks names text) := by
  rw [removeBlocks_eq]
  refine shed_rewritten advances_token (isCallBlock names) ?_ none text
  intro prev y z _ hp
  exact region_of_isCallBlock prev hp

/-! ## Steps that make a text lighter -/

/-- The step leaves a text as it is, or takes something from it that is no whitespace. -/
def Trims (step : List Char → List Char) : Prop :=
  ∀ text, step text ≠ text → weight (step text) < weight text

theorem trims_of_shed {names : List String} {step : List Char → List Char}
    (h : ∀ text, Shed names none text (step text)) : Trims step :=
  fun text hne => (h text).weight_lt hne

theorem Trims.weight_le {step : List Char → List Char} (h : Trims step) (text : List Char) :
    weight (step text) ≤ weight text := by
  by_cases he : step text = text
  · exact Nat.le_of_eq (congrArg weight he)
  · exact Nat.le_of_lt (h text he)

theorem Trims.comp {f g : List Char → List Char} (hf : Trims f) (hg : Trims g) :
    Trims (fun text => g (f text)) := by
  intro text hne
  have hg' := hg.weight_le (f text)
  simp only at hne ⊢
  by_cases he : f text = text
  · rw [he] at hne ⊢
    exact hg text hne
  · have := hf text he
    omega

/-- Two steps leave a text as it is if and only if each of them does. -/
theorem Trims.comp_eq_self_iff {f g : List Char → List Char} (hf : Trims f) (hg : Trims g)
    (text : List Char) : g (f text) = text ↔ f text = text ∧ g text = text := by
  constructor
  · intro e
    have hf' : f text = text := by
      by_contra hne
      have h₁ := hf text hne
      have h₂ := hg.weight_le (f text)
      rw [e] at h₂
      omega
    rw [hf'] at e
    exact ⟨hf', e⟩
  · rintro ⟨h₁, h₂⟩
    rw [h₁, h₂]

/-- What a step preserves is preserved by repeating it. -/
theorem settle_induction {P : List Char → Prop} {step : List Char → List Char}
    (hstep : ∀ text, P text → P (step text)) (limit : Nat) (text : List Char) (h : P text) :
    P (settle step limit text) := by
  induction limit generalizing text with
  | zero => exact h
  | succ limit ih =>
    rw [settle]
    split
    · exact h
    · exact ih (step text) (hstep text h)

theorem settle_of_eq {step : List Char → List Char} {text : List Char} (h : step text = text)
    (limit : Nat) : settle step limit text = text := by
  cases limit with
  | zero => rfl
  | succ limit => rw [settle, if_pos h]

theorem Trims.settle {step : List Char → List Char} (h : Trims step) (limit : Nat) :
    Trims (settle step limit) := by
  intro text hne
  cases limit with
  | zero => exact absurd rfl hne
  | succ limit =>
    rw [Removal.settle] at hne ⊢
    split at hne
    · contradiction
    · next hs =>
      rw [if_neg hs]
      have hlt := h text hs
      refine settle_induction (P := fun t => weight t < weight text) ?_ limit _ hlt
      intro t ht
      have := h.weight_le t
      omega

/-- Repeating a step, at least once, leaves a text as it is if and only if the step does. -/
theorem settle_eq_self_iff {step : List Char → List Char} (h : Trims step) (limit : Nat)
    (text : List Char) : settle step (limit + 1) text = text ↔ step text = text := by
  constructor
  · intro e
    by_contra hs
    rw [settle, if_neg hs] at e
    have h₁ := h text hs
    have h₂ := (h.settle limit).weight_le (step text)
    rw [e] at h₂
    omega
  · intro hs
    exact settle_of_eq hs _

theorem trims_removeInline (names : List String) : Trims (removeInline names) :=
  (trims_of_shed (shed_removeInlineOnce names)).settle inlineLimit

/-- A round leaves a text as it is if and only if none of its passes finds anything. -/
theorem round_eq_self_iff (names : List String) (text : List Char) :
    round names text = text ↔
      removeSingle names text = text ∧ removeNested names text = text ∧
        removeInlineOnce names text = text ∧ removeCommented names text = text ∧
        removeBlocks names text = text := by
  have h₁ := trims_of_shed (shed_removeSingle names)
  have h₂ := trims_of_shed (shed_removeNested names)
  have h₃ := trims_removeInline names
  have h₄ := trims_of_shed (shed_removeCommented names)
  have h₅ := trims_of_shed (shed_removeBlocks names)
  have hi := settle_eq_self_iff (trims_of_shed (shed_removeInlineOnce names)) 4 text
  unfold round
  rw [(((h₁.comp h₂).comp h₃).comp h₄).comp_eq_self_iff h₅,
    ((h₁.comp h₂).comp h₃).comp_eq_self_iff h₄, (h₁.comp h₂).comp_eq_self_iff h₃,
    h₁.comp_eq_self_iff h₂]
  unfold removeInline inlineLimit
  rw [hi]
  tauto

theorem trims_round (names : List String) : Trims (round names) :=
  ((((trims_of_shed (shed_removeSingle names)).comp (trims_of_shed (shed_removeNested names))).comp
    (trims_removeInline names)).comp (trims_of_shed (shed_removeCommented names))).comp
    (trims_of_shed (shed_removeBlocks names))

/-! ## Texts without calls -/

theorem count_eq_zero_iff {methods : List String} {text : List Char}
    (hn : normalizeNames methods ≠ []) :
    count methods text = 0 ↔ ¬ HoldsCall (normalizeNames methods) none text := by
  unfold count calls
  rw [if_neg (by simpa using hn), List.length_eq_zero_iff, ← List.isEmpty_iff,
    findAll_head_isEmpty]

/-- A text in which no call is counted is left as it is, by each pass and by all together. -/
theorem passes_eq_self_of_count_eq_zero (methods : List String) (text : List Char)
    (h : count methods text = 0) :
    (normalizeNames methods ≠ [] →
      ∀ pass : Pass, pass ≠ .blank → pass.run methods text = text) ∧
    removeCalls methods text = text := by
  by_cases hn : normalizeNames methods = []
  · refine ⟨fun hne => absurd hn hne, ?_⟩
    simp [removeCalls, hn]
  have hcall := (count_eq_zero_iff hn).1 h
  obtain ⟨name, names, e⟩ := List.exists_cons_of_ne_nil hn
  rw [e] at hcall
  have h₁ := (shed_removeSingle (name :: names) text).eq_of_no_call hcall
  have h₂ := (shed_removeNested (name :: names) text).eq_of_no_call hcall
  have h₃ := (shed_removeInlineOnce (name :: names) text).eq_of_no_call hcall
  have h₄ := (shed_removeCommented (name :: names) text).eq_of_no_call hcall
  have h₅ := (shed_removeBlocks (name :: names) text).eq_of_no_call hcall
  constructor
  · intro _ pass hp
    unfold Pass.run
    simp only [e]
    cases pass with
    | single => exact h₁
    | nested => exact h₂
    | inline => exact settle_of_eq h₃ _
    | commented => exact h₄
    | block => exact h₅
    | blank => contradiction
  · have hr := (round_eq_self_iff (name :: names) text).2 ⟨h₁, h₂, h₃, h₄, h₅⟩
    unfold removeCalls
    simp only [e, settle_of_eq hr, ite_true, ite_self]

/-- A longer word that ends in the keyword is no call. -/
theorem passes_keep_longer_word :
    count ["log"] "myconsole.log(1)".toList = 0 ∧
      removeCalls ["log"] "myconsole.log(1)".toList = "myconsole.log(1)".toList := by
  have h : count ["log"] "myconsole.log(1)".toList = 0 := by decide +kernel
  exact ⟨h, (passes_eq_self_of_count_eq_zero ["log"] _ h).2⟩

end ConsoleSweep.Removal
