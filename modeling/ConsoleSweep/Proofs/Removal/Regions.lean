/-
  What the passes delete.

  Every region that a pass deletes holds the head of a call, and the text behind it
  starts at a place where a word may start (`Region`). `Shed` is the outcome of such
  deletions. A text without calls is left as it is (`Shed.eq_of_no_call`), an outcome
  that differs has fewer characters that are no whitespace (`Shed.weight_lt`), and for
  plain method names it has no more heads than the text had (`Shed.tally_le`): a head
  that comes about where two parts meet is paid for by the one in the deleted region.
-/
import ConsoleSweep.Removal
import ConsoleSweep.Proofs.Heads

namespace ConsoleSweep.Removal

open ConsoleSweep.Text ConsoleSweep.Call

/-- The text behind `y` starts at a place where a word may start, or there is none. -/
def EndsClean (y z : List Char) : Prop :=
  z = [] ∨ ∃ y' c, y = y' ++ [c] ∧ startsWord (some c) = true

theorem EndsClean.append {y z : List Char} (h : EndsClean y z) (w : List Char) :
    EndsClean (w ++ y) z := by
  rcases h with h | ⟨y', c, rfl, hc⟩
  · exact .inl h
  · exact .inr ⟨w ++ y', c, (List.append_assoc _ _ _).symm, hc⟩

theorem EndsClean.startsWord {y z : List Char} (h : EndsClean y z) (hz : z ≠ [])
    (prev : Option Char) : startsWord (behind prev y) = true := by
  rcases h with h | ⟨y', c, rfl, hc⟩
  · contradiction
  · rw [behind_concat]; exact hc

/-- A region that may be deleted: it follows the character `prev`, and `z` follows it. -/
def Region (names : List String) (prev : Option Char) (y z : List Char) : Prop :=
  HoldsCall names prev y ∧ EndsClean y z

/-- Whatever the matcher finds may be deleted. -/
def Covers (names : List String) (m : Matcher) : Prop :=
  ∀ prev text z, m prev text = some z → ∃ y, text = y ++ z ∧ Region names prev y z

theorem Covers.advances {names : List String} {m : Matcher} (h : Covers names m) :
    Advances m := by
  intro prev text rest hm
  obtain ⟨y, e, hr⟩ := h prev text rest hm
  exact ⟨y, hr.1.ne_nil, e⟩

/-! ## The ways for a call to end -/

theorem skipIndent_split (text : List Char) :
    text.takeWhile isIndent ++ skipIndent text = text :=
  List.takeWhile_append_dropWhile

theorem skipSemicolon_suffix (text : List Char) : skipSemicolon text <:+ text := by
  unfold skipSemicolon
  split
  · exact List.suffix_cons _ _
  · exact List.suffix_rfl

theorem afterBreak_split {text z : List Char} (h : afterBreak text = some z) :
    ∃ y, text = y ++ z ∧ EndsClean y z := by
  unfold afterBreak at h
  split at h
  · obtain rfl := Option.some.inj h
    exact ⟨[], rfl, .inl rfl⟩
  · obtain rfl := Option.some.inj h
    exact ⟨['\n'], rfl, .inr ⟨[], '\n', rfl, by decide⟩⟩
  · obtain rfl := Option.some.inj h
    exact ⟨['\r', '\n'], rfl, .inr ⟨['\r'], '\n', rfl, by decide⟩⟩
  · simp at h

theorem statementEnd_split {text z : List Char} (h : statementEnd text = some z) :
    ∃ y, text = y ++ z ∧ EndsClean y z := by
  obtain ⟨y, e, hy⟩ := afterBreak_split h
  have hs : skipIndent (skipSemicolon (skipIndent text)) <:+ text :=
    (List.dropWhile_suffix _).trans ((skipSemicolon_suffix _).trans (List.dropWhile_suffix _))
  obtain ⟨w, hw⟩ := hs
  refine ⟨w ++ y, ?_, hy.append w⟩
  rw [← hw, e, List.append_assoc]

theorem afterLastClose_split {text z : List Char} (h : afterLastClose text = some z) :
    ∃ y, text = y ++ z := by
  induction text with
  | nil => simp [afterLastClose] at h
  | cons c cs ih =>
    rw [afterLastClose] at h
    split at h
    · simp at h
    · split at h
      · next rest hr =>
        obtain rfl := Option.some.inj h
        obtain ⟨y, e⟩ := ih hr
        exact ⟨c :: y, by rw [e]; rfl⟩
      · split at h
        · obtain rfl := Option.some.inj h
          exact ⟨[c], rfl⟩
        · simp at h

theorem afterGroups_split {opened : Bool} {text z : List Char}
    (h : afterGroups opened text = some z) : ∃ y, text = y ++ z ∧ EndsClean y z := by
  induction text generalizing opened with
  | nil => simp [afterGroups] at h
  | cons c cs ih =>
    have step : (∃ y, cs = y ++ z ∧ EndsClean y z) →
        ∃ y, c :: cs = y ++ z ∧ EndsClean y z := by
      rintro ⟨y, e, hy⟩
      exact ⟨c :: y, by rw [e]; rfl, hy.append [c]⟩
    rw [afterGroups] at h
    split at h
    · split at h
      · next rest hr =>
        obtain rfl := Option.some.inj h
        exact step (statementEnd_split hr)
      · split at h
        · exact step (ih h)
        · simp at h
    · exact step (ih h)

theorem startsWord_of_isIndent {c : Char} (h : isIndent c = true) : startsWord (some c) = true := by
  simp only [isIndent, Bool.or_eq_true, beq_iff_eq] at h
  rcases h with rfl | rfl <;> decide

theorem skipIndent_clean (c : Char) (hc : startsWord (some c) = true) (text : List Char) :
    ∃ y, c :: text = y ++ skipIndent text ∧ EndsClean y (skipIndent text) := by
  induction text generalizing c with
  | nil => exact ⟨[c], rfl, .inl rfl⟩
  | cons d ds ih =>
    by_cases hd : isIndent d = true
    · obtain ⟨y, e, hy⟩ := ih d (startsWord_of_isIndent hd)
      have es : skipIndent (d :: ds) = skipIndent ds := by simp [skipIndent, hd]
      rw [es]
      exact ⟨c :: y, by rw [e]; rfl, hy.append [c]⟩
    · have es : skipIndent (d :: ds) = d :: ds := by simp [skipIndent, hd]
      rw [es]
      exact ⟨[c], rfl, .inr ⟨[], c, rfl, hc⟩⟩

theorem afterFirstClose_split {text z : List Char} (h : afterFirstClose text = some z) :
    ∃ y, text = y ++ z ∧ EndsClean y z := by
  induction text with
  | nil => simp [afterFirstClose] at h
  | cons c cs ih =>
    rw [afterFirstClose] at h
    split at h
    · next hc =>
      obtain ⟨y, e, hy⟩ := skipIndent_clean c (by rw [hc]; decide) cs
      obtain rfl := Option.some.inj h
      unfold skipSemicolon
      split
      · next rest hr =>
        refine ⟨y ++ [';'], ?_, .inr ⟨y, ';', rfl, by decide⟩⟩
        rw [e, hr, List.append_assoc]; rfl
      · exact ⟨y, e, hy⟩
    · split at h
      · simp at h
      · obtain ⟨y, e, hy⟩ := ih h
        exact ⟨c :: y, by rw [e]; rfl, hy.append [c]⟩

theorem afterLine_split (text : List Char) :
    ∃ y, text = y ++ afterLine text ∧ EndsClean y (afterLine text) := by
  induction text with
  | nil => exact ⟨[], rfl, .inl rfl⟩
  | cons c cs ih =>
    rw [afterLine]
    split
    · next hc => exact ⟨[c], rfl, .inr ⟨[], c, rfl, by rw [hc]; decide⟩⟩
    · obtain ⟨y, e, hy⟩ := ih
      exact ⟨c :: y, congrArg (c :: ·) e, hy.append [c]⟩

/-! ## The matchers of the passes -/

theorem startsWord_behind_indent (prev : Option Char) (ind : List Char)
    (hi : ∀ c ∈ ind, isIndent c = true) (hne : ind ≠ []) :
    startsWord (behind prev ind) = true := by
  induction ind generalizing prev with
  | nil => exact absurd rfl hne
  | cons c cs ih =>
    cases cs with
    | nil => exact startsWord_of_isIndent (hi c List.mem_cons_self)
    | cons d ds => exact ih (some c) (fun e he => hi e (List.mem_cons_of_mem c he)) (by simp)

theorem isIndent_takeWhile (text : List Char) :
    ∀ c ∈ text.takeWhile isIndent, isIndent c = true := by
  have h : (text.takeWhile isIndent).all isIndent = true := List.all_takeWhile
  exact List.all_eq_true.1 h

/-- Skipping the indent does not change whether a word may start. -/
theorem startsWord_beforeIndented (prev : Option Char) (text : List Char) :
    startsWord (beforeIndented prev text) =
      startsWord (behind prev (text.takeWhile isIndent)) := by
  cases text with
  | nil => rfl
  | cons c cs =>
    by_cases hc : isIndent c = true
    · have hne : (c :: cs).takeWhile isIndent ≠ [] := by simp [hc]
      rw [startsWord_behind_indent prev _ (isIndent_takeWhile _) hne, beforeIndented, if_pos hc,
        startsWord_of_isIndent hc]
    · simp [beforeIndented, hc]

/-- What leads up to the end of an indented head holds the head. -/
theorem indentedHeads_split {names : List String} {prev : Option Char} {text r : List Char}
    (h : r ∈ indentedHeads names prev text) : ∃ y, text = y ++ r ∧ HoldsCall names prev y := by
  obtain ⟨hw, name, hn, hs, b₁, b₂, b₃, h₁, h₂, h₃, e⟩ := mem_heads_iff.1 h
  rw [startsWord_beforeIndented] at hw
  refine ⟨text.takeWhile isIndent ++ headText b₁ b₂ b₃ name, ?_, ?_⟩
  · rw [List.append_assoc, ← e, skipIndent_split]
  · refine ⟨_, headText b₁ b₂ b₃ name, [], rfl, ?_⟩
    exact mem_heads_iff.2 ⟨hw, name, hn, hs, b₁, b₂, b₃, h₁, h₂, h₃, (List.append_nil _).symm⟩

/-- A head and a way for the call to end make a region. -/
theorem region_of_head {names : List String} {prev : Option Char} {text r z : List Char}
    (hr : r ∈ indentedHeads names prev text) (hz : ∃ y, r = y ++ z ∧ EndsClean y z) :
    ∃ y, text = y ++ z ∧ Region names prev y z := by
  obtain ⟨x, rfl, hx⟩ := indentedHeads_split hr
  obtain ⟨y, rfl, hy⟩ := hz
  exact ⟨x ++ y, (List.append_assoc _ _ _).symm,
    HoldsCall.within (x := []) hx y, hy.append x⟩

theorem covers_singleLine (names : List String) : Covers names (singleLine names) := by
  intro prev text z h
  unfold singleLine at h
  split at h
  · obtain ⟨r, hr, hz⟩ := List.exists_of_findSome?_eq_some h
    obtain ⟨s, hs, he⟩ := Option.bind_eq_some_iff.1 hz
    obtain ⟨u, rfl⟩ := afterLastClose_split hs
    obtain ⟨y, rfl, hy⟩ := statementEnd_split he
    exact region_of_head hr ⟨u ++ y, (List.append_assoc _ _ _).symm, hy.append u⟩
  · simp at h

theorem covers_nestedStatement (names : List String) : Covers names (nestedStatement names) := by
  intro prev text z h
  unfold nestedStatement at h
  split at h
  · obtain ⟨r, hr, hz⟩ := List.exists_of_findSome?_eq_some h
    exact region_of_head hr (afterGroups_split hz)
  · simp at h

theorem covers_inlineCall (names : List String) : Covers names (inlineCall names) := by
  intro prev text z h
  obtain ⟨r, hr, hz⟩ := List.exists_of_findSome?_eq_some h
  exact region_of_head hr (afterFirstClose_split hz)

theorem covers_commentedLine (names : List String) : Covers names (commentedLine names) := by
  intro prev text z h
  unfold commentedLine at h
  split at h
  · split at h
    · next rest hr =>
      obtain ⟨r, hr', hz⟩ := Option.map_eq_some_iff.1 h
      obtain rfl := hz
      obtain ⟨y, e, hy, hc⟩ := region_of_head (List.mem_of_mem_head? hr') (afterLine_split r)
      refine ⟨text.takeWhile isIndent ++ ['/', '/'] ++ y, ?_, ?_, hc.append _⟩
      · have := skipIndent_split text
        rw [hr, e] at this
        simpa using this.symm
      · have hb : behind prev (text.takeWhile isIndent ++ ['/', '/']) = some '/' := by
          rw [behind_append]; rfl
        have : HoldsCall names prev (text.takeWhile isIndent ++ ['/', '/'] ++ (y ++ [])) :=
          HoldsCall.within (by rw [hb]; exact hy) []
        rwa [List.append_nil] at this
    · simp at h
  · simp at h

/-! ## Outcomes of deletions -/

/-- The outcome of deleting regions from a text that follows the character `prev`. -/
inductive Shed (names : List String) : Option Char → List Char → List Char → Prop where
  | kept (prev : Option Char) (text : List Char) : Shed names prev text text
  | cut {prev : Option Char} (x : List Char) {y z z' : List Char} :
      Region names (behind prev x) y z → Shed names (behind (behind prev x) y) z z' →
      Shed names prev (x ++ (y ++ z)) (x ++ z')

variable {names : List String} {prev : Option Char} {text res : List Char}

theorem Shed.append (w : List Char) (h : Shed names (behind prev w) text res) :
    Shed names prev (w ++ text) (w ++ res) := by
  cases h with
  | kept => exact .kept prev _
  | @cut _ x y z z' hr hz =>
    rw [← List.append_assoc w x (y ++ z), ← List.append_assoc w x z']
    refine .cut (w ++ x) ?_ ?_ <;> rw [behind_append]
    · exact hr
    · exact hz

/-- Deleting some of the matches of a search sheds them, if each of them is a region. -/
theorem shed_rewritten {m : Matcher} (adv : Advances m) (p : Hit → Bool)
    (region : ∀ prev y z, m prev (y ++ z) = some z → p ⟨y ++ z, z⟩ = true →
      Region names prev y z) (prev : Option Char) (text : List Char) :
    Shed names prev text (rewritten (fun _ => []) ((hits m prev text).filter p) text) := by
  refine hits_induction adv (P := fun prev text hs =>
    Shed names prev text (rewritten (fun _ => []) (hs.filter p) text)) ?_ ?_ ?_ prev text
  · intro prev; exact .kept prev []
  · intro prev c cs _ ih
    have := rewritten_append (f := fun _ => [])
      ((parts_hits adv (some c) cs).filter p) [c]
    rw [← List.singleton_append, this]
    exact Shed.append [c] ih
  · intro prev y z hy hm ih
    rw [List.filter_cons]
    split
    · next hp =>
      have := rewritten_cons (fun _ => []) ((hits m (behind prev y) z).filter p) [] y z
      rw [List.nil_append] at this
      rw [this]
      exact .cut [] (region prev y z hm hp) ih
    · rw [rewritten_append ((parts_hits adv (behind prev y) z).filter p) y]
      exact ih.append y

theorem Covers.shed {m : Matcher} (h : Covers names m) (p : Hit → Bool) (prev : Option Char)
    (text : List Char) :
    Shed names prev text (rewritten (fun _ => []) ((hits m prev text).filter p) text) := by
  refine shed_rewritten h.advances p ?_ prev text
  intro prev y z hm _
  obtain ⟨y', e, hr⟩ := h prev (y ++ z) z hm
  rw [List.append_cancel_right e]
  exact hr

theorem Shed.eq_of_no_call (h : Shed names prev text res) (hn : ¬ HoldsCall names prev text) :
    res = text := by
  cases h with
  | kept => rfl
  | cut x hr _ => exact absurd (hr.1.within _) hn

/-- The number of characters that are no whitespace. -/
def weight (text : List Char) : Nat :=
  text.countP (!isBlank ·)

@[simp] theorem weight_nil : weight [] = 0 := rfl

@[simp] theorem weight_append (x y : List Char) : weight (x ++ y) = weight x + weight y :=
  List.countP_append

theorem weight_eq_zero_iff {x : List Char} : weight x = 0 ↔ Blank x := by
  simp [weight, Blank, List.countP_eq_zero]

theorem Shed.weight_le (h : Shed names prev text res) : weight res ≤ weight text := by
  induction h with
  | kept => exact Nat.le_refl _
  | cut x _ _ ih => simp only [weight_append]; omega

theorem Shed.weight_lt (h : Shed names prev text res) (hne : res ≠ text) :
    weight res < weight text := by
  cases h with
  | kept => contradiction
  | @cut _ x y z z' hr hz =>
    have hz' := hz.weight_le
    have hy : weight y ≠ 0 := fun h0 => hr.1.not_blank (weight_eq_zero_iff.1 h0)
    simp only [weight_append]
    omega

theorem Shed.eq_nil (h : Shed names prev [] res) : res = [] :=
  h.eq_of_no_call fun hc => hc.ne_nil rfl

/-- Deletions leave no more heads than there were. -/
theorem Shed.tally_le (hw : Wordy names) (h : Shed names prev text res) :
    tally names prev res ≤ tally names prev text := by
  induction h with
  | kept => exact Nat.le_refl _
  | @cut prev x y z z' hr hz ih =>
    have hx := tally_append_ge names prev x (y ++ z)
    have hy := tally_append_ge names (behind prev x) y z
    by_cases hnil : z = []
    · subst hnil
      rw [hz.eq_nil, List.append_nil]
      omega
    · -- The seam gives at most one head, and the region that is gone had one.
      have hseam := tally_append_le hw (hr.2.startsWord hnil (behind prev x)) prev x z'
      have hcall := hr.1.tally_pos
      omega

end ConsoleSweep.Removal
