/-
  The keyword in a text.

  Where the keyword does not stand no call is found, so a removal is done once its passes
  have taken the last one (`swept_eq_of_free`). Where it starts a call of a method with a
  plain name there is one way to read the head, so a pass that tries the heads of a call
  tries what follows that one (`findSome?_indentedHeads`). Two such heads do not overlap
  (`length_le_of_mem_heads`).
-/
import ConsoleSweep.Proofs.Removal.Statements

namespace ConsoleSweep.Text

/-! ## Texts without a word -/

theorem holds_eq_false_of_suffix {needle x z : List Char} (h : holds needle (x ++ z) = false) :
    holds needle z = false := by
  refine Bool.eq_false_iff.2 fun hz => Bool.eq_false_iff.1 h ?_
  obtain ⟨y, w, rfl⟩ := holds_iff.1 hz
  exact holds_iff.2 ⟨x ++ y, w, (List.append_assoc _ _ _).symm⟩

theorem holds_eq_false_of_append {needle x z : List Char} (h : holds needle (x ++ z) = false) :
    holds needle x = false := by
  refine Bool.eq_false_iff.2 fun hx => Bool.eq_false_iff.1 h ?_
  obtain ⟨y, w, rfl⟩ := holds_iff.1 hx
  exact holds_iff.2 ⟨y, w ++ z, by simp⟩

/-- A word that does not have the character ends before it. -/
theorem isPrefix_of_append_cons {needle x z : List Char} {c : Char} (hc : c ∉ needle)
    (h : needle <+: x ++ c :: z) : needle <+: x := by
  obtain ⟨w, e⟩ := h
  rcases List.append_eq_append_iff.1 e with ⟨v, rfl, -⟩ | ⟨v, rfl, e'⟩
  · exact List.prefix_append needle v
  · cases v with
    | nil => simp
    | cons d v =>
      obtain ⟨rfl, -⟩ := List.cons.inj e'
      simp at hc

/-- A character that the word does not have keeps its occurrences apart. -/
theorem holds_append_cons {needle x z : List Char} {c : Char} (hc : c ∉ needle)
    (hx : holds needle x = false) (hz : holds needle z = false) :
    holds needle (x ++ c :: z) = false := by
  induction x with
  | nil =>
    refine Bool.or_eq_false_iff.2 ⟨Bool.eq_false_iff.2 fun h => ?_, hz⟩
    have hprefix := isPrefix_of_append_cons (x := []) hc (List.isPrefixOf_iff_prefix.1 h)
    rw [List.prefix_nil.1 hprefix] at hx
    cases hx
  | cons d x ih =>
    obtain ⟨hd, hx⟩ := Bool.or_eq_false_iff.1 hx
    refine Bool.or_eq_false_iff.2 ⟨Bool.eq_false_iff.2 fun h => ?_, ih hx⟩
    have hprefix := isPrefix_of_append_cons (x := d :: x) hc (List.isPrefixOf_iff_prefix.1 h)
    exact Bool.eq_false_iff.1 hd (List.isPrefixOf_iff_prefix.2 hprefix)

/-- A text that does not hold the word, and ends with a character that the word does not have, does
not hold the start of the word either. -/
theorem not_isPrefix_append {needle q u v z : List Char} {c : Char} (hc : c ∉ needle)
    (hfree : holds needle (q ++ [c]) = false) (e : q ++ [c] = u ++ v) (hv : v ≠ []) :
    ¬ needle <+: v ++ z := by
  intro h
  rcases List.eq_nil_or_concat' v with rfl | ⟨w, d, rfl⟩
  · contradiction
  · rw [← List.append_assoc] at e
    obtain ⟨rfl, hd⟩ := List.append_inj' e rfl
    rw [← List.singleton_inj.1 hd, List.append_assoc] at h
    obtain ⟨t, rfl⟩ := isPrefix_of_append_cons hc h
    exact Bool.eq_false_iff.1 hfree (holds_iff.2 ⟨u, t ++ [c], by simp⟩)

theorem holds_append_of_not_mem {needle x z : List Char} (hx : ∀ c ∈ x, c ∉ needle)
    (hz : holds needle z = false) : holds needle (x ++ z) = false := by
  induction x with
  | nil => exact hz
  | cons c cs ih =>
    have hnil : holds needle [] = false := holds_eq_false_of_suffix (x := z) (by simpa using hz)
    exact holds_append_cons (x := []) (hx c List.mem_cons_self) hnil
      (ih fun d hd => hx d (List.mem_cons_of_mem c hd))

theorem holds_append_of_not_mem_right {needle x z : List Char} (hx : holds needle x = false)
    (hz : ∀ c ∈ z, c ∉ needle) : holds needle (x ++ z) = false := by
  have hnil : holds needle [] = false := holds_eq_false_of_suffix (x := x) (by simpa using hx)
  cases z with
  | nil => rwa [List.append_nil]
  | cons c cs =>
    refine holds_append_cons (hz c List.mem_cons_self) hx ?_
    have hcs := holds_append_of_not_mem (fun d hd => hz d (List.mem_cons_of_mem c hd)) hnil
    rwa [List.append_nil] at hcs

/-- Among equal candidates the first one decides. -/
theorem findSome?_eq_of_forall {α β : Type} {l : List α} {a : α} (ha : a ∈ l)
    (hall : ∀ b ∈ l, b = a) (f : α → Option β) : l.findSome? f = f a := by
  cases hf : f a with
  | none => exact List.findSome?_eq_none_iff.2 fun b hb => hall b hb ▸ hf
  | some r =>
    cases l with
    | nil => cases ha
    | cons b bs => rw [List.findSome?_cons, hall b List.mem_cons_self, hf]

end ConsoleSweep.Text

namespace ConsoleSweep.Call

open ConsoleSweep.Text

/-! ## Calls by their keyword -/

/-- A text without the keyword holds no call. -/
theorem not_holdsCall_of_free {names : List String} {prev : Option Char} {text : List Char}
    (h : holds keyword text = false) : ¬ HoldsCall names prev text := by
  rintro ⟨x, z, r, rfl, hr⟩
  obtain ⟨-, name, -, -, b₁, b₂, b₃, -, -, -, rfl⟩ := mem_heads_iff.1 hr
  refine Bool.eq_false_iff.1 h (holds_iff.2 ⟨x, ?_, ?_⟩)
  · exact b₁ ++ '.' :: (b₂ ++ (name.toList ++ (b₃ ++ '(' :: r)))
  · simp [headText]

theorem Wordy.startsSolid {names : List String} (hw : Wordy names) {name : String}
    (hn : name ∈ names) : StartsSolid name := by
  intro c cs hc
  have hmem : c ∈ name.toList := hc ▸ List.mem_cons_self
  refine Bool.eq_false_iff.2 fun hb => ?_
  rcases hw name hn c hmem with hword | rfl
  · exact Bool.eq_false_iff.1 (isWord_of_isBlank hb) hword
  · exact absurd hb (by decide)

theorem not_mem_keyword_of_startsWord {c : Char} (h : startsWord (some c) = true) :
    c ∉ keyword := by
  intro hc
  have hall : ∀ c ∈ keyword, inWord c = true := List.all_eq_true.1 (by decide)
  have hword := hall c hc
  rw [inWord, h] at hword
  cases hword

/-- A head without whitespace. -/
theorem mem_heads_headText {names : List String} (hw : Wordy names) {name : String}
    (hn : name ∈ names) {prev : Option Char} (hp : startsWord prev = true) (rest : List Char) :
    rest ∈ heads names prev (headText [] [] [] name ++ rest) :=
  mem_heads_iff.2
    ⟨hp, name, hn, hw.startsSolid hn, [], [], [], blank_nil, blank_nil, blank_nil, rfl⟩

theorem exists_cons_of_mem_heads {names : List String} {prev : Option Char} {text r : List Char}
    (h : r ∈ heads names prev text) : ∃ cs, text = 'c' :: cs := by
  obtain ⟨-, name, -, -, b₁, b₂, b₃, -, -, -, rfl⟩ := mem_heads_iff.1 h
  exact ⟨_, rfl⟩

theorem isPrefix_of_mem_heads {names : List String} {prev : Option Char} {text r : List Char}
    (h : r ∈ heads names prev text) : keyword <+: text := by
  obtain ⟨-, name, -, -, b₁, b₂, b₃, -, -, -, rfl⟩ := mem_heads_iff.1 h
  rw [headText, List.append_assoc]
  exact List.prefix_append _ _

/-- What a head is made of. -/
theorem heads_split {names : List String} (hw : Wordy names) {prev : Option Char}
    {text r : List Char} (h : r ∈ heads names prev text) :
    ∃ y, text = y ++ r ∧ y ≠ [] ∧
      ∀ c ∈ y, inWord c = true ∨ isBlank c = true ∨ c = '.' ∨ c = '(' := by
  obtain ⟨-, name, hn, -, b₁, b₂, b₃, h₁, h₂, h₃, e⟩ := mem_heads_iff.1 h
  refine ⟨_, e, headText_ne_nil _ _ _ _, fun c hc => ?_⟩
  have hk : ∀ c ∈ keyword, inWord c = true := List.all_eq_true.1 (by decide)
  simp only [headText, List.mem_append, List.mem_cons, List.not_mem_nil, or_false] at hc
  rcases hc with hc | hc | hc | hc | hc | hc | hc
  · exact .inl (hk c hc)
  · exact .inr (.inl (h₁ c hc))
  · exact .inr (.inr (.inl hc))
  · exact .inr (.inl (h₂ c hc))
  · exact .inl (hw.inWord hn c hc)
  · exact .inr (.inl (h₃ c hc))
  · exact .inr (.inr (.inr hc))

/-- The first head at a place is the only one. -/
theorem head_eq_some_iff {names : List String} (hw : Wordy names) {prev : Option Char}
    {text r : List Char} : head names prev text = some r ↔ r ∈ heads names prev text := by
  refine ⟨head_eq_some, fun hr => ?_⟩
  obtain ⟨r', hr'⟩ := Option.isSome_iff_exists.1 (head_isSome_iff.2 ⟨r, hr⟩)
  rw [hr', Removal.heads_unique hw hr (head_eq_some hr')]

/-- What is looked for behind the heads at a place is looked for behind the first one. -/
theorem findSome?_heads {names : List String} (hw : Wordy names) (prev : Option Char)
    (text : List Char) (f : List Char → Option (List Char)) :
    (heads names prev text).findSome? f = (head names prev text).bind f := by
  cases hr : head names prev text with
  | none =>
    have hnil : heads names prev text = [] := List.head?_eq_none_iff.1 hr
    rw [hnil]
    rfl
  | some r =>
    have hmem := head_eq_some hr
    exact findSome?_eq_of_forall hmem (fun t ht => Removal.heads_unique hw ht hmem) f

/-- A second head starts behind the first one. -/
theorem length_le_of_mem_heads {names : List String} (hw : Wordy names) {prev : Option Char}
    {x text r t : List Char} (hx : x ≠ []) (h : r ∈ heads names prev (x ++ text))
    (ht : t ∈ heads names (behind prev x) text) : text.length ≤ r.length := by
  by_contra hlen
  have hcount := tally_headText hw h
  obtain ⟨-, name, -, -, b₁, b₂, b₃, -, -, -, e⟩ := mem_heads_iff.1 h
  obtain ⟨v, rfl⟩ : r <:+ text :=
    List.suffix_of_suffix_length_le ⟨_, e.symm⟩ ⟨x, rfl⟩ (by omega)
  have hv : v ≠ [] := by
    rintro rfl
    simp at hlen
  -- The second head would be one more in the text than `tally_headText` allows.
  have hlast : ∀ p, behind p v = some '(' := by
    have hxv : behind prev (x ++ v) = some '(' := by
      rw [List.append_cancel_right ((List.append_assoc x v r).trans e), behind_headText]
    rw [behind_append] at hxv
    intro p
    cases v with
    | nil => contradiction
    | cons d v => exact hxv
  cases x with
  | nil => contradiction
  | cons c x =>
    have hsome := head_isSome_iff.2 ⟨r, h⟩
    have hmore := tally_append_ge names (some c) x (v ++ r)
    rw [List.cons_append] at hcount hsome
    rw [tally, if_pos hsome] at hcount
    cases v with
    | nil => contradiction
    | cons d v =>
      have hsecond := head_isSome_iff.2 ⟨t, ht⟩
      have htail := tally_append_ge names (some d) v r
      rw [behind_cons] at hsecond
      rw [List.cons_append] at hsecond hmore hcount
      rw [tally, if_pos hsecond] at hmore
      have hv' : behind (some d) v = some '(' := hlast none
      rw [hv'] at htail
      omega

end ConsoleSweep.Call

namespace ConsoleSweep.Removal

open ConsoleSweep.Text ConsoleSweep.Call

/-- A pass that looks for a call with an indent finds the one behind the indent. -/
theorem findSome?_indentedHeads {names : List String} (hw : Wordy names) {prev : Option Char}
    {ind text r : List Char} (hi : ∀ c ∈ ind, isIndent c = true)
    (hr : r ∈ heads names (behind prev ind) text) (f : List Char → Option (List Char)) :
    (indentedHeads names prev (ind ++ text)).findSome? f = f r := by
  obtain ⟨cs, rfl⟩ := exists_cons_of_mem_heads hr
  have hskip : skipIndent (ind ++ 'c' :: cs) = 'c' :: cs := by
    rw [skipIndent_append hi, skipIndent_cons_of_not (by decide)]
  have htake : (ind ++ 'c' :: cs).takeWhile isIndent = ind := by
    have hsplit := skipIndent_split (ind ++ 'c' :: cs)
    rw [hskip] at hsplit
    exact List.append_cancel_right hsplit
  have hword : startsWord (beforeIndented prev (ind ++ 'c' :: cs)) = true := by
    rw [startsWord_beforeIndented, htake]
    exact (mem_heads_iff.1 hr).1
  have hmem := mem_heads_iff.2 ⟨hword, (mem_heads_iff.1 hr).2⟩
  unfold indentedHeads
  rw [hskip, findSome?_heads hw, (head_eq_some_iff hw).2 hmem]
  rfl

/-- What a pass that looks for a call with an indent finds starts behind the indent. -/
theorem mem_heads_behind_indent {names : List String} {prev : Option Char} {text r : List Char}
    (h : r ∈ indentedHeads names prev text) :
    r ∈ heads names (behind prev (text.takeWhile isIndent)) (skipIndent text) := by
  obtain ⟨hword, hrest⟩ := mem_heads_iff.1 h
  rw [startsWord_beforeIndented] at hword
  exact mem_heads_iff.2 ⟨hword, hrest⟩

/-- A text that does not end with an indent is not an indent, from no place on. -/
theorem skipIndent_ne_nil {q u v : List Char} {c : Char} (hi : isIndent c = false)
    (e : q ++ [c] = u ++ v) (hv : v ≠ []) : skipIndent v ≠ [] := by
  rcases List.eq_nil_or_concat' v with rfl | ⟨w, d, rfl⟩
  · contradiction
  · rw [← List.append_assoc] at e
    have hd := List.singleton_inj.1 (List.append_inj' e rfl).2
    intro hnil
    have hsplit := skipIndent_split (w ++ [d])
    rw [hnil, List.append_nil] at hsplit
    have hindent := isIndent_takeWhile (w ++ [d]) d (by rw [hsplit]; simp)
    rw [← hd, hi] at hindent
    cases hindent

theorem skipIndent_append_of_ne_nil {v : List Char} (h : skipIndent v ≠ []) (z : List Char) :
    skipIndent (v ++ z) = skipIndent v ++ z := by
  have hlong : ¬ (v.dropWhile isIndent).isEmpty = true := fun hnil => h (List.isEmpty_iff.1 hnil)
  unfold skipIndent
  rw [List.dropWhile_append, if_neg hlong]

/-- A word may start behind the indent of a line. -/
theorem startsWord_behind_line {prev : Option Char} (hp : startsLine prev = true) {ind : List Char}
    (hi : ∀ c ∈ ind, isIndent c = true) : startsWord (behind prev ind) = true := by
  by_cases hnil : ind = []
  · rw [hnil, behind_nil]
    cases prev with
    | none => rfl
    | some c =>
      obtain rfl : c = '\n' := by simpa [startsLine] using hp
      decide
  · exact startsWord_behind_indent prev ind hi hnil

/-- No pass that looks for a call with an indent finds one in a text that does not hold the keyword,
and ends with a character that is neither an indent nor in the keyword. -/
theorem indentedHeads_eq_nil {names : List String} {prev : Option Char} {q u v z : List Char}
    {c : Char} (hc : c ∉ keyword) (hi : isIndent c = false)
    (hfree : holds keyword (q ++ [c]) = false) (e : q ++ [c] = u ++ v) (hv : v ≠ []) :
    indentedHeads names prev (v ++ z) = [] := by
  have hne := skipIndent_ne_nil hi e hv
  rw [← skipIndent_split v, ← List.append_assoc] at e
  rw [List.eq_nil_iff_forall_not_mem]
  intro r hr
  have hprefix := isPrefix_of_mem_heads hr
  rw [skipIndent_append_of_ne_nil hne] at hprefix
  exact not_isPrefix_append hc hfree e hne hprefix

theorem hits_append_of_free {names : List String} {m : Matcher}
    (hm : ∀ prev text, indentedHeads names prev text = [] → m prev text = none) {q : List Char}
    {c : Char} (hc : c ∉ keyword) (hi : isIndent c = false)
    (hfree : holds keyword (q ++ [c]) = false) (prev : Option Char) (z : List Char) :
    hits m prev (q ++ [c] ++ z) = hits m (behind prev (q ++ [c])) z :=
  hits_append_of_none fun _ _ e hv => hm _ _ (indentedHeads_eq_nil hc hi hfree e hv)

theorem singleLine_eq_none {names : List String} {prev : Option Char} {text : List Char}
    (h : startsLine prev = true → indentedHeads names prev text = []) :
    singleLine names prev text = none := by
  unfold singleLine
  split
  · next hp => rw [h hp, List.findSome?_nil]
  · rfl

theorem nestedStatement_eq_none {names : List String} {prev : Option Char} {text : List Char}
    (h : startsLine prev = true → indentedHeads names prev text = []) :
    nestedStatement names prev text = none := by
  unfold nestedStatement
  split
  · next hp => rw [h hp, List.findSome?_nil]
  · rfl

theorem inlineCall_eq_none {names : List String} {prev : Option Char} {text : List Char}
    (h : indentedHeads names prev text = []) : inlineCall names prev text = none := by
  unfold inlineCall
  rw [h, List.findSome?_nil]

/-! ## The end of a removal -/

theorem settle_succ_of_eq {step : List Char → List Char} {text : List Char}
    (h : step (step text) = step text) (limit : Nat) :
    settle step (limit + 1) text = step text := by
  rw [settle]
  split
  · next e => exact e.symm
  · exact settle_of_eq h limit

/-- Once the first three passes have taken the last keyword, the removal is done. -/
theorem swept_eq_of_free {methods : List String} {text left : List Char}
    (h : removeInlineOnce (normalizeNames methods) (removeNested (normalizeNames methods)
      (removeSingle (normalizeNames methods) text)) = left)
    (hfree : holds keyword left = false) : swept methods text = left := by
  have hcall : ¬ HoldsCall (normalizeNames methods) none left := not_holdsCall_of_free hfree
  obtain ⟨hsingle, hnested, hinline, hcommented, hblocks⟩ := passes_eq_self_of_no_call hcall
  have hround : round (normalizeNames methods) text = left := by
    unfold round removeInline inlineLimit
    rw [settle_succ_of_eq (by rw [h]; exact hinline), h, hcommented, hblocks]
  have hrest : round (normalizeNames methods) left = left :=
    (round_eq_self_iff _ _).2 ⟨hsingle, hnested, hinline, hcommented, hblocks⟩
  unfold swept roundLimit
  rw [settle_succ_of_eq (by rw [hround]; exact hrest), hround]

end ConsoleSweep.Removal
