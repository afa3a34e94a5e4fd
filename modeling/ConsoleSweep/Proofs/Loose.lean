/-
  Texts that differ in their blank lines only.

  `Loose s t` says that between two line breaks of `s`, or after the last one, whitespace
  stands where other whitespace stands in `t`, and that all else is the same. A reading
  that starts outside of such whitespace cannot tell the two texts apart: what it leaves
  behind is again loose (`Respects`), and the part it took is too, which is why the rests
  are related by `Upto`, the way from a text to its rest.

  A search that never stops at a blank line therefore lists matches that correspond one to
  one (`forall₂_hits`).
-/
import ConsoleSweep.Proofs.Comments
import ConsoleSweep.Proofs.Heads

namespace ConsoleSweep.Text

/-! ## The relation -/

/-- Two texts that differ in their blank lines only. -/
inductive Loose : List Char → List Char → Prop where
  | nil : Loose [] []
  | keep (c : Char) {s t : List Char} : Loose s t → Loose (c :: s) (c :: t)
  | lines {u v s t : List Char} : Blank u → Blank v → Loose ('\n' :: s) ('\n' :: t) →
      Loose ('\n' :: (u ++ '\n' :: s)) ('\n' :: (v ++ '\n' :: t))
  | tail {u v : List Char} : Blank u → Blank v → Loose ('\n' :: u) ('\n' :: v)

/-- Two texts that differ in their blank lines only and have the rests `z` and `z'`. -/
inductive Upto (z z' : List Char) : List Char → List Char → Prop where
  | done : Loose z z' → Upto z z' z z'
  | keep (c : Char) {s t : List Char} : Upto z z' s t → Upto z z' (c :: s) (c :: t)
  | lines {u v s t : List Char} : Blank u → Blank v → Upto z z' ('\n' :: s) ('\n' :: t) →
      Upto z z' ('\n' :: (u ++ '\n' :: s)) ('\n' :: (v ++ '\n' :: t))
  | tail {u v : List Char} : Blank u → Blank v → z = [] → z' = [] →
      Upto z z' ('\n' :: u) ('\n' :: v)

variable {s t z z' : List Char}

theorem Loose.refl (s : List Char) : Loose s s := by
  induction s with
  | nil => exact .nil
  | cons c cs ih => exact .keep c ih

theorem Loose.symm (h : Loose s t) : Loose t s := by
  induction h with
  | nil => exact .nil
  | keep c _ ih => exact .keep c ih
  | lines hu hv _ ih => exact .lines hv hu ih
  | tail hu hv => exact .tail hv hu

theorem Loose.nil_iff (h : Loose s t) : s = [] ↔ t = [] := by
  cases h <;> simp

/-- Characters other than line breaks are the same in both texts. -/
theorem Loose.cons_inv {c : Char} (h : Loose (c :: s) t) (hc : c ≠ '\n') :
    ∃ t', t = c :: t' ∧ Loose s t' := by
  cases h with
  | keep _ h => exact ⟨_, rfl, h⟩
  | lines => contradiction
  | tail => contradiction

theorem Loose.append_inv {w : List Char} (h : Loose (w ++ s) t) (hw : '\n' ∉ w) :
    ∃ t', t = w ++ t' ∧ Loose s t' := by
  induction w generalizing t with
  | nil => exact ⟨t, rfl, h⟩
  | cons c w ih =>
    rw [List.mem_cons, not_or] at hw
    obtain ⟨t', rfl, h'⟩ := h.cons_inv (Ne.symm hw.1)
    obtain ⟨t'', rfl, h''⟩ := ih h' hw.2
    exact ⟨t'', rfl, h''⟩

theorem Loose.break_inv (h : Loose ('\n' :: s) t) : ∃ t', t = '\n' :: t' := by
  cases h with
  | keep _ _ => exact ⟨_, rfl⟩
  | lines _ _ _ => exact ⟨_, rfl⟩
  | tail _ _ => exact ⟨_, rfl⟩

theorem Upto.rest (h : Upto z z' s t) : Loose z z' := by
  induction h with
  | done h => exact h
  | keep _ _ ih => exact ih
  | lines _ _ _ ih => exact ih
  | tail _ _ hz hz' => rw [hz, hz']; exact .nil

theorem Upto.loose (h : Upto z z' s t) : Loose s t := by
  induction h with
  | done h => exact h
  | keep c _ ih => exact .keep c ih
  | lines hu hv _ ih => exact .lines hu hv ih
  | tail hu hv => exact .tail hu hv

theorem Upto.trans {w w' : List Char} (h : Upto w w' s t) (h' : Upto z z' w w') :
    Upto z z' s t := by
  induction h with
  | done _ => exact h'
  | keep c _ ih => exact .keep c ih
  | lines hu hv _ ih => exact .lines hu hv ih
  | tail hu hv hw hw' =>
    subst hw hw'
    cases h' with
    | done _ => exact .tail hu hv rfl rfl

theorem Upto.append (w : List Char) (h : Upto z z' s t) : Upto z z' (w ++ s) (w ++ t) := by
  induction w with
  | nil => exact h
  | cons c w ih => exact .keep c ih

/-- What was read on the way to the rests differs in blank lines only. -/
theorem Upto.split (h : Upto z z' s t) :
    ∃ y y', s = y ++ z ∧ t = y' ++ z' ∧ Loose y y' := by
  induction h with
  | done _ => exact ⟨[], [], rfl, rfl, .nil⟩
  | keep c _ ih =>
    obtain ⟨y, y', rfl, rfl, hy⟩ := ih
    exact ⟨c :: y, c :: y', rfl, rfl, .keep c hy⟩
  | @lines u v s t hu hv _ ih =>
    obtain ⟨y, y', e, e', hy⟩ := ih
    refine ⟨'\n' :: (u ++ y), '\n' :: (v ++ y'), by simp [e], by simp [e'], ?_⟩
    cases y with
    | nil =>
      rw [hy.nil_iff.1 rfl, List.append_nil, List.append_nil]
      exact .tail hu hv
    | cons c y =>
      obtain ⟨rfl, -⟩ := List.cons.inj e
      obtain ⟨y'', rfl⟩ := hy.break_inv
      exact .lines hu hv hy
  | @tail u v hu hv hz hz' =>
    exact ⟨'\n' :: u, '\n' :: v, by simp [hz], by simp [hz'], .tail hu hv⟩

theorem Upto.part {here here' rest rest' : List Char} (h : Upto rest rest' here here') :
    Loose (Hit.part ⟨here, rest⟩) (Hit.part ⟨here', rest'⟩) := by
  obtain ⟨y, y', rfl, rfl, hy⟩ := h.split
  rw [Hit.part_mk, Hit.part_mk]
  exact hy

/-! ## Needles -/

theorem isPrefixOf_of_loose {needle : List Char} (hn : '\n' ∉ needle) (h : Loose s t)
    (hp : needle.isPrefixOf s = true) : needle.isPrefixOf t = true := by
  obtain ⟨z, rfl⟩ := List.isPrefixOf_iff_prefix.1 hp
  obtain ⟨z', rfl, -⟩ := h.append_inv hn
  exact List.isPrefixOf_iff_prefix.2 ⟨z', rfl⟩

theorem blank_break {u : List Char} (hu : Blank u) : Blank ('\n' :: u) :=
  blank_cons.2 ⟨by decide, hu⟩

/-- A needle without whitespace does not start in a stretch of whitespace. -/
theorem holds_blank {needle u : List Char} {c : Char} (hc : isBlank c = false) (hu : Blank u) :
    holds (c :: needle) (u ++ s) = holds (c :: needle) s := by
  induction u with
  | nil => rfl
  | cons d u ih =>
    rw [blank_cons] at hu
    have hd : c ≠ d := by
      rintro rfl
      rw [hu.1] at hc
      simp at hc
    rw [List.cons_append, holds, ih hu.2]
    simp [hd]

theorem holds_of_loose {needle : List Char} {c : Char} (hc : isBlank c = false)
    (hn : '\n' ∉ c :: needle) (h : Loose s t) (hs : holds (c :: needle) s = true) :
    holds (c :: needle) t = true := by
  induction h with
  | nil => exact hs
  | keep d h ih =>
    rw [holds, Bool.or_eq_true] at hs ⊢
    rcases hs with hp | hs
    · exact .inl (isPrefixOf_of_loose hn (.keep d h) hp)
    · exact .inr (ih hs)
  | lines hu hv _ ih =>
    rw [← List.cons_append, holds_blank hc (blank_break hu)] at hs
    rw [← List.cons_append, holds_blank hc (blank_break hv)]
    exact ih hs
  | @tail u v hu _ =>
    have : holds (c :: needle) ('\n' :: u ++ []) = holds (c :: needle) [] :=
      holds_blank hc (blank_break hu)
    rw [List.append_nil] at this
    rw [this] at hs
    simp [holds] at hs

theorem holds_eq_of_loose {needle : List Char} {c : Char} (hc : isBlank c = false)
    (hn : '\n' ∉ c :: needle) (h : Loose s t) :
    holds (c :: needle) s = holds (c :: needle) t :=
  Bool.eq_iff_iff.2 ⟨holds_of_loose hc hn h, holds_of_loose hc hn h.symm⟩

/-! ## Readings -/

/-- A reading that cannot tell loose texts apart: where it succeeds on one, it does so on the
other and leaves rests of both. As the relation is symmetric, it also fails on both. -/
def Respects (f : List Char → Option (List Char)) : Prop :=
  ∀ s t z, Loose s t → f s = some z → ∃ z', f t = some z' ∧ Upto z z' s t

theorem Respects.rel {f : List Char → Option (List Char)} (h : Respects f) (hst : Loose s t) :
    Option.Rel (fun z z' => Upto z z' s t) (f s) (f t) := by
  cases hs : f s with
  | some z =>
    obtain ⟨z', ht, hz⟩ := h s t z hst hs
    rw [ht]
    exact .some hz
  | none =>
    cases ht : f t with
    | none => exact .none
    | some z' =>
      obtain ⟨z, hs', -⟩ := h t s z' hst.symm ht
      rw [hs] at hs'
      simp at hs'

theorem rel_imp {R S : List Char → List Char → Prop} {a b : Option (List Char)}
    (h : Option.Rel R a b) (hRS : ∀ z z', R z z' → S z z') : Option.Rel S a b := by
  cases h with
  | none => exact .none
  | some hr => exact .some (hRS _ _ hr)

theorem Respects.bind {f g : List Char → Option (List Char)} (hf : Respects f)
    (hg : Respects g) : Respects (fun s => (f s).bind g) := by
  intro s t z hst h
  obtain ⟨w, hs, hw⟩ := Option.bind_eq_some_iff.1 h
  obtain ⟨w', ht, hww⟩ := hf s t w hst hs
  obtain ⟨z', hz', hzz⟩ := hg w w' z hww.rest hw
  exact ⟨z', by simp only [ht, Option.bind_some, hz'], hww.trans hzz⟩

theorem respects_some {g : List Char → List Char} (h : ∀ s t, Loose s t → Upto (g s) (g t) s t) :
    Respects (fun s => some (g s)) := by
  intro s t z hst hs
  obtain rfl := Option.some.inj hs
  exact ⟨g t, rfl, h s t hst⟩

/-- What follows the text `w`. -/
theorem respects_isPrefixOf? {w : List Char} (hw : '\n' ∉ w) :
    Respects (w.isPrefixOf? ·) := by
  intro s t z hst hs
  rw [List.isPrefixOf?_eq_some_iff_append_eq] at hs
  subst hs
  obtain ⟨z', rfl, hz⟩ := hst.append_inv hw
  exact ⟨z', List.isPrefixOf?_eq_some_iff_append_eq.2 rfl, .append w (.done hz)⟩

theorem upto_skipBlank (h : Loose s t) : Upto (skipBlank s) (skipBlank t) s t := by
  have all : ∀ {u : List Char}, Blank u → skipBlank u = [] := by
    intro u hu
    have := skipBlank_append hu []
    rwa [List.append_nil] at this
  induction h with
  | nil => exact .done .nil
  | keep c h ih =>
    by_cases hc : isBlank c = true
    · have e : ∀ r, skipBlank (c :: r) = skipBlank r := by intro r; simp [skipBlank, hc]
      rw [e, e]
      exact .keep c ih
    · rw [Bool.not_eq_true] at hc
      rw [skipBlank_cons_of_not hc, skipBlank_cons_of_not hc]
      exact .done (.keep c h)
  | lines hu hv h ih =>
    rw [← List.cons_append, ← List.cons_append, skipBlank_append (blank_break hu),
      skipBlank_append (blank_break hv)]
    exact .lines hu hv ih
  | tail hu hv => exact .tail hu hv (all (blank_break hu)) (all (blank_break hv))

theorem upto_dropWhile {p : Char → Bool} (hp : p '\n' = false) (h : Loose s t) :
    Upto (s.dropWhile p) (t.dropWhile p) s t := by
  induction h with
  | nil => exact .done .nil
  | keep c h ih =>
    by_cases hc : p c = true
    · rw [List.dropWhile_cons_of_pos hc, List.dropWhile_cons_of_pos hc]
      exact .keep c ih
    · rw [List.dropWhile_cons_of_neg hc, List.dropWhile_cons_of_neg hc]
      exact .done (.keep c h)
  | lines hu hv h _ =>
    rw [List.dropWhile_cons_of_neg (by simp [hp]), List.dropWhile_cons_of_neg (by simp [hp])]
    exact .done (.lines hu hv h)
  | tail hu hv =>
    rw [List.dropWhile_cons_of_neg (by simp [hp]), List.dropWhile_cons_of_neg (by simp [hp])]
    exact .done (.tail hu hv)

theorem upto_skipIndent (h : Loose s t) : Upto (skipIndent s) (skipIndent t) s t :=
  upto_dropWhile (by decide) h

/-! ## Searches -/

/-- Something other than whitespace stands on the first line of the text, behind its indent. -/
def Visible (text : List Char) : Prop :=
  ∃ c cs, skipIndent text = c :: cs ∧ isBlank c = false

/-- The matcher finds nothing on a blank line. -/
def Silent (m : Matcher) : Prop :=
  ∀ prev text rest, m prev text = some rest → Visible text

theorem isBlank_of_isIndent {c : Char} (h : isIndent c = true) : isBlank c = true := by
  simp only [isIndent, Bool.or_eq_true, beq_iff_eq] at h
  rcases h with rfl | rfl <;> decide

/-- Whitespace that is followed by whitespace other than indent. -/
theorem not_visible_append {u : List Char} (hu : Blank u) {d : Char} (hd : isBlank d = true)
    (hi : isIndent d = false) (s : List Char) : ¬ Visible (u ++ d :: s) := by
  rintro ⟨c, cs, e, hc⟩
  induction u with
  | nil =>
    have : skipIndent (d :: s) = d :: s := by simp [skipIndent, hi]
    rw [List.nil_append, this] at e
    rw [← (List.cons.inj e).1, hd] at hc
    simp at hc
  | cons b u ih =>
    rw [blank_cons] at hu
    by_cases hb : isIndent b = true
    · exact ih hu.2 (by rw [← e]; simp [skipIndent, hb])
    · have : skipIndent (b :: u ++ d :: s) = b :: (u ++ d :: s) := by simp [skipIndent, hb]
      rw [this] at e
      rw [← (List.cons.inj e).1, hu.1] at hc
      simp at hc

theorem not_visible_break {u : List Char} (hu : Blank u) (s : List Char) :
    ¬ Visible (u ++ '\n' :: s) :=
  not_visible_append hu (by decide) (by decide) s

theorem not_visible_blank {u : List Char} (hu : Blank u) : ¬ Visible u := by
  rintro ⟨c, cs, e, hc⟩
  have hmem : c ∈ u := by
    have : c ∈ skipIndent u := by rw [e]; exact List.mem_cons_self
    exact (List.dropWhile_suffix _).subset this
  rw [hu c hmem] at hc
  simp at hc

theorem Silent.eq_none {m : Matcher} (h : Silent m) {prev : Option Char} {text : List Char}
    (hv : ¬ Visible text) : m prev text = none := by
  cases hm : m prev text with
  | none => rfl
  | some z => exact absurd (h prev text z hm) hv

/-- A search passes over whitespace up to a line break. -/
theorem hits_break {m : Matcher} (hm : Silent m) {u : List Char} (hu : Blank u)
    (p q : Option Char) (s : List Char) :
    hits m p (u ++ '\n' :: s) = hits m q ('\n' :: s) := by
  induction u generalizing p with
  | nil =>
    have hn : ∀ r, m r ('\n' :: s) = none := fun r => hm.eq_none (not_visible_break blank_nil s)
    rw [List.nil_append, hits_of_none (hn p), hits_of_none (hn q)]
  | cons d u ih =>
    have hn : m p (d :: u ++ '\n' :: s) = none := hm.eq_none (not_visible_break hu s)
    rw [List.cons_append] at hn ⊢
    rw [hits_of_none hn]
    exact ih (blank_cons.1 hu).2 (some d)

theorem hits_blank {m : Matcher} (hm : Silent m) {u : List Char} (hu : Blank u)
    (p : Option Char) : hits m p u = [] := by
  induction u generalizing p with
  | nil => rfl
  | cons d u ih =>
    rw [hits_of_none (hm.eq_none (not_visible_blank hu))]
    exact ih (blank_cons.1 hu).2 (some d)

/-- A search finds something in a text if and only if it does so in a loose one, if its matcher
cannot tell the two apart. -/
theorem hits_eq_nil_of_loose {m : Matcher} (adv : Advances m) (hm : Silent m)
    (same : ∀ p s t, Loose s t → (m p s = none ↔ m p t = none)) (p : Option Char)
    (h : Loose s t) : hits m p s = [] ↔ hits m p t = [] := by
  induction h generalizing p with
  | nil => rfl
  | keep c h ih =>
    rw [hits_cons_eq_nil adv, hits_cons_eq_nil adv, same p _ _ (.keep c h), ih (some c)]
  | lines hu hv _ ih =>
    rw [← List.cons_append, ← List.cons_append, hits_break hm (blank_break hu) p p,
      hits_break hm (blank_break hv) p p]
    exact ih p
  | tail hu hv => rw [hits_blank hm (blank_break hu), hits_blank hm (blank_break hv)]

/-- Two matches that correspond: what they leave are rests of loose texts. -/
def Hit.Corresponds (g g' : Hit) : Prop :=
  Upto g.rest g'.rest g.here g'.here

/-- In loose texts a search lists matches that correspond one to one. `E` is what the matcher
sees of the character before a place. -/
theorem forall₂_hits {m : Matcher} {E : Option Char → Option Char → Prop} (adv : Advances m)
    (hm : Silent m) (refl : ∀ p, E p p)
    (same : ∀ p q s t, E p q → Loose s t →
      Option.Rel (fun z z' => Upto z z' s t) (m p s) (m q t))
    (after : ∀ p q y y' z z', m p (y ++ z) = some z → m q (y' ++ z') = some z' → z ≠ [] →
      z' ≠ [] → E (behind p y) (behind q y'))
    {s t : List Char} (p q : Option Char) (hpq : E p q) (h : Loose s t) :
    List.Forall₂ Hit.Corresponds (hits m p s) (hits m q t) := by
  match h with
  | .nil => exact .nil
  | .keep (s := s) (t := t) c h =>
    have hrel := same p q _ _ hpq (.keep c h)
    cases hs : m p (c :: s) with
    | none =>
      cases ht : m q (c :: t) with
      | some z' => rw [hs, ht] at hrel; cases hrel
      | none =>
        rw [hits_of_none hs, hits_of_none ht]
        exact forall₂_hits adv hm refl same after (some c) (some c) (refl _) h
    | some z =>
      cases ht : m q (c :: t) with
      | none => rw [hs, ht] at hrel; cases hrel
      | some z' =>
        rw [hs, ht] at hrel
        obtain ⟨hz⟩ := hrel
        obtain ⟨y, hy, es⟩ := adv p _ z hs
        obtain ⟨y', hy', et⟩ := adv q _ z' ht
        have hlt : z.length < s.length + 1 := by
          have := List.length_pos_iff.2 hy
          rw [← List.length_cons (a := c), es, List.length_append]; omega
        rw [es, et] at hz
        rw [es] at hs ⊢
        rw [et] at ht ⊢
        rw [hits_of_match hy hs, hits_of_match hy' ht]
        refine .cons hz ?_
        by_cases hnil : z = []
        · rw [hz.rest.nil_iff.1 hnil, hnil]
          exact .nil
        · have hnil' : z' ≠ [] := fun e => hnil (hz.rest.nil_iff.2 e)
          exact forall₂_hits adv hm refl same after _ _ (after p q y y' z z' hs ht hnil hnil')
            hz.rest
  | .lines (u := u) (v := v) (s := s) hu hv h =>
    have hlt : ('\n' :: s).length < ('\n' :: (u ++ '\n' :: s)).length := by
      simp only [List.length_cons, List.length_append]; omega
    rw [← List.cons_append, ← List.cons_append, hits_break hm (blank_break hu) p p,
      hits_break hm (blank_break hv) q p]
    exact forall₂_hits adv hm refl same after p p (refl p) h
  | .tail hu hv =>
    rw [hits_blank hm (blank_break hu), hits_blank hm (blank_break hv)]
    exact .nil
termination_by s.length

end ConsoleSweep.Text
