/-
  The passes on texts that differ in their blank lines only.

  Each reading that the patterns are made of respects loose texts, as long as no method
  name has a line break in it: heads of calls (`forall₂_heads`), comments and quoted
  strings (`rel_token`), and the ways for a call to end. Searches for heads, inline calls
  and comments therefore correspond match by match; for the passes on whole lines it is
  enough to know that they find something in both texts or in neither.

  The outcome is `round_eq_self_of_loose`: a round changes both texts or neither.
-/
import ConsoleSweep.Proofs.Loose
import ConsoleSweep.Proofs.Removal.Passes

namespace ConsoleSweep.Call

open ConsoleSweep.Text

/-! ## Heads -/

/-- What follows the character `c`. -/
def afterChar (c : Char) : List Char → Option (List Char)
  | [] => none
  | d :: rest => if d = c then some rest else none

theorem respects_afterChar {c : Char} (hc : c ≠ '\n') : Respects (afterChar c) := by
  intro s t z hst h
  cases s with
  | nil => simp [afterChar] at h
  | cons d s =>
    simp only [afterChar] at h
    split at h
    · next hd =>
      obtain rfl := Option.some.inj h
      obtain ⟨t', rfl, ht⟩ := hst.cons_inv (hd ▸ hc)
      exact ⟨t', by simp [afterChar, hd], .keep d (.done ht)⟩
    · simp at h

theorem openParen_eq (text : List Char) :
    openParen text = (some (skipBlank text)).bind (afterChar '(') := by
  unfold openParen
  rw [Option.bind_some]
  split
  · next rest h => rw [h]; rfl
  · next h =>
    cases hs : skipBlank text with
    | nil => rfl
    | cons c cs =>
      have hc : c ≠ '(' := by
        rintro rfl
        exact h cs hs
      simp [afterChar, hc]

theorem afterPoint_eq (text : List Char) :
    afterPoint text = (((keyword.isPrefixOf? text).bind fun s => some (skipBlank s)).bind
      (afterChar '.')).bind fun s => some (skipBlank s) := by
  unfold afterPoint
  cases keyword.isPrefixOf? text with
  | none => rfl
  | some s =>
    simp only [Option.map_some, Option.bind_some]
    split
    · next rest h => rw [Option.some.inj h]; rfl
    · next h =>
      cases hs : skipBlank s with
      | nil => rfl
      | cons c cs =>
        have hc : c ≠ '.' := by
          rintro rfl
          exact h cs (by rw [hs])
        simp [afterChar, hc]

theorem respects_skipBlank : Respects fun s => some (skipBlank s) :=
  respects_some fun _ _ h => upto_skipBlank h

theorem respects_openParen : Respects openParen := by
  have : openParen = fun s => (some (skipBlank s)).bind (afterChar '(') := funext openParen_eq
  rw [this]
  exact respects_skipBlank.bind (respects_afterChar (by decide))

theorem respects_afterPoint : Respects afterPoint := by
  have : afterPoint = fun text => (((keyword.isPrefixOf? text).bind fun s =>
      some (skipBlank s)).bind (afterChar '.')).bind fun s => some (skipBlank s) :=
    funext afterPoint_eq
  rw [this]
  exact (((respects_isPrefixOf? (by decide)).bind respects_skipBlank).bind
    (respects_afterChar (by decide))).bind respects_skipBlank

/-- No name has a line break in it. -/
def OneLine (names : List String) : Prop :=
  ∀ name ∈ names, '\n' ∉ name.toList

theorem respects_afterName {name : String} (hn : '\n' ∉ name.toList) :
    Respects (afterName · name) :=
  (respects_isPrefixOf? hn).bind respects_openParen

theorem forall₂_filterMap {R : List Char → List Char → Prop} {f g : String → Option (List Char)}
    {names : List String} (h : ∀ name ∈ names, Option.Rel R (f name) (g name)) :
    List.Forall₂ R (names.filterMap f) (names.filterMap g) := by
  induction names with
  | nil => exact .nil
  | cons name names ih =>
    have hrel := h name List.mem_cons_self
    have hrest := ih fun n hn => h n (List.mem_cons_of_mem name hn)
    rw [List.filterMap_cons, List.filterMap_cons]
    generalize f name = a at hrel
    generalize g name = b at hrel
    cases hrel with
    | none => exact hrest
    | some hr => exact .cons hr hrest

theorem forall₂_heads {names : List String} (hn : OneLine names) {p q : Option Char}
    (hpq : startsWord p = startsWord q) {s t : List Char} (h : Loose s t) :
    List.Forall₂ (fun z z' => Upto z z' s t) (heads names p s) (heads names q t) := by
  unfold heads
  rw [hpq]
  split
  · have hrel := respects_afterPoint.rel h
    generalize afterPoint s = a at hrel
    generalize afterPoint t = b at hrel
    cases hrel with
    | none => exact .nil
    | some hr =>
      refine forall₂_filterMap fun name hname => ?_
      exact rel_imp ((respects_afterName (hn name hname)).rel hr.rest) fun _ _ hz => hr.trans hz
  · exact .nil

theorem rel_head? {R : List Char → List Char → Prop} {l l' : List (List Char)}
    (h : List.Forall₂ R l l') : Option.Rel R l.head? l'.head? := by
  cases h with
  | nil => exact .none
  | cons hr _ => exact .some hr

theorem rel_findSome? {R S : List Char → List Char → Prop} {l l' : List (List Char)}
    {f : List Char → Option (List Char)} (h : List.Forall₂ R l l')
    (hf : ∀ z z', R z z' → Option.Rel S (f z) (f z')) :
    Option.Rel S (l.findSome? f) (l'.findSome? f) := by
  induction h with
  | nil => exact .none
  | @cons a b _ _ hr _ ih =>
    have hrel := hf _ _ hr
    rw [List.findSome?_cons, List.findSome?_cons]
    generalize f a = x at hrel
    generalize f b = y at hrel
    cases hrel with
    | none => exact ih
    | some hs => exact .some hs

theorem visible_of_mem_heads {names : List String} {prev : Option Char} {text r : List Char}
    (h : r ∈ heads names prev (skipIndent text)) : Visible text := by
  obtain ⟨-, name, -, -, b₁, b₂, b₃, -, -, -, e⟩ := mem_heads_iff.1 h
  exact ⟨'c', _, by rw [e]; rfl, by decide⟩

theorem silent_head (names : List String) : Silent (head names) := by
  intro prev text rest h
  obtain ⟨-, name, -, -, b₁, b₂, b₃, -, -, -, e⟩ := mem_heads_iff.1 (head_eq_some h)
  exact ⟨'c', _, by rw [e]; rfl, by decide⟩

/-- Loose texts have corresponding heads. -/
theorem forall₂_hits_head {names : List String} (hn : OneLine names) {s t : List Char}
    (h : Loose s t) (p : Option Char) :
    List.Forall₂ Hit.Corresponds (hits (head names) p s) (hits (head names) p t) := by
  refine forall₂_hits (E := fun p q => startsWord p = startsWord q) (advances_head names)
    (silent_head names) (fun _ => rfl) ?_ ?_ p p rfl h
  · intro p q s t hpq h
    exact rel_head? (forall₂_heads hn hpq h)
  · intro p q y y' z z' hm hm' _ _
    have paren : ∀ {p : Option Char} {y z : List Char}, head names p (y ++ z) = some z →
        behind p y = some '(' := by
      intro p y z hm
      obtain ⟨-, name, -, -, b₁, b₂, b₃, -, -, -, e⟩ := mem_heads_iff.1 (head_eq_some hm)
      rw [List.append_cancel_right e, behind_headText]
    rw [paren hm, paren hm']

end ConsoleSweep.Call

namespace ConsoleSweep.Comment

open ConsoleSweep.Text

/-! ## Comments -/

theorem afterBlock_cons {c : Char} {s : List Char} (h : ¬ (c = '*' ∧ ∃ r, s = '/' :: r)) :
    afterBlock (c :: s) = afterBlock s := by
  rw [afterBlock]
  rintro r rfl rfl
  exact h ⟨rfl, r, rfl⟩

theorem afterBlock_blank {u : List Char} (hu : Blank u) (s : List Char) :
    afterBlock (u ++ s) = afterBlock s := by
  induction u with
  | nil => rfl
  | cons c u ih =>
    rw [blank_cons] at hu
    have hc : ¬ (c = '*' ∧ ∃ r, u ++ s = '/' :: r) := by
      rintro ⟨rfl, -⟩
      exact absurd hu.1 (by decide)
    rw [List.cons_append, afterBlock_cons hc, ih hu.2]

theorem upto_afterBlock {s t : List Char} (h : Loose s t) :
    Upto (afterBlock s) (afterBlock t) s t := by
  have all : ∀ {u : List Char}, Blank u → afterBlock u = [] := by
    intro u hu
    have := afterBlock_blank hu []
    rwa [List.append_nil] at this
  induction h with
  | nil => exact .done .nil
  | @keep c s t h ih =>
    by_cases hc : c = '*' ∧ ∃ r, s = '/' :: r
    · obtain ⟨rfl, r, rfl⟩ := hc
      obtain ⟨r', rfl, hr⟩ := h.cons_inv (by decide)
      exact .keep _ (.keep _ (.done hr))
    · have hc' : ¬ (c = '*' ∧ ∃ r, t = '/' :: r) := by
        rintro ⟨rfl, r, rfl⟩
        obtain ⟨r', rfl, -⟩ := h.symm.cons_inv (by decide)
        exact hc ⟨rfl, r', rfl⟩
      rw [afterBlock_cons hc, afterBlock_cons hc']
      exact .keep c ih
  | lines hu hv h ih =>
    rw [← List.cons_append, ← List.cons_append, afterBlock_blank (blank_break hu),
      afterBlock_blank (blank_break hv)]
    exact .lines hu hv ih
  | tail hu hv => exact .tail hu hv (all (blank_break hu)) (all (blank_break hv))

section Quote

variable {quote : Char} {stop : Char → Bool}

theorem afterQuote_cons {c : Char} (hc : c ≠ '\\') (s : List Char) :
    afterQuote quote stop (c :: s) =
      if c = quote then some s else if stop c then none else afterQuote quote stop s := by
  rw [afterQuote]
  · simp [hc]
  · rintro d r rfl
    exact absurd rfl hc

/-- Whitespace is passed, or ends the reading. -/
theorem afterQuote_blank (hq : isBlank quote = false) {u s z : List Char} (hu : Blank u)
    (h : afterQuote quote stop (u ++ s) = some z) : afterQuote quote stop s = some z := by
  induction u with
  | nil => exact h
  | cons c u ih =>
    rw [blank_cons] at hu
    have hc : c ≠ '\\' := by
      rintro rfl
      exact absurd hu.1 (by decide)
    have hcq : c ≠ quote := by
      rintro rfl
      rw [hu.1] at hq
      simp at hq
    rw [List.cons_append, afterQuote_cons hc, if_neg hcq] at h
    split at h
    · simp at h
    · exact ih hu.2 h

theorem afterQuote_of_never (hq : isBlank quote = false) (hs : ∀ c, stop c = false)
    {u : List Char} (hu : Blank u) (s : List Char) :
    afterQuote quote stop (u ++ s) = afterQuote quote stop s := by
  induction u with
  | nil => rfl
  | cons c u ih =>
    rw [blank_cons] at hu
    have hc : c ≠ '\\' := by
      rintro rfl
      exact absurd hu.1 (by decide)
    have hcq : c ≠ quote := by
      rintro rfl
      rw [hu.1] at hq
      simp at hq
    rw [List.cons_append, afterQuote_cons hc, if_neg hcq, hs c]
    exact ih hu.2

/-- A string that ends on its line does not reach over a blank one. -/
theorem afterQuote_break (hq : isBlank quote = false) (hs : stop '\n' = true) {u : List Char}
    (hu : Blank u) (s : List Char) : afterQuote quote stop (u ++ '\n' :: s) = none := by
  cases h : afterQuote quote stop (u ++ '\n' :: s) with
  | none => rfl
  | some z =>
    have hn := afterQuote_blank hq hu h
    have hne : '\n' ≠ quote := by
      rintro rfl
      exact absurd hq (by decide)
    rw [afterQuote_cons (by decide), if_neg hne, if_pos hs] at hn
    simp at hn

/-- Strings either end on their line or run on over all line breaks. -/
theorem afterQuote_loose (hq : isBlank quote = false) (hbs : quote ≠ '\\')
    (hstop : stop '\n' = true ∨ ∀ c, stop c = false) {s t z : List Char} (h : Loose s t)
    (hs : afterQuote quote stop s = some z) :
    ∃ z', afterQuote quote stop t = some z' ∧ Upto z z' s t := by
  -- Blank lines that the reading reaches: it goes on behind them, in both texts.
  have gap : ∀ {u v s t : List Char}, Blank u → Blank v →
      (afterQuote quote stop ('\n' :: s) = some z →
        ∃ z', afterQuote quote stop ('\n' :: t) = some z' ∧ Upto z z' ('\n' :: s) ('\n' :: t)) →
      afterQuote quote stop (u ++ '\n' :: s) = some z →
        ∃ z', afterQuote quote stop (v ++ '\n' :: t) = some z' ∧
          Upto z z' ('\n' :: s) ('\n' :: t) := by
    intro u v s t hu hv ih hs
    rcases hstop with hn | hn
    · rw [afterQuote_break hq hn hu] at hs
      simp at hs
    · rw [afterQuote_of_never hq hn hu] at hs
      rw [afterQuote_of_never hq hn hv]
      exact ih hs
  have blank : ∀ {u : List Char}, Blank u → afterQuote quote stop u ≠ some z := by
    intro u hu hs
    have := afterQuote_blank hq hu (s := []) (by rw [List.append_nil]; exact hs)
    simp [afterQuote] at this
  match h with
  | .nil => simp [afterQuote] at hs
  | .keep (s := s) (t := t) c h =>
    by_cases hc : c = '\\'
    · subst hc
      cases h with
      | nil => simp [afterQuote, Ne.symm hbs] at hs
      | @keep d s t h =>
        rw [afterQuote] at hs ⊢
        obtain ⟨z', ht, hz⟩ := afterQuote_loose hq hbs hstop h hs
        exact ⟨z', ht, .keep _ (.keep _ hz)⟩
      | @lines u v s t hu hv h =>
        have hlt : ('\n' :: s).length < ('\\' :: '\n' :: (u ++ '\n' :: s)).length := by
          simp only [List.length_cons, List.length_append]; omega
        rw [afterQuote] at hs ⊢
        obtain ⟨z', ht, hz⟩ := gap hu hv (fun hs => afterQuote_loose hq hbs hstop h hs) hs
        exact ⟨z', ht, .keep _ (.lines hu hv hz)⟩
      | tail hu hv =>
        rw [afterQuote] at hs
        exact absurd hs (blank hu)
    · rw [afterQuote_cons hc] at hs ⊢
      split at hs
      · next hcq =>
        obtain rfl := Option.some.inj hs
        exact ⟨_, if_pos hcq, .keep c (.done h)⟩
      · next hcq =>
        rw [if_neg hcq]
        split at hs
        · simp at hs
        · next hst =>
          rw [if_neg hst]
          obtain ⟨z', ht, hz⟩ := afterQuote_loose hq hbs hstop h hs
          exact ⟨z', ht, .keep c hz⟩
  | .lines (u := u) (v := v) (s := s) (t := t) hu hv h =>
    have hlt : ('\n' :: s).length < ('\n' :: (u ++ '\n' :: s)).length := by
      simp only [List.length_cons, List.length_append]; omega
    rw [← List.cons_append] at hs
    obtain ⟨z', ht, hz⟩ := gap (blank_break hu) (blank_break hv)
      (fun hs => afterQuote_loose hq hbs hstop h hs) hs
    exact ⟨z', ht, .lines hu hv hz⟩
  | .tail hu hv => exact absurd hs (blank (blank_break hu))
termination_by s.length

end Quote

theorem respects_token (prev : Option Char) : Respects (token prev) := by
  intro s t z h hs
  have quoted : ∀ {quote : Char} {stop : Char → Bool} {r : List Char}, isBlank quote = false →
      quote ≠ '\\' → (stop '\n' = true ∨ ∀ c, stop c = false) → Loose (quote :: r) t →
      afterQuote quote stop r = some z →
      ∃ r' z', t = quote :: r' ∧ afterQuote quote stop r' = some z' ∧ Upto z z' (quote :: r) t := by
    intro quote stop r hq hbs hstop h hr
    obtain ⟨r', rfl, h'⟩ := h.cons_inv (by rintro rfl; exact absurd hq (by decide))
    obtain ⟨z', hz', hz⟩ := afterQuote_loose hq hbs hstop h' hr
    exact ⟨r', z', rfl, hz', .keep quote hz⟩
  unfold token at hs
  split at hs
  · obtain rfl := Option.some.inj hs
    obtain ⟨t', rfl, h'⟩ := h.append_inv (w := ['/', '/']) (by decide)
    exact ⟨_, rfl, .keep _ (.keep _ (upto_dropWhile (by decide) h'))⟩
  · obtain rfl := Option.some.inj hs
    obtain ⟨t', rfl, h'⟩ := h.append_inv (w := ['/', '*']) (by decide)
    exact ⟨_, rfl, .keep _ (.keep _ (upto_afterBlock h'))⟩
  · obtain ⟨r', z', rfl, hz', hz⟩ := quoted (by decide) (by decide) (.inl (by decide)) h hs
    exact ⟨z', hz', hz⟩
  · obtain ⟨r', z', rfl, hz', hz⟩ := quoted (by decide) (by decide) (.inl (by decide)) h hs
    exact ⟨z', hz', hz⟩
  · obtain ⟨r', z', rfl, hz', hz⟩ := quoted (by decide) (by decide) (.inr fun _ => rfl) h hs
    exact ⟨z', hz', hz⟩
  · simp at hs

theorem silent_token : Silent token := by
  intro prev text rest h
  unfold token at h
  split at h
  · exact ⟨_, _, rfl, by decide⟩
  · exact ⟨_, _, rfl, by decide⟩
  · exact ⟨_, _, rfl, by decide⟩
  · exact ⟨_, _, rfl, by decide⟩
  · exact ⟨_, _, rfl, by decide⟩
  · simp at h

/-- Loose texts have corresponding comments and strings. -/
theorem forall₂_hits_token {s t : List Char} (h : Loose s t) (p : Option Char) :
    List.Forall₂ Hit.Corresponds (hits token p s) (hits token p t) :=
  forall₂_hits (E := fun _ _ => True) advances_token silent_token (fun _ => trivial)
    (fun p _ _ _ _ h => (respects_token p).rel h) (fun _ _ _ _ _ _ _ _ _ _ => trivial) p p trivial h

end ConsoleSweep.Comment

namespace ConsoleSweep.Removal

open ConsoleSweep.Text ConsoleSweep.Call ConsoleSweep.Comment

/-! ## Ends of calls -/

/-- A reading that succeeds on both of two loose texts or on neither. -/
def Alike (f : List Char → Option (List Char)) : Prop :=
  ∀ s t, Loose s t → (f s).isSome = true → (f t).isSome = true

theorem Alike.rel {f : List Char → Option (List Char)} (h : Alike f) {s t : List Char}
    (hst : Loose s t) : Option.Rel (fun _ _ => True) (f s) (f t) := by
  have h₁ := h s t hst
  have h₂ := h t s hst.symm
  generalize f s = a at h₁ h₂
  generalize f t = b at h₁ h₂
  cases a with
  | none =>
    cases b with
    | none => exact .none
    | some _ => simp at h₂
  | some _ =>
    cases b with
    | none => simp at h₁
    | some _ => exact .some trivial

theorem rel_none_iff {R : List Char → List Char → Prop} {a b : Option (List Char)}
    (h : Option.Rel R a b) : a = none ↔ b = none := by
  cases h <;> simp

theorem upto_skipSemicolon {s t : List Char} (h : Loose s t) :
    Upto (skipSemicolon s) (skipSemicolon t) s t := by
  have other : ∀ {c : Char}, c ≠ ';' → ∀ r, skipSemicolon (c :: r) = c :: r := by
    intro c hc r
    rw [skipSemicolon]
    rintro r' e
    exact hc (List.cons.inj e).1
  cases h with
  | nil => exact .done .nil
  | keep c h =>
    by_cases hc : c = ';'
    · subst hc
      exact .keep _ (.done h)
    · rw [other hc, other hc]
      exact .done (.keep c h)
  | lines hu hv h => exact .done (.lines hu hv h)
  | tail hu hv => exact .done (.tail hu hv)

theorem alike_afterBreak : Alike afterBreak := by
  intro s t h hs
  unfold afterBreak at hs
  split at hs
  · rw [h.nil_iff.1 rfl]; rfl
  · obtain ⟨t', rfl⟩ := h.break_inv
    rfl
  · obtain ⟨t', rfl, h'⟩ := h.cons_inv (by decide)
    obtain ⟨t'', rfl⟩ := h'.break_inv
    rfl
  · simp at hs

theorem alike_statementEnd : Alike statementEnd := by
  intro s t h hs
  have h₁ := (upto_skipIndent h).rest
  have h₂ := (upto_skipSemicolon h₁).rest
  exact alike_afterBreak _ _ (upto_skipIndent h₂).rest hs

theorem rel_afterLastClose {s t : List Char} (h : Loose s t) :
    Option.Rel (fun z z' => Upto z z' s t) (afterLastClose s) (afterLastClose t) := by
  have stops : ∀ r, afterLastClose ('\n' :: r) = none := by
    intro r
    rw [afterLastClose, if_pos (by decide)]
  induction h with
  | nil => exact .none
  | @keep c s t h ih =>
    rw [afterLastClose, afterLastClose]
    split
    · exact .none
    · generalize afterLastClose s = a at ih
      generalize afterLastClose t = b at ih
      cases ih with
      | some hz => exact .some (.keep c hz)
      | none =>
        simp only
        split
        · exact .some (.keep c (.done h))
        · exact .none
  | lines => rw [stops, stops]; exact .none
  | tail => rw [stops, stops]; exact .none

theorem afterGroups_blank {u : List Char} (hu : Blank u) (opened : Bool) (s : List Char) :
    afterGroups opened (u ++ s) = afterGroups opened s := by
  induction u with
  | nil => rfl
  | cons c u ih =>
    rw [blank_cons] at hu
    have h₁ : c ≠ ')' := by
      rintro rfl
      exact absurd hu.1 (by decide)
    have h₂ : (c == '(') = false := by
      refine beq_false_of_ne ?_
      rintro rfl
      exact absurd hu.1 (by decide)
    rw [List.cons_append, afterGroups, if_neg h₁, h₂, Bool.or_false]
    exact ih hu.2

theorem rel_afterGroups (opened : Bool) {s t : List Char} (h : Loose s t) :
    Option.Rel (fun _ _ => True) (afterGroups opened s) (afterGroups opened t) := by
  have all : ∀ {u : List Char} (opened : Bool), Blank u → afterGroups opened u = none := by
    intro u opened hu
    have := afterGroups_blank hu opened []
    rwa [List.append_nil, afterGroups] at this
  induction h generalizing opened with
  | nil => exact .none
  | @keep c s t h ih =>
    rw [afterGroups, afterGroups]
    split
    · have hrel := alike_statementEnd.rel h
      generalize statementEnd s = a at hrel
      generalize statementEnd t = b at hrel
      cases hrel with
      | some hz => exact .some trivial
      | none =>
        simp only
        split
        · exact ih false
        · exact .none
    · exact ih _
  | lines hu hv _ ih =>
    rw [← List.cons_append, ← List.cons_append, afterGroups_blank (blank_break hu),
      afterGroups_blank (blank_break hv)]
    exact ih opened
  | tail hu hv => rw [all opened (blank_break hu), all opened (blank_break hv)]; exact .none

theorem afterFirstClose_blank {u : List Char} (hu : Blank u) (s : List Char) :
    afterFirstClose (u ++ s) = afterFirstClose s := by
  induction u with
  | nil => rfl
  | cons c u ih =>
    rw [blank_cons] at hu
    have hne : ∀ d : Char, isBlank d = false → c ≠ d := by
      rintro d hd rfl
      rw [hu.1] at hd
      simp at hd
    rw [List.cons_append, afterFirstClose, if_neg (hne ')' (by decide)), if_neg]
    · exact ih hu.2
    · simp [hne ';' (by decide), hne '\x7b' (by decide), hne '\x7d' (by decide)]

theorem rel_afterFirstClose {s t : List Char} (h : Loose s t) :
    Option.Rel (fun z z' => Upto z z' s t) (afterFirstClose s) (afterFirstClose t) := by
  have all : ∀ {u : List Char}, Blank u → afterFirstClose u = none := by
    intro u hu
    have := afterFirstClose_blank hu []
    rwa [List.append_nil, afterFirstClose] at this
  induction h with
  | nil => exact .none
  | keep c h ih =>
    rw [afterFirstClose, afterFirstClose]
    split
    · have h₁ := upto_skipIndent h
      exact .some (.keep c (h₁.trans (upto_skipSemicolon h₁.rest)))
    · split
      · exact .none
      · exact rel_imp ih fun _ _ hz => .keep c hz
  | lines hu hv _ ih =>
    rw [← List.cons_append, ← List.cons_append, afterFirstClose_blank (blank_break hu),
      afterFirstClose_blank (blank_break hv)]
    exact rel_imp ih fun _ _ hz => .lines hu hv hz
  | tail hu hv => rw [all (blank_break hu), all (blank_break hv)]; exact .none

/-! ## The patterns of the passes -/

theorem startsWord_beforeIndented_of_loose {p q : Option Char}
    (hpq : startsWord p = startsWord q) {s t : List Char} (h : Loose s t) :
    startsWord (beforeIndented p s) = startsWord (beforeIndented q t) := by
  cases h with
  | nil => exact hpq
  | keep c _ =>
    rw [beforeIndented, beforeIndented]
    split
    · rfl
    · exact hpq
  | lines => exact hpq
  | tail => exact hpq

section Patterns

variable {names : List String} (hn : OneLine names)
include hn

theorem forall₂_indentedHeads {p q : Option Char} (hpq : startsWord p = startsWord q)
    {s t : List Char} (h : Loose s t) :
    List.Forall₂ (fun z z' => Upto z z' s t) (indentedHeads names p s)
      (indentedHeads names q t) := by
  have hi := upto_skipIndent h
  have hw := startsWord_beforeIndented_of_loose hpq h
  exact (forall₂_heads hn hw hi.rest).imp fun _ _ hz => hi.trans hz

theorem singleLine_none_iff (p : Option Char) (s t : List Char) (h : Loose s t) :
    singleLine names p s = none ↔ singleLine names p t = none := by
  unfold singleLine
  split
  · refine rel_none_iff (R := fun _ _ => True)
      (rel_findSome? (forall₂_indentedHeads hn rfl h) fun z z' hz => ?_)
    have hrel := rel_afterLastClose hz.rest
    generalize afterLastClose z = a at hrel
    generalize afterLastClose z' = b at hrel
    cases hrel with
    | none => exact .none
    | some hw => exact alike_statementEnd.rel hw.rest
  · exact Iff.rfl

theorem nestedStatement_none_iff (p : Option Char) (s t : List Char) (h : Loose s t) :
    nestedStatement names p s = none ↔ nestedStatement names p t = none := by
  unfold nestedStatement
  split
  · exact rel_none_iff (rel_findSome? (forall₂_indentedHeads hn rfl h) fun z z' hz =>
      rel_afterGroups false hz.rest)
  · exact Iff.rfl

theorem alike_commentedLine (p : Option Char) : Alike (commentedLine names p) := by
  intro s t h hs
  unfold commentedLine at hs ⊢
  split at hs
  · next hp =>
    rw [if_pos hp]
    split at hs
    · next rest hr =>
      have hi := (upto_skipIndent h).rest
      rw [hr] at hi
      obtain ⟨rest', hr', h'⟩ := hi.append_inv (w := ['/', '/']) (by decide)
      rw [hr']
      have hrel := rel_head? (forall₂_indentedHeads hn (p := some '/') rfl h')
      simp only [List.cons_append, List.nil_append, Option.isSome_map] at hs ⊢
      generalize (indentedHeads names (some '/') rest).head? = a at hrel hs
      generalize (indentedHeads names (some '/') rest').head? = b at hrel
      cases hrel with
      | none => simp at hs
      | some _ => rfl
    · simp at hs
  · simp at hs

theorem rel_inlineCall {p q : Option Char} (hpq : startsWord p = startsWord q) {s t : List Char}
    (h : Loose s t) :
    Option.Rel (fun z z' => Upto z z' s t) (inlineCall names p s) (inlineCall names q t) :=
  rel_findSome? (forall₂_indentedHeads hn hpq h) fun _ _ hz =>
    rel_imp (rel_afterFirstClose hz.rest) fun _ _ hw => hz.trans hw

end Patterns

theorem silent_singleLine (names : List String) : Silent (singleLine names) := by
  intro prev text rest h
  unfold singleLine at h
  split at h
  · obtain ⟨r, hr, -⟩ := List.exists_of_findSome?_eq_some h
    exact visible_of_mem_heads hr
  · simp at h

theorem silent_nestedStatement (names : List String) : Silent (nestedStatement names) := by
  intro prev text rest h
  unfold nestedStatement at h
  split at h
  · obtain ⟨r, hr, -⟩ := List.exists_of_findSome?_eq_some h
    exact visible_of_mem_heads hr
  · simp at h

theorem silent_inlineCall (names : List String) : Silent (inlineCall names) := by
  intro prev text rest h
  obtain ⟨r, hr, -⟩ := List.exists_of_findSome?_eq_some h
  exact visible_of_mem_heads hr

theorem silent_commentedLine (names : List String) : Silent (commentedLine names) := by
  intro prev text rest h
  unfold commentedLine at h
  split at h
  · split at h
    · next r hr => exact ⟨'/', _, hr, by decide⟩
    · simp at h
  · simp at h

/-- Loose texts have corresponding inline calls. -/
theorem forall₂_hits_inlineCall {names : List String} (hn : OneLine names) {s t : List Char}
    (h : Loose s t) (p : Option Char) :
    List.Forall₂ Hit.Corresponds (hits (inlineCall names) p s) (hits (inlineCall names) p t) := by
  refine forall₂_hits (E := fun p q => startsWord p = startsWord q)
    (covers_inlineCall names).advances (silent_inlineCall names) (fun _ => rfl) ?_ ?_ p p rfl h
  · intro p q s t hpq h
    exact rel_inlineCall hn hpq h
  · intro p q y y' z z' hm hm' hz hz'
    -- Behind a deleted call a word may start.
    have clean : ∀ {p : Option Char} {y z : List Char}, inlineCall names p (y ++ z) = some z →
        z ≠ [] → startsWord (behind p y) = true := by
      intro p y z hm hz
      obtain ⟨w, e, -, hc⟩ := covers_inlineCall names p (y ++ z) z hm
      rw [List.append_cancel_right e]
      exact hc.startsWord hz p
    rw [clean hm hz, clean hm' hz']

end ConsoleSweep.Removal
