/-
  What the passes on statements delete.

  Both passes start at the head of a call at the start of a line, and both end behind the
  first parenthesis after it that ends a statement (`afterEnding`): the pass on single lines
  because no line break comes before its last parenthesis, the other one because it tries
  the parentheses in their order. Neither counts parentheses. So what is deleted is exactly
  one call if and only if the parenthesis that closes the call is the first one that ends a
  statement (`deleted_isCall_iff`); the pass for several lines may stop too early, but never
  goes on behind the call.
-/
import ConsoleSweep.Proofs.Removal.Outcome

namespace ConsoleSweep.Removal

open ConsoleSweep.Text ConsoleSweep.Call

/-! ## Calls by their parentheses -/

/-- What follows the parenthesis that closes one more than `depth` open ones. -/
def afterMatching : Nat → List Char → Option (List Char)
  | _, [] => none
  | depth, c :: cs =>
    if c = '(' then afterMatching (depth + 1) cs
    else if c = ')' then
      match depth with
      | 0 => some cs
      | depth + 1 => afterMatching depth cs
    else afterMatching depth cs

/-- A text read backwards, without the line break it ends with. -/
def dropBreak : List Char → List Char
  | '\n' :: '\r' :: rest => rest
  | '\n' :: rest => rest
  | text => text

/-- A statement without its indent, the line break behind it, blanks and one semicolon. -/
def bare (statement : List Char) : List Char :=
  (skipIndent (skipSemicolon (skipIndent (dropBreak (skipIndent statement).reverse)))).reverse

/-- The text is exactly one call: the parenthesis of its head is closed by the last character, and
by no earlier one. -/
def IsCall (names : List String) (text : List Char) : Prop :=
  ∃ rest ∈ heads names none text, afterMatching 0 rest = some []

instance (names : List String) (text : List Char) : Decidable (IsCall names text) :=
  inferInstanceAs (Decidable (∃ rest ∈ heads names none text, afterMatching 0 rest = some []))

/-- What follows the first parenthesis that ends a statement. -/
def afterEnding : List Char → Option (List Char)
  | [] => none
  | c :: cs => if c = ')' ∧ (statementEnd cs).isSome then some cs else afterEnding cs

theorem afterMatching_length {depth : Nat} {text rest : List Char}
    (h : afterMatching depth text = some rest) : rest.length < text.length := by
  fun_induction afterMatching depth text with
  | case1 => cases h
  | case2 depth cs ih => exact Nat.lt_succ_of_lt (ih h)
  | case3 cs =>
    obtain rfl := Option.some.inj h
    exact Nat.lt_succ_self _
  | case4 cs hne depth ih => exact Nat.lt_succ_of_lt (ih h)
  | case5 depth c cs _ _ ih => exact Nat.lt_succ_of_lt (ih h)

theorem afterMatching_append {depth : Nat} {x rest : List Char}
    (h : afterMatching depth x = some rest) (z : List Char) :
    afterMatching depth (x ++ z) = some (rest ++ z) := by
  fun_induction afterMatching depth x with
  | case1 => cases h
  | case2 depth cs ih => simpa [afterMatching] using ih h
  | case3 cs =>
    obtain rfl := Option.some.inj h
    simp [afterMatching]
  | case4 cs hne depth ih => simpa [afterMatching] using ih h
  | case5 depth c cs ho hc ih => simpa [afterMatching, ho, hc] using ih h

/-- A parenthesis is closed at the end of a text if and only if it is closed there once more text
follows. -/
theorem afterMatching_eq_nil_iff {depth : Nat} {x z : List Char} :
    afterMatching depth x = some [] ↔ afterMatching depth (x ++ z) = some z := by
  refine ⟨fun h => afterMatching_append h z, fun h => ?_⟩
  fun_induction afterMatching depth x with
  | case1 => exact absurd (afterMatching_length h) (Nat.lt_irrefl _)
  | case2 depth cs ih => exact ih (by simpa [afterMatching] using h)
  | case3 cs =>
    have hcs : cs ++ z = z := by simpa [afterMatching] using h
    rw [List.append_left_eq_self.1 hcs]
  | case4 cs hne depth ih => exact ih (by simpa [afterMatching] using h)
  | case5 depth c cs ho hc ih => exact ih (by simpa [afterMatching, ho, hc] using h)

/-- One more character closes what was open at the end of the text only. -/
theorem eq_nil_of_afterMatching {depth : Nat} {x left : List Char} {c : Char}
    (hx : afterMatching depth x = none) (h : afterMatching depth (x ++ [c]) = some left) :
    left = [] := by
  fun_induction afterMatching depth x with
  | case1 =>
    have hlen := afterMatching_length h
    exact List.length_eq_zero_iff.1 (Nat.lt_one_iff.1 hlen)
  | case2 depth cs ih => exact ih hx (by simpa [afterMatching] using h)
  | case3 cs => cases hx
  | case4 cs hne depth ih => exact ih hx (by simpa [afterMatching] using h)
  | case5 depth d cs ho hc ih => exact ih hx (by simpa [afterMatching, ho, hc] using h)

/-! ## Ends of statements -/

theorem skipIndent_append {b : List Char} (hb : ∀ c ∈ b, isIndent c = true) (text : List Char) :
    skipIndent (b ++ text) = skipIndent text :=
  List.dropWhile_append_of_pos hb

theorem skipIndent_cons_of_not {c : Char} (hc : isIndent c = false) (text : List Char) :
    skipIndent (c :: text) = c :: text := by
  simp [skipIndent, hc]

/-- The end of a statement: blanks, a semicolon or none, blanks, and a line break or the end of the
text. -/
theorem statementEnd_eq_some {text z : List Char} (h : statementEnd text = some z) :
    ∃ b₁ semi b₂ brk, text = b₁ ++ (semi ++ (b₂ ++ (brk ++ z))) ∧
      (∀ c ∈ b₁, isIndent c = true) ∧ (semi = [] ∨ semi = [';']) ∧
      (∀ c ∈ b₂, isIndent c = true) ∧
      (brk = ['\n'] ∨ brk = ['\r', '\n'] ∨ brk = [] ∧ z = []) := by
  obtain ⟨semi, hsemi, hs⟩ : ∃ semi, (semi = [] ∨ semi = [';']) ∧
      skipIndent text = semi ++ skipSemicolon (skipIndent text) := by
    unfold skipSemicolon
    split
    · next rest e => exact ⟨[';'], .inr rfl, e⟩
    · exact ⟨[], .inl rfl, rfl⟩
  obtain ⟨brk, hbrk, hb⟩ : ∃ brk, (brk = ['\n'] ∨ brk = ['\r', '\n'] ∨ brk = [] ∧ z = []) ∧
      skipIndent (skipSemicolon (skipIndent text)) = brk ++ z := by
    unfold statementEnd afterBreak at h
    split at h
    · next e =>
      obtain rfl := Option.some.inj h
      exact ⟨[], .inr (.inr ⟨rfl, rfl⟩), e⟩
    · next rest e =>
      obtain rfl := Option.some.inj h
      exact ⟨['\n'], .inl rfl, e⟩
    · next rest e =>
      obtain rfl := Option.some.inj h
      exact ⟨['\r', '\n'], .inr (.inl rfl), e⟩
    · cases h
  refine ⟨text.takeWhile isIndent, semi, (skipSemicolon (skipIndent text)).takeWhile isIndent, brk,
    ?_, isIndent_takeWhile _, hsemi, isIndent_takeWhile _, hbrk⟩
  rw [← hb, skipIndent_split, ← hs, skipIndent_split]

theorem statementEnd_of_parts {b₁ semi b₂ brk z : List Char} (h₁ : ∀ c ∈ b₁, isIndent c = true)
    (hsemi : semi = [] ∨ semi = [';']) (h₂ : ∀ c ∈ b₂, isIndent c = true)
    (hbrk : brk = ['\n'] ∨ brk = ['\r', '\n'] ∨ brk = [] ∧ z = []) :
    statementEnd (b₁ ++ (semi ++ (b₂ ++ (brk ++ z)))) = some z := by
  obtain ⟨hskip, hsemicolon, hbreak⟩ : skipIndent (brk ++ z) = brk ++ z ∧
      skipSemicolon (brk ++ z) = brk ++ z ∧ afterBreak (brk ++ z) = some z := by
    rcases hbrk with rfl | rfl | ⟨rfl, rfl⟩ <;> exact ⟨rfl, rfl, rfl⟩
  unfold statementEnd
  rw [skipIndent_append h₁]
  rcases hsemi with rfl | rfl
  · rw [List.nil_append, skipIndent_append h₂, hskip, hsemicolon, hskip, hbreak]
  · change afterBreak (skipIndent (b₂ ++ (brk ++ z))) = some z
    rw [skipIndent_append h₂, hskip, hbreak]

theorem ne_close_of_isIndent {c : Char} (h : isIndent c = true) : c ≠ ')' := by
  rintro rfl
  exact absurd h (by decide)

/-- A statement that ends before a parenthesis ends with a line break, whatever follows the
parenthesis. -/
theorem statementEnd_before_close {b rest z : List Char}
    (h : statementEnd (b ++ ')' :: rest) = some z) :
    ∃ u w, b = u ++ w ∧ '\n' ∈ u ∧ z = w ++ ')' :: rest ∧
      ∀ other, statementEnd (b ++ ')' :: other) = some (w ++ ')' :: other) := by
  obtain ⟨b₁, semi, b₂, brk, e, h₁, hsemi, h₂, hbrk⟩ := statementEnd_eq_some h
  have hclose : ')' ∉ b₁ ++ (semi ++ (b₂ ++ brk)) := by
    simp only [List.mem_append, not_or]
    refine ⟨fun hc => ne_close_of_isIndent (h₁ _ hc) rfl, ?_,
      fun hc => ne_close_of_isIndent (h₂ _ hc) rfl, ?_⟩
    · rcases hsemi with rfl | rfl <;> decide
    · rcases hbrk with rfl | rfl | ⟨rfl, -⟩ <;> decide
  -- So the statement has ended when the parenthesis comes.
  obtain ⟨w, hb, rfl⟩ : ∃ w, b = b₁ ++ (semi ++ (b₂ ++ brk)) ++ w ∧ z = w ++ ')' :: rest := by
    have e' : b ++ ')' :: rest = (b₁ ++ (semi ++ (b₂ ++ brk))) ++ z := by simpa using e
    rcases List.append_eq_append_iff.1 e' with ⟨w, hy, hw⟩ | ⟨w, hy, hw⟩
    · cases w with
      | nil => exact ⟨[], by simpa using hy.symm, by simpa using hw.symm⟩
      | cons c w =>
        obtain ⟨rfl, -⟩ := List.cons.inj hw
        exact absurd (hy ▸ by simp) hclose
    · exact ⟨w, hy, hw⟩
  have hbrk' : brk = ['\n'] ∨ brk = ['\r', '\n'] := by
    rcases hbrk with hbrk | hbrk | ⟨-, hz⟩
    · exact .inl hbrk
    · exact .inr hbrk
    · simp at hz
  refine ⟨_, w, hb, ?_, rfl, fun other => ?_⟩
  · rcases hbrk' with rfl | rfl <;> simp
  · have hend := statementEnd_of_parts (z := w ++ ')' :: other) h₁ hsemi h₂
      (hbrk'.imp_right Or.inl)
    rw [hb]
    simpa using hend

/-- A statement does not end before a parenthesis on the same line. -/
theorem statementEnd_close {b : List Char} (hb : '\n' ∉ b) (rest : List Char) :
    statementEnd (b ++ ')' :: rest) = none := by
  cases h : statementEnd (b ++ ')' :: rest) with
  | none => rfl
  | some z =>
    obtain ⟨u, w, rfl, hu, -⟩ := statementEnd_before_close h
    exact absurd (List.mem_append_left w hu) hb

/-! ## Where the passes stop -/

/-- The last parenthesis of a line is the first one that ends a statement, if it does. -/
theorem afterEnding_of_lastClose {text rest z : List Char} (h : afterLastClose text = some rest)
    (hz : statementEnd rest = some z) :
    ∃ args, text = args ++ ')' :: rest ∧ '\n' ∉ args ∧ afterEnding text = some rest := by
  induction text with
  | nil => cases h
  | cons c cs ih =>
    rw [afterLastClose] at h
    split at h
    · cases h
    · next hc =>
      have hbreak : '\n' ≠ c := by
        rintro rfl
        simp at hc
      split at h
      · next found =>
        obtain rfl := Option.some.inj h
        obtain ⟨args, rfl, hargs, hending⟩ := ih found
        refine ⟨c :: args, rfl, List.not_mem_cons_of_ne_of_not_mem hbreak hargs, ?_⟩
        rw [afterEnding, if_neg, hending]
        rw [statementEnd_close hargs]
        simp
      · split at h
        · next hclose =>
          obtain rfl := Option.some.inj h
          refine ⟨[], by rw [hclose]; rfl, by simp, ?_⟩
          rw [afterEnding, if_pos ⟨hclose, by rw [hz]; rfl⟩]
        · cases h

/-- The pass for several lines stops at the first parenthesis that ends a statement, and the
parentheses before it leave open what was open. -/
theorem afterEnding_of_groups {opened : Bool} {text z : List Char}
    (h : afterGroups opened text = some z) :
    ∃ args rest, text = args ++ ')' :: rest ∧ statementEnd rest = some z ∧
      afterEnding text = some rest ∧
      ∀ depth, (opened = true → 0 < depth) → afterMatching depth args = none := by
  induction text generalizing opened with
  | nil => cases h
  | cons c cs ih =>
    rw [afterGroups] at h
    split at h
    · next hc =>
      cases hend : statementEnd cs with
      | some rest =>
        simp only [hend] at h
        obtain rfl := Option.some.inj h
        refine ⟨[], cs, by rw [hc]; rfl, hend, ?_, fun _ _ => rfl⟩
        rw [afterEnding, if_pos ⟨hc, by rw [hend]; rfl⟩]
      | none =>
        simp only [hend] at h
        split at h
        · next ho =>
          obtain ⟨args, rest, rfl, hrest, hending, hdepth⟩ := ih h
          refine ⟨c :: args, rest, rfl, hrest, ?_, fun depth hd => ?_⟩
          · rw [afterEnding, if_neg (by simp [hend]), hending]
          · obtain ⟨depth, rfl⟩ := Nat.exists_eq_succ_of_ne_zero (Nat.pos_iff_ne_zero.1 (hd ho))
            simpa [afterMatching, hc] using hdepth depth (by simp)
        · cases h
    · next hc =>
      obtain ⟨args, rest, rfl, hrest, hending, hdepth⟩ := ih h
      refine ⟨c :: args, rest, rfl, hrest, ?_, fun depth hd => ?_⟩
      · rw [afterEnding, if_neg (fun hp => hc hp.1), hending]
      · by_cases ho : c = '('
        · simpa [afterMatching, ho] using hdepth (depth + 1) fun _ => Nat.succ_pos depth
        · have hd' : (opened || c == '(') = true → 0 < depth := by simpa [ho] using hd
          simpa [afterMatching, ho, hc] using hdepth depth hd'

/-! ## Statements without what is around them -/

theorem dropBreak_append {brk t : List Char}
    (hbrk : brk = ['\n'] ∨ brk = ['\r', '\n'] ∨ brk = [])
    (ht : ∀ c cs, t = c :: cs → c ≠ '\n' ∧ c ≠ '\r') : dropBreak (brk.reverse ++ t) = t := by
  cases t with
  | nil => rcases hbrk with rfl | rfl | rfl <;> rfl
  | cons c cs =>
    obtain ⟨hn, hr⟩ := ht c cs rfl
    rcases hbrk with rfl | rfl | rfl <;> simp [dropBreak, hn, hr]

/-- What is around a call that is a statement is taken off, and nothing else. -/
theorem bare_eq {y z lead core after : List Char} {c : Char}
    (e : y ++ z = lead ++ (c :: core ++ ')' :: after)) (hlead : ∀ d ∈ lead, isIndent d = true)
    (hc : isIndent c = false) (hend : statementEnd after = some z) :
    bare y = c :: core ++ [')'] := by
  obtain ⟨b₁, semi, b₂, brk, rfl, h₁, hsemi, h₂, hbrk⟩ := statementEnd_eq_some hend
  have hy : y = lead ++ (c :: core ++ ')' :: (b₁ ++ (semi ++ (b₂ ++ brk)))) := by
    refine List.append_cancel_right (e.trans ?_)
    simp
  have hr₁ : ∀ d ∈ b₁.reverse, isIndent d = true := fun d hd => h₁ d (List.mem_reverse.1 hd)
  have hr₂ : ∀ d ∈ b₂.reverse, isIndent d = true := fun d hd => h₂ d (List.mem_reverse.1 hd)
  generalize hback : (c :: core).reverse = back
  -- Read backwards, the line break comes first, then blanks, the semicolon and blanks.
  have hreverse : (skipIndent y).reverse =
      brk.reverse ++ (b₂.reverse ++ (semi ++ (b₁.reverse ++ ')' :: back))) := by
    rw [hy, skipIndent_append hlead, List.cons_append, skipIndent_cons_of_not hc,
      ← List.cons_append, ← hback]
    rcases hsemi with rfl | rfl <;> simp
  have hbreak : dropBreak (skipIndent y).reverse =
      b₂.reverse ++ (semi ++ (b₁.reverse ++ ')' :: back)) := by
    rw [hreverse]
    refine dropBreak_append (hbrk.imp_right (Or.imp_right And.left)) fun d ds ht => ?_
    have hmem : d ∈ b₂.reverse ++ (semi ++ (b₁.reverse ++ [')'])) := by
      cases hu : b₂.reverse ++ (semi ++ (b₁.reverse ++ [')'])) with
      | nil => simp at hu
      | cons d' u =>
        have hsame : d' :: (u ++ back) = d :: ds := by
          rw [← List.cons_append, ← hu, ← ht]
          simp
        rw [(List.cons.inj hsame).1]
        exact List.mem_cons_self
    have hd : isIndent d = true ∨ d = ';' ∨ d = ')' := by
      simp only [List.mem_append, List.mem_singleton] at hmem
      rcases hmem with hd | hd | hd | hd
      · exact .inl (hr₂ d hd)
      · rcases hsemi with rfl | rfl
        · cases hd
        · exact .inr (.inl (List.mem_singleton.1 hd))
      · exact .inl (hr₁ d hd)
      · exact .inr (.inr hd)
    constructor <;> rintro rfl <;> exact absurd hd (by decide)
  have hblank : skipIndent (b₁.reverse ++ ')' :: back) = ')' :: back := by
    rw [skipIndent_append hr₁, skipIndent_cons_of_not (by decide)]
  have hlast : skipIndent (skipSemicolon (skipIndent (semi ++ (b₁.reverse ++ ')' :: back)))) =
      ')' :: back := by
    rcases hsemi with rfl | rfl
    · rw [List.nil_append, hblank]
      exact skipIndent_cons_of_not (by decide) back
    · exact hblank
  unfold bare
  rw [hbreak, skipIndent_append hr₂, hlast, ← hback]
  simp

/-! ## Deleted regions -/

/-- The head of a call of a method with a plain name ends at the first opening parenthesis. -/
theorem eq_of_mem_heads {names : List String} (hw : Wordy names) {prev : Option Char}
    {text r : List Char} (h : r ∈ heads names prev text) :
    r = (text.dropWhile (· ≠ '(')).tail := by
  obtain ⟨-, name, hn, -, b₁, b₂, b₃, h₁, h₂, h₃, rfl⟩ := mem_heads_iff.1 h
  have hblank : ∀ {b : List Char}, Blank b → '(' ∉ b := fun hb hc => absurd (hb _ hc) (by decide)
  have hname : '(' ∉ name.toList := by
    intro hc
    rcases hw name hn '(' hc with hc | hc <;> exact absurd hc (by decide +kernel)
  have hfree : '(' ∉ keyword ++ (b₁ ++ '.' :: (b₂ ++ (name.toList ++ b₃))) := by
    simp [keyword_eq, hblank h₁, hblank h₂, hblank h₃, hname]
  have hsplit : headText b₁ b₂ b₃ name ++ r =
      (keyword ++ (b₁ ++ '.' :: (b₂ ++ (name.toList ++ b₃)))) ++ '(' :: r := by
    simp [headText]
  have hpos : ∀ c ∈ keyword ++ (b₁ ++ '.' :: (b₂ ++ (name.toList ++ b₃))),
      decide (c ≠ '(') = true := by
    intro c hc
    simpa using fun e : c = '(' => hfree (e ▸ hc)
  rw [hsplit, List.dropWhile_append_of_pos hpos]
  simp

/-- A text starts with a head in one way only. -/
theorem heads_unique {names : List String} (hw : Wordy names) {prev prev' : Option Char}
    {text r r' : List Char} (h : r ∈ heads names prev text) (h' : r' ∈ heads names prev' text) :
    r = r' :=
  (eq_of_mem_heads hw h).trans (eq_of_mem_heads hw h').symm

/-- A region that ends behind a parenthesis which ends a statement is exactly one call if and only
if that parenthesis closes the call. -/
theorem isCall_bare_iff {names : List String} (hw : Wordy names) {y z args after : List Char}
    (hr : args ++ ')' :: after ∈ heads names none (skipIndent (y ++ z)))
    (hend : statementEnd after = some z) :
    args ++ [')'] ∈ heads names none (bare y) ∧
      (IsCall names (bare y) ↔ afterMatching 0 (args ++ ')' :: after) = some after) := by
  obtain ⟨-, name, hn, hs, b₁, b₂, b₃, h₁, h₂, h₃, e⟩ := mem_heads_iff.1 hr
  have hbare : bare y = headText b₁ b₂ b₃ name ++ (args ++ [')']) := by
    have hy : y ++ z = (y ++ z).takeWhile isIndent ++
        (headText b₁ b₂ b₃ name ++ args ++ ')' :: after) := by
      rw [List.append_assoc, ← e, skipIndent_split]
    rw [← List.append_assoc]
    exact bare_eq hy (isIndent_takeWhile _) (by decide) hend
  have hmem : args ++ [')'] ∈ heads names none (bare y) :=
    mem_heads_iff.2 ⟨rfl, name, hn, hs, b₁, b₂, b₃, h₁, h₂, h₃, hbare⟩
  have hiff : afterMatching 0 (args ++ [')']) = some [] ↔
      afterMatching 0 (args ++ ')' :: after) = some after := by
    have hiff : afterMatching 0 (args ++ [')']) = some [] ↔
        afterMatching 0 ((args ++ [')']) ++ after) = some after := afterMatching_eq_nil_iff
    rwa [List.append_assoc, List.singleton_append] at hiff
  refine ⟨hmem, ?_⟩
  rw [← hiff]
  constructor
  · rintro ⟨r, hr', hcall⟩
    rwa [heads_unique hw hmem hr']
  · intro hcall
    exact ⟨_, hmem, hcall⟩

/-- Where a span of a search starts, the matcher takes what the span names. -/
theorem exists_of_mem_findAll {m : Matcher} (adv : Advances m) {text : List Char} {s : Span}
    (h : s ∈ findAll m text) :
    ∃ prev, m prev (text.drop s.start) = some (text.drop s.stop) ∧
      text.drop s.start = s.slice text ++ text.drop s.stop := by
  obtain ⟨x, y, z, rfl, -, rfl, hm⟩ := mem_findAll adv h
  have hstart : (x ++ (y ++ z)).drop x.length = y ++ z := List.drop_left
  have hstop : (x ++ (y ++ z)).drop (x.length + y.length) = z := by
    rw [← List.append_assoc, ← List.length_append, List.drop_left]
  refine ⟨behind none x, ?_⟩
  unfold Span.slice
  rw [hstart, hstop, Nat.add_sub_cancel_left, List.take_left]
  exact ⟨hm, rfl⟩

/-- The heads of an indented call are those at the start of a text. -/
theorem mem_heads_of_indented {names : List String} {prev : Option Char} {text r : List Char}
    (h : r ∈ indentedHeads names prev text) : r ∈ heads names none (skipIndent text) :=
  mem_heads_iff.2 ⟨rfl, (mem_heads_iff.1 h).2⟩

theorem exists_of_singleLine {names : List String} {prev : Option Char} {text z : List Char}
    (h : singleLine names prev text = some z) :
    ∃ args after, args ++ ')' :: after ∈ heads names none (skipIndent text) ∧
      statementEnd after = some z ∧ afterEnding (args ++ ')' :: after) = some after := by
  unfold singleLine at h
  split at h
  · obtain ⟨r, hr, hz⟩ := List.exists_of_findSome?_eq_some h
    obtain ⟨after, hlast, hend⟩ := Option.bind_eq_some_iff.1 hz
    obtain ⟨args, rfl, -, hending⟩ := afterEnding_of_lastClose hlast hend
    exact ⟨args, after, mem_heads_of_indented hr, hend, hending⟩
  · cases h

theorem exists_of_nestedStatement {names : List String} {prev : Option Char} {text z : List Char}
    (h : nestedStatement names prev text = some z) :
    ∃ args after, args ++ ')' :: after ∈ heads names none (skipIndent text) ∧
      statementEnd after = some z ∧ afterEnding (args ++ ')' :: after) = some after ∧
      afterMatching 0 args = none := by
  unfold nestedStatement at h
  split at h
  · obtain ⟨r, hr, hz⟩ := List.exists_of_findSome?_eq_some h
    obtain ⟨args, after, rfl, hend, hending, hopen⟩ := afterEnding_of_groups hz
    exact ⟨args, after, mem_heads_of_indented hr, hend, hending, hopen 0 (by simp)⟩
  · cases h

/-- What a pass on statements deletes starts with the head of a call and ends with the first
statement end behind a parenthesis. It is exactly one call if and only if this is the parenthesis
that closes the call. The pass for several lines deletes nothing that stands behind the call: if
the parenthesis of the head is closed, it is by the last character. -/
theorem deleted_isCall_iff (methods : List String) (text : List Char) (s : Span)
    (hw : Wordy methods) :
    (s ∈ findAll (singleLine (soughtNames methods)) text ∨
        s ∈ findAll (nestedStatement (soughtNames methods)) text →
      ∃ rest ∈ heads (soughtNames methods) none (skipIndent (text.drop s.start)),
        (afterEnding rest).bind statementEnd = some (text.drop s.stop) ∧
        (IsCall (soughtNames methods) (bare (s.slice text)) ↔
          afterMatching 0 rest = afterEnding rest)) ∧
    (s ∈ findAll (nestedStatement (soughtNames methods)) text →
      ∀ rest ∈ heads (soughtNames methods) none (bare (s.slice text)),
        ∀ left, afterMatching 0 rest = some left → left = []) := by
  have hw' := wordy_soughtNames hw
  generalize soughtNames methods = names at hw' ⊢
  constructor
  · intro hs
    obtain ⟨args, after, hsplit, hr, hend, hending⟩ : ∃ args after,
        text.drop s.start = s.slice text ++ text.drop s.stop ∧
        args ++ ')' :: after ∈ heads names none (skipIndent (text.drop s.start)) ∧
        statementEnd after = some (text.drop s.stop) ∧
        afterEnding (args ++ ')' :: after) = some after := by
      rcases hs with hs | hs
      · obtain ⟨prev, hm, hsplit⟩ := exists_of_mem_findAll (covers_singleLine names).advances hs
        obtain ⟨args, after, hr, hend, hending⟩ := exists_of_singleLine hm
        exact ⟨args, after, hsplit, hr, hend, hending⟩
      · obtain ⟨prev, hm, hsplit⟩ :=
          exists_of_mem_findAll (covers_nestedStatement names).advances hs
        obtain ⟨args, after, hr, hend, hending, -⟩ := exists_of_nestedStatement hm
        exact ⟨args, after, hsplit, hr, hend, hending⟩
    refine ⟨args ++ ')' :: after, hr, by rw [hending]; exact hend, ?_⟩
    rw [hsplit] at hr
    rw [hending]
    exact (isCall_bare_iff hw' hr hend).2
  · intro hs rest hrest left hleft
    obtain ⟨prev, hm, hsplit⟩ := exists_of_mem_findAll (covers_nestedStatement names).advances hs
    obtain ⟨args, after, hr, hend, -, hopen⟩ := exists_of_nestedStatement hm
    rw [hsplit] at hr
    have hmem := (isCall_bare_iff hw' hr hend).1
    rw [eq_of_mem_heads hw' hrest, ← eq_of_mem_heads hw' hmem] at hleft
    exact eq_nil_of_afterMatching hopen hleft

/-- A call over two lines, with a call among its arguments. -/
def twoLineCall : List Char := "  console.log(f(x),\n  y) ;\nrun();\n".toList

theorem deleted_isCall_twoLineCall :
    ⟨0, 27⟩ ∈ findAll (nestedStatement (soughtNames ["log"])) twoLineCall ∧
      IsCall (soughtNames ["log"]) (bare (Span.slice ⟨0, 27⟩ twoLineCall)) := by
  have hw : Wordy ["log"] := wordy_of_all (by decide +kernel)
  have hs : ⟨0, 27⟩ ∈ findAll (nestedStatement (soughtNames ["log"])) twoLineCall := by
    decide +kernel
  obtain ⟨rest, hrest, -, hiff⟩ := (deleted_isCall_iff ["log"] twoLineCall ⟨0, 27⟩ hw).1 (.inr hs)
  have hall : ∀ rest ∈ heads (soughtNames ["log"]) none (skipIndent (twoLineCall.drop 0)),
      afterMatching 0 rest = afterEnding rest := by
    decide +kernel
  exact ⟨hs, hiff.2 (hall rest hrest)⟩

/-- A line with more than a call on it is deleted, and of a call with a line break behind its first
argument the lines from there on are left. -/
theorem deleted_not_isCall :
    (findAll (singleLine (soughtNames ["log"])) "console.log(a) || run(b)\nrest();\n".toList =
        [⟨0, 25⟩] ∧
      ¬ IsCall (soughtNames ["log"]) (bare "console.log(a) || run(b)\n".toList)) ∧
    (findAll (nestedStatement (soughtNames ["log"])) "console.log(f(x)\n, y);\nrest();\n".toList =
        [⟨0, 17⟩] ∧
      ¬ IsCall (soughtNames ["log"]) (bare "console.log(f(x)\n".toList)) := by
  decide +kernel

end ConsoleSweep.Removal
