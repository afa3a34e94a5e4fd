/-
  Comments as a reader finds them.

  `Reads` goes through a text by its places. What starts a comment is one, a string is stepped
  over up to the quote that closes it, and any other character, a quote that is not closed
  among them, is passed alone. The search for tokens finds the same: where it finds one that
  starts with a slash there is a comment (`commentAt_iff`), and where it finds another one
  there is a string (`stringAt_iff`). So a text can be read in one way only, and its comments
  are those of the search (`spans_as_read`).
-/
import Mathlib.Data.List.Basic
import Mathlib.Data.Nat.Find
import ConsoleSweep.Proofs.Comments.Token

namespace ConsoleSweep.Comment

open ConsoleSweep.Text

/-! ## Reading a text -/

/-- The characters `a` and `b` stand at place `i`. -/
def MarkAt (text : List Char) (i : Nat) (a b : Char) : Prop :=
  text[i]? = some a ∧ text[i + 1]? = some b

/-- A line break stands at place `i`. -/
def BreakAt (text : List Char) (i : Nat) : Prop :=
  text[i]? = some '\r' ∨ text[i]? = some '\n'

/-- A quote, in which strings stand. -/
def IsQuote (c : Char) : Prop :=
  c = '\'' ∨ c = '"' ∨ c = '`'

/-- A comment from place `i` to another place. A line comment goes up to the next line break or the
end of the text, without the break. A block comment goes through the first end mark that stands
wholly behind its opening mark; without one it goes to the end of the text. -/
inductive CommentAt (text : List Char) (i : Nat) : Nat → Prop where
  | line {j : Nat} : MarkAt text i '/' '/' → i + 2 ≤ j →
      (∀ k, i + 2 ≤ k → k < j → ¬ BreakAt text k) → BreakAt text j ∨ j = text.length →
      CommentAt text i j
  | closed {k : Nat} : MarkAt text i '/' '*' → i + 2 ≤ k → MarkAt text k '*' '/' →
      (∀ m, i + 2 ≤ m → m < k → ¬ MarkAt text m '*' '/') → CommentAt text i (k + 2)
  | unclosed : MarkAt text i '/' '*' → (∀ m, i + 2 ≤ m → ¬ MarkAt text m '*' '/') →
      CommentAt text i text.length

/-- From one place in a string to place `k`, without meeting the quote. A backslash takes the next
character with it; but for that, only a string in backticks goes on over a line break. -/
inductive Passes (text : List Char) (quote : Char) (k : Nat) : Nat → Prop where
  | here : Passes text quote k k
  | escape {i : Nat} : text[i]? = some '\\' → i + 1 < text.length →
      Passes text quote k (i + 2) → Passes text quote k i
  | plain {i : Nat} {c : Char} : text[i]? = some c → c ≠ quote → c ≠ '\\' →
      quote = '`' ∨ ¬ BreakAt text i → Passes text quote k (i + 1) → Passes text quote k i

/-- A string from place `i` to place `j`: a quote, and the same one where it is met next. -/
def StringAt (text : List Char) (i j : Nat) : Prop :=
  ∃ quote k, IsQuote quote ∧ text[i]? = some quote ∧ Passes text quote k (i + 1) ∧
    text[k]? = some quote ∧ j = k + 1

/-- Reading on from place `i`, these comments are found: what starts a comment is one, a string is
stepped over, and where neither starts the reading goes on at the next place. -/
inductive Reads (text : List Char) : Nat → List Span → Prop where
  | done : Reads text text.length []
  | comment {i j : Nat} {ss : List Span} : CommentAt text i j → Reads text j ss →
      Reads text i (⟨i, j⟩ :: ss)
  | string {i j : Nat} {ss : List Span} : StringAt text i j → Reads text j ss → Reads text i ss
  | other {i : Nat} {ss : List Span} : i < text.length → (∀ j, ¬ CommentAt text i j) →
      (∀ j, ¬ StringAt text i j) → Reads text (i + 1) ss → Reads text i ss

/-! ## What stands at a place -/

variable {text s w : List Char} {i j : Nat}

theorem markAt_iff {a b : Char} : MarkAt text i a b ↔ ∃ s, text.drop i = a :: b :: s := by
  constructor
  · intro ⟨ha, hb⟩
    obtain ⟨hi, e⟩ := List.getElem?_eq_some_iff.1 ha
    obtain ⟨hi', e'⟩ := List.getElem?_eq_some_iff.1 hb
    refine ⟨text.drop (i + 2), ?_⟩
    rw [List.drop_eq_getElem_cons hi, List.drop_eq_getElem_cons hi', e, e']
  · intro ⟨s, e⟩
    have h : ∀ k, text[i + k]? = (a :: b :: s)[k]? := fun k => by rw [← e, List.getElem?_drop]
    exact ⟨h 0, h 1⟩

theorem MarkAt.second_eq {a b c d : Char} (h : MarkAt text i a b)
    (e : text.drop i = c :: d :: s) : b = d := by
  obtain ⟨s', e'⟩ := markAt_iff.1 h
  rw [e] at e'
  exact (List.cons.inj (List.cons.inj e').2).1.symm

/-! ## Comments at a place -/

/-- Places behind a mark, as places of what stands behind it. -/
theorem getElem?_behind {a b : Char} (e : text.drop i = a :: b :: s) (k : Nat) :
    text[i + 2 + k]? = s[k]? := by
  have h : text[i + (2 + k)]? = (a :: b :: s)[2 + k]? := by rw [← e, List.getElem?_drop]
  rw [Nat.add_assoc, h, Nat.add_comm 2 k]
  rfl

theorem length_behind {a b : Char} (e : text.drop i = a :: b :: s) :
    text.length = i + 2 + s.length := by
  have h := congrArg List.length e
  simp only [List.length_drop, List.length_cons] at h
  omega

theorem breakAt_behind {a b : Char} (e : text.drop i = a :: b :: s) (k : Nat) :
    BreakAt text (i + 2 + k) ↔ BreakAt s k := by
  unfold BreakAt
  rw [getElem?_behind e]

theorem markAt_behind {a b : Char} (e : text.drop i = a :: b :: s) (k : Nat) {c d : Char} :
    MarkAt text (i + 2 + k) c d ↔ MarkAt s k c d := by
  unfold MarkAt
  rw [Nat.add_assoc (i + 2), getElem?_behind e, getElem?_behind e]

theorem breakAt_iff {c : Char} (h : text[i]? = some c) : BreakAt text i ↔ isBreak c = true := by
  simp [BreakAt, isBreak, h]

theorem le_length_of_end {n : Nat} (h : BreakAt s n ∨ n = s.length) : n ≤ s.length := by
  rcases h with (h | h) | h
  · exact Nat.le_of_lt (List.getElem?_eq_some_iff.1 h).1
  · exact Nat.le_of_lt (List.getElem?_eq_some_iff.1 h).1
  · exact Nat.le_of_eq h

/-- The first line break or the end of the text is where a line comment is left. -/
theorem dropWhile_of_first {n : Nat} (hfree : ∀ k < n, ¬ BreakAt s k)
    (hend : BreakAt s n ∨ n = s.length) : s.dropWhile (!isBreak ·) = s.drop n := by
  induction s generalizing n with
  | nil => simp
  | cons c cs ih =>
    have hc : BreakAt (c :: cs) 0 ↔ isBreak c = true := breakAt_iff rfl
    cases n with
    | zero =>
      have hbreak : isBreak c = true := hc.1 (hend.resolve_right (by simp))
      rw [List.dropWhile_cons_of_neg (by simp [hbreak])]
      rfl
    | succ n =>
      have hplain := hfree 0 (Nat.succ_pos n)
      rw [hc, Bool.not_eq_true] at hplain
      rw [List.dropWhile_cons_of_pos (by simp [hplain])]
      exact ih (fun k hk => hfree (k + 1) (Nat.succ_lt_succ hk)) (hend.imp id Nat.succ.inj)

theorem exists_first_end (s : List Char) :
    ∃ n, (∀ k < n, ¬ BreakAt s k) ∧ (BreakAt s n ∨ n = s.length) := by
  classical
  have h : ∃ n, BreakAt s n ∨ n = s.length := ⟨s.length, .inr rfl⟩
  exact ⟨Nat.find h, fun k hk hbreak => Nat.find_min h hk (.inl hbreak), Nat.find_spec h⟩

/-- The first end mark is where a block comment is left. -/
theorem afterBlock_of_first {k : Nat} (hk : MarkAt s k '*' '/')
    (hfirst : ∀ m < k, ¬ MarkAt s m '*' '/') : afterBlock s = s.drop (k + 2) := by
  fun_induction afterBlock s generalizing k with
  | case1 rest =>
    cases k with
    | zero => rfl
    | succ k => exact (hfirst 0 (Nat.succ_pos k) ⟨rfl, rfl⟩).elim
  | case2 c rest hne ih =>
    cases k with
    | zero =>
      obtain ⟨tail, e⟩ := markAt_iff.1 hk
      obtain ⟨hc, hrest⟩ := List.cons.inj e
      exact (hne tail hc hrest).elim
    | succ k => exact ih hk fun m hm => hfirst (m + 1) (Nat.succ_lt_succ hm)
  | case3 => cases hk.1

theorem afterBlock_of_none (hnone : ∀ m, ¬ MarkAt s m '*' '/') : afterBlock s = [] := by
  fun_induction afterBlock s with
  | case1 rest => exact (hnone 0 ⟨rfl, rfl⟩).elim
  | case2 c rest _ ih => exact ih fun m => hnone (m + 1)
  | case3 => rfl

theorem exists_first_mark_or_none (s : List Char) :
    (∃ k, MarkAt s k '*' '/' ∧ ∀ m < k, ¬ MarkAt s m '*' '/') ∨ ∀ m, ¬ MarkAt s m '*' '/' := by
  classical
  by_cases h : ∃ k, MarkAt s k '*' '/'
  · exact .inl ⟨Nat.find h, Nat.find_spec h, fun _ hm => Nat.find_min h hm⟩
  · exact .inr fun m hm => h ⟨m, hm⟩

/-- What a line comment leaves begins with the first break behind its mark. -/
theorem length_of_line (e : text.drop i = '/' :: '/' :: s) (h : CommentAt text i j) :
    j + (s.dropWhile (!isBreak ·)).length = text.length := by
  have hlen := length_behind e
  cases h with
  | line _ hj hfree hend =>
    obtain ⟨n, rfl⟩ := Nat.exists_eq_add_of_le hj
    have hend : BreakAt s n ∨ n = s.length := hend.imp (breakAt_behind e n).1 (by omega)
    have hfree : ∀ k < n, ¬ BreakAt s k := fun k hk hbreak =>
      hfree (i + 2 + k) (by omega) (by omega) ((breakAt_behind e k).2 hbreak)
    have hle := le_length_of_end hend
    rw [dropWhile_of_first hfree hend, List.length_drop]
    omega
  | closed hmark => exact absurd (hmark.second_eq e) (by decide)
  | unclosed hmark => exact absurd (hmark.second_eq e) (by decide)

theorem exists_line (e : text.drop i = '/' :: '/' :: s) : ∃ j, CommentAt text i j := by
  have hlen := length_behind e
  obtain ⟨n, hfree, hend⟩ := exists_first_end s
  refine ⟨i + 2 + n, .line (markAt_iff.2 ⟨s, e⟩) (by omega) (fun k hk hkn hbreak => ?_) ?_⟩
  · obtain ⟨k, rfl⟩ := Nat.exists_eq_add_of_le hk
    exact hfree k (by omega) ((breakAt_behind e k).1 hbreak)
  · exact hend.imp (breakAt_behind e n).2 (by omega)

/-- What a block comment leaves is what stands behind the first end mark behind its mark. -/
theorem length_of_block (e : text.drop i = '/' :: '*' :: s) (h : CommentAt text i j) :
    j + (afterBlock s).length = text.length := by
  have hlen := length_behind e
  cases h with
  | line hmark => exact absurd (hmark.second_eq e) (by decide)
  | closed _ hk hmark hfirst =>
    obtain ⟨k, rfl⟩ := Nat.exists_eq_add_of_le hk
    have hmark := (markAt_behind e k).1 hmark
    have hfirst : ∀ m < k, ¬ MarkAt s m '*' '/' := fun m hm hm' =>
      hfirst (i + 2 + m) (by omega) (by omega) ((markAt_behind e m).2 hm')
    have hlt := (List.getElem?_eq_some_iff.1 hmark.2).1
    rw [afterBlock_of_first hmark hfirst, List.length_drop]
    omega
  | unclosed _ hnone =>
    have hnone : ∀ m, ¬ MarkAt s m '*' '/' := fun m hm =>
      hnone (i + 2 + m) (by omega) ((markAt_behind e m).2 hm)
    rw [afterBlock_of_none hnone]
    rfl

theorem exists_block (e : text.drop i = '/' :: '*' :: s) : ∃ j, CommentAt text i j := by
  have hopen : MarkAt text i '/' '*' := markAt_iff.2 ⟨s, e⟩
  rcases exists_first_mark_or_none s with ⟨k, hk, hfirst⟩ | hnone
  · refine ⟨i + 2 + k + 2, .closed hopen (by omega) ((markAt_behind e k).2 hk) ?_⟩
    intro m hm hmk hm'
    obtain ⟨m, rfl⟩ := Nat.exists_eq_add_of_le hm
    exact hfirst m (by omega) ((markAt_behind e m).1 hm')
  · refine ⟨text.length, .unclosed hopen fun m hm hm' => ?_⟩
    obtain ⟨m, rfl⟩ := Nat.exists_eq_add_of_le hm
    exact hnone m ((markAt_behind e m).1 hm')

/-- There is a comment at the place, and every one ends where the same rest begins. -/
theorem commentAt_iff_of_length {n : Nat} (h : ∃ j, CommentAt text i j)
    (hlen : ∀ {j}, CommentAt text i j → j + n = text.length) :
    CommentAt text i j ↔ j + n = text.length := by
  refine ⟨hlen, fun hj => ?_⟩
  obtain ⟨j', h⟩ := h
  have hj' := hlen h
  obtain rfl : j' = j := by omega
  exact h

/-! ## Strings at a place -/

theorem drop_eq_cons_iff {c : Char} :
    text.drop i = c :: s ↔ text[i]? = some c ∧ text.drop (i + 1) = s := by
  constructor
  · intro e
    refine ⟨?_, ?_⟩
    · rw [← List.head?_drop, e]
      rfl
    · rw [← List.tail_drop, e]
      rfl
  · intro ⟨hc, hs⟩
    obtain ⟨hi, e⟩ := List.getElem?_eq_some_iff.1 hc
    rw [List.drop_eq_getElem_cons hi, e, hs]

/-- Whether a string in this quote has to be closed before the character. -/
def stops (quote c : Char) : Bool :=
  quote != '`' && isBreak c

variable {quote : Char}

theorem IsQuote.ne_backslash (hq : IsQuote quote) : quote ≠ '\\' := by
  rcases hq with rfl | rfl | rfl <;> decide

theorem IsQuote.ne_slash (hq : IsQuote quote) : quote ≠ '/' := by
  rcases hq with rfl | rfl | rfl <;> decide

theorem stops_iff {c : Char} (h : text[i]? = some c) :
    stops quote c = true ↔ ¬ (quote = '`' ∨ ¬ BreakAt text i) := by
  rw [stops, Bool.and_eq_true, bne_iff_ne, breakAt_iff h, not_or, not_not]

theorem afterQuote_quote (hq : quote ≠ '\\') (stop : Char → Bool) (s : List Char) :
    afterQuote quote stop (quote :: s) = some s := by
  rw [afterQuote, if_pos rfl]
  intro _ _ h _
  exact hq h

theorem afterQuote_plain {c : Char} {stop : Char → Bool} (hb : c ≠ '\\') (hq : c ≠ quote)
    (hs : stop c = false) (s : List Char) :
    afterQuote quote stop (c :: s) = afterQuote quote stop s := by
  rw [afterQuote, if_neg hq, if_neg (by simp [hb, hs])]
  intro _ _ h _
  exact hb h

/-- Where a string is left, its quote has been met, and met for the first time. -/
theorem exists_passes (h : afterQuote quote (stops quote) (text.drop i) = some w) :
    ∃ k, Passes text quote k i ∧ text[k]? = some quote ∧ text.drop (k + 1) = w := by
  generalize hs : text.drop i = s at h
  fun_induction afterQuote quote (stops quote) s generalizing i with
  | case1 c rest ih =>
    obtain ⟨hi, hs⟩ := drop_eq_cons_iff.1 hs
    obtain ⟨hi', hs⟩ := drop_eq_cons_iff.1 hs
    obtain ⟨k, hpass, hk⟩ := ih hs h
    exact ⟨k, .escape hi (List.getElem?_eq_some_iff.1 hi').1 hpass, hk⟩
  | case2 rest =>
    obtain ⟨hi, hs⟩ := drop_eq_cons_iff.1 hs
    exact ⟨i, .here, hi, hs.trans (Option.some.inj h)⟩
  | case3 => cases h
  | case4 c rest _ hc hend ih =>
    obtain ⟨hi, hs⟩ := drop_eq_cons_iff.1 hs
    obtain ⟨k, hpass, hk⟩ := ih hs h
    rw [Bool.or_eq_true, beq_iff_eq, not_or, stops_iff hi, not_not] at hend
    exact ⟨k, .plain hi hc hend.2 hend.1 hpass, hk⟩
  | case5 => cases h

theorem afterQuote_of_passes (hq : IsQuote quote) {k : Nat} (h : Passes text quote k i)
    (hk : text[k]? = some quote) :
    afterQuote quote (stops quote) (text.drop i) = some (text.drop (k + 1)) := by
  induction h with
  | here => rw [drop_eq_cons_iff.2 ⟨hk, rfl⟩, afterQuote_quote hq.ne_backslash]
  | escape hi hlt _ ih =>
    rw [drop_eq_cons_iff.2 ⟨hi, List.drop_eq_getElem_cons hlt⟩, afterQuote]
    exact ih
  | plain hi hc hb hend _ ih =>
    have hstop := (not_congr (stops_iff hi)).2 (not_not.2 hend)
    rw [drop_eq_cons_iff.2 ⟨hi, rfl⟩, afterQuote_plain hb hc (Bool.eq_false_iff.2 hstop)]
    exact ih

theorem token_quote (hq : IsQuote quote) (prev : Option Char) (s : List Char) :
    token prev (quote :: s) = afterQuote quote (stops quote) s := by
  rcases hq with rfl | rfl | rfl <;> rfl

theorem exists_quote_of_token {prev : Option Char} (h : token prev text = some w)
    (hslash : text.head? ≠ some '/') : ∃ quote s, IsQuote quote ∧ text = quote :: s := by
  unfold token at h
  split at h
  · exact absurd rfl hslash
  · exact absurd rfl hslash
  · next s => exact ⟨_, s, .inl rfl, rfl⟩
  · next s => exact ⟨_, s, .inr (.inl rfl), rfl⟩
  · next s => exact ⟨_, s, .inr (.inr rfl), rfl⟩
  · cases h

/-! ## The matcher of tokens -/

/-- A comment stands where the matcher of tokens finds something that starts with a slash. -/
theorem commentAt_iff : CommentAt text i j ↔
    (text.drop i).head? = some '/' ∧
      ∃ w, token none (text.drop i) = some w ∧ j + w.length = text.length := by
  have line : ∀ {s}, text.drop i = '/' :: '/' :: s →
      (CommentAt text i j ↔ j + (s.dropWhile (!isBreak ·)).length = text.length) := fun e =>
    commentAt_iff_of_length (exists_line e) (length_of_line e)
  have block : ∀ {s}, text.drop i = '/' :: '*' :: s →
      (CommentAt text i j ↔ j + (afterBlock s).length = text.length) := fun e =>
    commentAt_iff_of_length (exists_block e) (length_of_block e)
  constructor
  · intro h
    have hmark : (∃ s, text.drop i = '/' :: '/' :: s) ∨ ∃ s, text.drop i = '/' :: '*' :: s := by
      cases h with
      | line hmark => exact .inl (markAt_iff.1 hmark)
      | closed hmark => exact .inr (markAt_iff.1 hmark)
      | unclosed hmark => exact .inr (markAt_iff.1 hmark)
    rcases hmark with ⟨s, e⟩ | ⟨s, e⟩
    · have hj := (line e).1 h
      rw [e]
      exact ⟨rfl, _, rfl, hj⟩
    · have hj := (block e).1 h
      rw [e]
      exact ⟨rfl, _, rfl, hj⟩
  · intro ⟨hslash, w, hw, hj⟩
    unfold token at hw
    split at hw
    · next s e =>
      obtain rfl := Option.some.inj hw
      exact (line e).2 hj
    · next s e =>
      obtain rfl := Option.some.inj hw
      exact (block e).2 hj
    · next s e => simp [e] at hslash
    · next s e => simp [e] at hslash
    · next s e => simp [e] at hslash
    · cases hw

/-- A string stands where the matcher of tokens finds something else. -/
theorem stringAt_iff : StringAt text i j ↔
    (text.drop i).head? ≠ some '/' ∧
      ∃ w, token none (text.drop i) = some w ∧ j + w.length = text.length := by
  constructor
  · intro ⟨quote, k, hq, hi, hpass, hk, hj⟩
    have e := drop_eq_cons_iff.2 ⟨hi, rfl⟩
    refine ⟨?_, text.drop (k + 1), ?_, ?_⟩
    · rw [e]
      exact fun h => hq.ne_slash (Option.some.inj h)
    · rw [e, token_quote hq]
      exact afterQuote_of_passes hq hpass hk
    · have hlt := (List.getElem?_eq_some_iff.1 hk).1
      rw [List.length_drop]
      omega
  · intro ⟨hslash, w, hw, hj⟩
    obtain ⟨quote, s, hq, e⟩ := exists_quote_of_token hw hslash
    rw [e, token_quote hq] at hw
    obtain ⟨hi, rfl⟩ := drop_eq_cons_iff.1 e
    obtain ⟨k, hpass, hk, rfl⟩ := exists_passes hw
    have hlt := (List.getElem?_eq_some_iff.1 hk).1
    rw [List.length_drop] at hj
    exact ⟨quote, k, hq, hi, hpass, hk, by omega⟩

/-! ## The search and the reading -/

theorem hits_token (prev : Option Char) (text : List Char) :
    hits token prev text = hits token none text := by
  cases text <;> rfl

theorem commentHits_of_none {c : Char} {cs : List Char} (h : token none (c :: cs) = none) :
    commentHits (c :: cs) = commentHits cs := by
  unfold commentHits
  rw [hits_of_none h, hits_token]

theorem commentHits_of_token {y z : List Char} (hy : y ≠ []) (h : token none (y ++ z) = some z) :
    commentHits (y ++ z) =
      if (y ++ z).head? = some '/' then ⟨y ++ z, z⟩ :: commentHits z else commentHits z := by
  unfold commentHits
  rw [hits_of_match hy h, hits_token, List.filter_cons]
  simp only [beq_iff_eq]

/-- The comments that the search finds from place `i` on. -/
def spansFrom (text : List Char) (i : Nat) : List Span :=
  (commentHits (text.drop i)).map (Hit.span text.length)

theorem spansFrom_zero (text : List Char) : spansFrom text 0 = spans text :=
  (spans_eq text).symm

theorem spansFrom_length (text : List Char) : spansFrom text text.length = [] := by
  unfold spansFrom
  rw [List.drop_length]
  rfl

/-- A token goes forward, and the search goes on where it ends. -/
theorem split_of_token (h : token none (text.drop i) = some w) (hj : j + w.length = text.length) :
    i < j ∧ j ≤ text.length ∧ ∃ y, y ≠ [] ∧ text.drop i = y ++ text.drop j ∧ w = text.drop j := by
  obtain ⟨y, hy, e⟩ := advances_token none _ w h
  have hw : w = text.drop j := by
    have hsuffix : w <:+ text := (List.suffix_append y w).trans (e ▸ List.drop_suffix i text)
    rw [List.suffix_iff_eq_drop.1 hsuffix]
    congr 1
    omega
  have hlen := congrArg List.length e
  have hpos := List.length_pos_iff.2 hy
  rw [List.length_drop, List.length_append] at hlen
  refine ⟨by omega, by omega, y, hy, ?_, hw⟩
  rw [e, hw]

theorem spansFrom_of_comment (h : CommentAt text i j) :
    spansFrom text i = ⟨i, j⟩ :: spansFrom text j := by
  obtain ⟨hslash, w, hw, hj⟩ := commentAt_iff.1 h
  obtain ⟨hij, hle, y, hy, e, rfl⟩ := split_of_token hw hj
  unfold spansFrom
  rw [e] at hw hslash
  rw [e, commentHits_of_token hy hw, if_pos hslash, List.map_cons, ← e]
  congr 1
  simp only [Hit.span, List.length_drop, Span.mk.injEq]
  omega

theorem spansFrom_of_string (h : StringAt text i j) : spansFrom text i = spansFrom text j := by
  obtain ⟨hslash, w, hw, hj⟩ := stringAt_iff.1 h
  obtain ⟨hij, hle, y, hy, e, rfl⟩ := split_of_token hw hj
  unfold spansFrom
  rw [e] at hw hslash
  rw [e, commentHits_of_token hy hw, if_neg hslash]

theorem spansFrom_of_other (hi : i < text.length) (hc : ∀ j, ¬ CommentAt text i j)
    (hs : ∀ j, ¬ StringAt text i j) : spansFrom text i = spansFrom text (i + 1) := by
  -- Whatever the matcher found here would be a comment or a string.
  have hnone : token none (text.drop i) = none := by
    refine Option.eq_none_iff_forall_ne_some.2 fun w hw => ?_
    obtain ⟨y, hy, e⟩ := advances_token none _ w hw
    have hlen := congrArg List.length e
    rw [List.length_drop, List.length_append] at hlen
    have hj : text.length - w.length + w.length = text.length := by omega
    by_cases hslash : (text.drop i).head? = some '/'
    · exact hc _ (commentAt_iff.2 ⟨hslash, w, hw, hj⟩)
    · exact hs _ (stringAt_iff.2 ⟨hslash, w, hw, hj⟩)
  unfold spansFrom
  rw [List.drop_eq_getElem_cons hi] at hnone ⊢
  rw [commentHits_of_none hnone]

/-- Whatever is read from a place on is what the search finds from there on. -/
theorem eq_spansFrom {ss : List Span} (h : Reads text i ss) : ss = spansFrom text i := by
  induction h with
  | done => rw [spansFrom_length]
  | comment h _ ih => rw [spansFrom_of_comment h, ih]
  | string h _ ih => rw [spansFrom_of_string h, ih]
  | other hi hc hs _ ih => rw [spansFrom_of_other hi hc hs, ih]

/-- From every place the text can be read to its end, as each step of the reading goes forward. -/
theorem reads_spansFrom (text : List Char) (i : Nat) (hi : i ≤ text.length) :
    Reads text i (spansFrom text i) := by
  rcases Nat.lt_or_eq_of_le hi with hlt | rfl
  · by_cases hc : ∃ j, CommentAt text i j
    · obtain ⟨j, hc⟩ := hc
      obtain ⟨_, w, hw, hj⟩ := commentAt_iff.1 hc
      obtain ⟨hij, hle, -⟩ := split_of_token hw hj
      rw [spansFrom_of_comment hc]
      exact .comment hc (reads_spansFrom text j hle)
    by_cases hs : ∃ j, StringAt text i j
    · obtain ⟨j, hs⟩ := hs
      obtain ⟨_, w, hw, hj⟩ := stringAt_iff.1 hs
      obtain ⟨hij, hle, -⟩ := split_of_token hw hj
      rw [spansFrom_of_string hs]
      exact .string hs (reads_spansFrom text j hle)
    have hc := not_exists.1 hc
    have hs := not_exists.1 hs
    rw [spansFrom_of_other hlt hc hs]
    exact .other hlt hc hs (reads_spansFrom text (i + 1) hlt)
  · rw [spansFrom_length]
    exact .done
termination_by text.length - i

/-- The comments of a text are the matches of the pattern, from left to right, that start with a
slash. They are also what reading the text finds, and nothing else can be found by reading it. None
of them is empty, each ends before the next one starts, and all lie within the text. -/
theorem spans_as_read (text : List Char) :
    spans text =
        (findAll tokenPattern.first text).filter (fun s => text[s.start]? == some '/') ∧
      (∀ ss, Reads text 0 ss ↔ ss = spans text) ∧
      (∀ s ∈ spans text, s.start < s.stop ∧ s.stop ≤ text.length) ∧
      (spans text).Pairwise fun s t => s.start < t.start ∧ s.stop ≤ t.start := by
  obtain ⟨hpairs, hfull⟩ := apart_spans text
  refine ⟨?_, fun ss => ⟨fun h => ?_, ?_⟩, fun s hs => ⟨hfull s hs, stop_le_of_mem_spans hs⟩, ?_⟩
  · rw [← token_eq_first]
    rfl
  · rw [eq_spansFrom h, spansFrom_zero]
  · rintro rfl
    rw [← spansFrom_zero]
    exact reads_spansFrom text 0 (Nat.zero_le _)
  · refine hpairs.imp_of_mem fun {s t} hs _ hst => ?_
    have hs := hfull s hs
    exact ⟨by omega, hst⟩

/-- The first quote is not closed on its line, and the string behind it goes on over an escaped line
break; the second comment is not closed, as its marks share a star. -/
example : spans "it's // a\n'b\\\n// c' /*/ d".toList = [⟨5, 9⟩, ⟨20, 25⟩] := by decide +kernel

end ConsoleSweep.Comment
