/-
  The pattern of comments and strings.

  `tokenPattern` writes down what the search for comments looks for: a line comment, a block
  comment, or a string in one of the three quotes, in this order of preference. The matcher
  `token` takes the preferred way through it at every place (`token_eq_first`). So a line
  comment leaves the text from the line break on, a block comment what stands behind the
  first end mark, and a string what stands behind its quote; there is at most one way to read
  a string (`rests_bodyPattern_eq`).
-/
import ConsoleSweep.Proofs.Comments
import ConsoleSweep.Proofs.Text.Patterns

namespace ConsoleSweep.Comment

open ConsoleSweep.Text

/-! ## Patterns -/

/-- A line comment: its mark, and what stands before the line break. -/
def linePattern : Pattern :=
  (Pattern.exactly '/').seq ((Pattern.exactly '/').seq (.many (.one (!isBreak ·))))

/-- The end mark of a block comment, or the end of the text. -/
def endPattern : Pattern :=
  ((Pattern.exactly '*').seq (.exactly '/')).either .finish

/-- A block comment: its mark, and all up to the first end, with that. -/
def blockPattern : Pattern :=
  (Pattern.exactly '/').seq ((Pattern.exactly '*').seq ((Pattern.few .any).seq endPattern))

/-- What can stand in a string: a backslash with any character, or one character. -/
def unitPattern (quote : Char) (stop : Char → Bool) : Pattern :=
  ((Pattern.exactly '\\').seq .any).either (.one fun c => !(c == quote || c == '\\' || stop c))

/-- What stands in a string, and the quote behind it. -/
def bodyPattern (quote : Char) (stop : Char → Bool) : Pattern :=
  (Pattern.many (unitPattern quote stop)).seq (.exactly quote)

/-- A string: a quote, and what stands in it, up to the quote again. -/
def stringPattern (quote : Char) (stop : Char → Bool) : Pattern :=
  (Pattern.exactly quote).seq (bodyPattern quote stop)

/-- A comment or a string. -/
def tokenPattern : Pattern :=
  linePattern.either <| blockPattern.either <| (stringPattern '\'' isBreak).either <|
    (stringPattern '"' isBreak).either (stringPattern '`' fun _ => false)

/-! ## What a token leaves -/

theorem head?_rests_linePattern (s : List Char) :
    (linePattern.rests ('/' :: '/' :: s)).head? = some (s.dropWhile (!isBreak ·)) := by
  rw [← Pattern.head?_rests_many_one]
  simp [linePattern]

theorem rests_endPattern_cons {c : Char} {cs : List Char}
    (h : ∀ rest, c = '*' → cs = '/' :: rest → False) : endPattern.rests (c :: cs) = [] := by
  by_cases hc : c = '*'
  · cases cs with
    | nil => simp [endPattern, Pattern.rests]
    | cons d ds =>
      have hd : d ≠ '/' := fun hd => h ds hc (by rw [hd])
      simp [endPattern, Pattern.rests, hd]
  · simp [endPattern, Pattern.rests, hc]

/-- The first end behind the mark is found first. -/
theorem head?_rests_blockPattern (s : List Char) :
    (blockPattern.rests ('/' :: '*' :: s)).head? = some (afterBlock s) := by
  have hskip : (((Pattern.few .any).seq endPattern).rests s).head? = some (afterBlock s) := by
    fun_induction afterBlock s with
    | case1 rest =>
      rw [Pattern.rests_few_any_seq_cons]
      simp [endPattern]
    | case2 c rest hne ih =>
      rw [Pattern.rests_few_any_seq_cons, rests_endPattern_cons hne]
      exact ih
    | case3 =>
      rw [Pattern.rests_few_any_seq_nil]
      rfl
  rw [← hskip]
  simp [blockPattern]

variable {quote : Char} {stop : Char → Bool}

theorem rests_unitPattern_escape (c : Char) (cs : List Char) :
    (unitPattern quote stop).rests ('\\' :: c :: cs) = [cs] := by
  simp [unitPattern, Pattern.rests]

theorem rests_unitPattern_lone : (unitPattern quote stop).rests ['\\'] = [] := by
  simp [unitPattern, Pattern.rests]

theorem rests_unitPattern_of_ne {c : Char} (hc : c ≠ '\\') (cs : List Char) :
    (unitPattern quote stop).rests (c :: cs) = if c ≠ quote ∧ stop c = false then [cs] else [] := by
  simp [unitPattern, Pattern.rests, hc]

/-- The string goes on, or it is closed here. -/
theorem rests_bodyPattern (quote : Char) (stop : Char → Bool) (s : List Char) :
    (bodyPattern quote stop).rests s =
      ((unitPattern quote stop).rests s).flatMap (bodyPattern quote stop).rests ++
        (Pattern.exactly quote).rests s := by
  apply Pattern.rests_many_seq
  apply Pattern.takes_either
  · exact Pattern.takes_seq (Pattern.takes_exactly _) Pattern.takes_any
  · exact Pattern.takes_one _

/-- There is at most one way to read a string: up to the first quote that is not escaped. -/
theorem rests_bodyPattern_eq (hq : quote ≠ '\\') (stop : Char → Bool) (s : List Char) :
    (bodyPattern quote stop).rests s = (afterQuote quote stop s).toList := by
  fun_induction afterQuote quote stop s with
  | case1 c rest ih =>
    rw [rests_bodyPattern, rests_unitPattern_escape, List.flatMap_singleton, ih,
      Pattern.rests_exactly_cons, if_neg hq.symm, List.append_nil]
  | case2 rest =>
    rw [rests_bodyPattern, rests_unitPattern_of_ne hq, if_neg (fun h => h.1 rfl),
      Pattern.rests_exactly_cons, if_pos rfl]
    rfl
  | case3 c rest hpair hc hend =>
    rw [rests_bodyPattern, Pattern.rests_exactly_cons, if_neg hc, List.append_nil]
    by_cases hb : c = '\\'
    · -- No character comes after this backslash.
      cases rest with
      | nil =>
        rw [hb, rests_unitPattern_lone]
        rfl
      | cons d ds => exact (hpair d ds hb rfl).elim
    · have hstop : stop c = true := by simpa [hb] using hend
      rw [rests_unitPattern_of_ne hb, if_neg (by simp [hstop])]
      rfl
  | case4 c rest hpair hc hend ih =>
    simp only [Bool.or_eq_true, beq_iff_eq, not_or, Bool.not_eq_true] at hend
    rw [rests_bodyPattern, rests_unitPattern_of_ne hend.2, if_pos ⟨hc, hend.1⟩,
      List.flatMap_singleton, ih, Pattern.rests_exactly_cons, if_neg hc, List.append_nil]
  | case5 =>
    rw [rests_bodyPattern]
    rfl

theorem rests_stringPattern (hq : quote ≠ '\\') (stop : Char → Bool) (s : List Char) :
    (stringPattern quote stop).rests (quote :: s) = (afterQuote quote stop s).toList := by
  rw [stringPattern, Pattern.rests_seq, Pattern.rests_exactly_cons, if_pos rfl,
    List.flatMap_singleton, rests_bodyPattern_eq hq]

theorem rests_stringPattern_of_ne {c : Char} (h : c ≠ quote) (cs : List Char) :
    (stringPattern quote stop).rests (c :: cs) = [] :=
  Pattern.rests_exactly_seq_of_ne h _ cs

/-- A text that starts with no slash starts with no comment. -/
theorem rests_tokenPattern_of_ne {c : Char} (h : c ≠ '/') (cs : List Char) :
    tokenPattern.rests (c :: cs) =
      (stringPattern '\'' isBreak).rests (c :: cs) ++
        ((stringPattern '"' isBreak).rests (c :: cs) ++
          (stringPattern '`' fun _ => false).rests (c :: cs)) := by
  simp only [tokenPattern, linePattern, blockPattern, Pattern.rests_either,
    Pattern.rests_exactly_seq_of_ne h, List.nil_append]

/-- A slash that no other mark follows starts no token. -/
theorem rests_tokenPattern_slash {cs : List Char} (h₁ : cs.head? ≠ some '/')
    (h₂ : cs.head? ≠ some '*') : tokenPattern.rests ('/' :: cs) = [] := by
  have hline : linePattern.rests ('/' :: cs) = [] := by
    cases cs with
    | nil => rfl
    | cons d ds => simp [linePattern, show d ≠ '/' from fun h => h₁ (congrArg some h)]
  have hblock : blockPattern.rests ('/' :: cs) = [] := by
    cases cs with
    | nil => rfl
    | cons d ds => simp [blockPattern, show d ≠ '*' from fun h => h₂ (congrArg some h)]
  rw [tokenPattern, Pattern.rests_either, Pattern.rests_either, hline, hblock]
  rfl

/-- The matcher of tokens takes the preferred way through the pattern. -/
theorem token_eq_first : token = tokenPattern.first := by
  funext prev text
  show token prev text = (tokenPattern.rests text).head?
  unfold token
  split
  case h_1 s =>
    rw [tokenPattern, Pattern.rests_either, List.head?_append, head?_rests_linePattern]
    rfl
  case h_2 s =>
    have hline : linePattern.rests ('/' :: '*' :: s) = [] := by simp [linePattern]
    rw [tokenPattern, Pattern.rests_either, hline, List.nil_append, Pattern.rests_either,
      List.head?_append, head?_rests_blockPattern]
    rfl
  case h_6 hline hblock hsingle hdouble htick =>
    cases text with
    | nil => rfl
    | cons c cs =>
      by_cases hc : c = '/'
      · subst hc
        rw [rests_tokenPattern_slash]
        · rfl
        · intro h
          obtain ⟨s, rfl⟩ := List.head?_eq_some_iff.1 h
          exact hline s rfl
        · intro h
          obtain ⟨s, rfl⟩ := List.head?_eq_some_iff.1 h
          exact hblock s rfl
      · rw [rests_tokenPattern_of_ne hc, rests_stringPattern_of_ne fun h => hsingle cs (by rw [h]),
          rests_stringPattern_of_ne fun h => hdouble cs (by rw [h]),
          rests_stringPattern_of_ne fun h => htick cs (by rw [h])]
        rfl
  -- A quote leaves one of the three kinds of string.
  all_goals
    rw [rests_tokenPattern_of_ne (by decide), rests_stringPattern (by decide),
      rests_stringPattern_of_ne (by decide), rests_stringPattern_of_ne (by decide)]
    simp

end ConsoleSweep.Comment
