/-
  Statements with one level of parentheses among their arguments.

  A `LoneCall` is a text with one call in it, which is a statement of its own. The two
  passes on statements end at the first parenthesis that ends a statement, and with one
  level of parentheses the pass for several lines always gets there (`afterGroups_eq`). So
  what a removal leaves of the text is what follows that parenthesis and the end of its
  line (`removeCalls_text`): the whole call goes if and only if no parenthesis among its
  arguments ends a line (`removeCalls_whole_iff`).
-/
import ConsoleSweep.Proofs.Removal.Keyword

namespace ConsoleSweep.Text

/-! ## Searches with one match -/

/-- A search that can only match at the place behind `x`, and does. -/
theorem hits_of_sole {m : Matcher} (adv : Advances m) {prev : Option Char} {x y z : List Char}
    (sole : ∀ u v, x ++ (y ++ z) = u ++ v → (m (behind prev u) v).isSome = true → u = x)
    (hy : y ≠ []) (hm : m (behind prev x) (y ++ z) = some z) :
    hits m prev (x ++ (y ++ z)) = [⟨y ++ z, z⟩] := by
  have hbefore : hits m prev (x ++ (y ++ z)) = hits m (behind prev x) (y ++ z) := by
    refine hits_append_of_none fun u v e hv => Option.not_isSome_iff_eq_none.1 fun hs => ?_
    have hplace := sole u (v ++ (y ++ z)) (by rw [e, List.append_assoc]) hs
    rw [hplace] at e
    exact hv (List.append_right_eq_self.1 e.symm)
  have hbehind : hits m (behind (behind prev x) y) z = [] := by
    refine (hits_eq_nil_iff adv).2 fun u v e => Option.not_isSome_iff_eq_none.1 fun hs => ?_
    rw [← behind_append, ← behind_append] at hs
    have hplace := sole (x ++ (y ++ u)) v (by rw [e]; simp) hs
    exact hy (List.append_eq_nil_iff.1 (List.append_right_eq_self.1 hplace)).1
  rw [hbefore, hits_of_match hy hm, hbehind]

/-- If a search can only match at one place, deleting its matches deletes that one, if it is
there. -/
theorem rewritten_of_sole {m : Matcher} (adv : Advances m) {prev : Option Char} {x text : List Char}
    (sole : ∀ u v, x ++ text = u ++ v → (m (behind prev u) v).isSome = true → u = x) :
    rewritten (fun _ => []) (hits m prev (x ++ text)) (x ++ text) =
      x ++ (m (behind prev x) text).getD text := by
  cases hm : m (behind prev x) text with
  | none =>
    have hnone : hits m prev (x ++ text) = [] := by
      refine (hits_eq_nil_iff adv).2 fun u v e => Option.not_isSome_iff_eq_none.1 fun hs => ?_
      obtain rfl := sole u v e hs
      obtain rfl := List.append_cancel_left e
      simp [hm] at hs
    rw [hnone]
    rfl
  | some z =>
    obtain ⟨y, hy, rfl⟩ := adv _ _ _ hm
    rw [hits_of_sole adv sole hy hm, rewritten_cons]
    rfl

end ConsoleSweep.Text

namespace ConsoleSweep.Removal

open ConsoleSweep.Text ConsoleSweep.Call

/-! ## One level of parentheses -/

/-- Characters that are no parentheses, and groups of them in parentheses. -/
inductive Shallow : List Char → Prop where
  | nil : Shallow []
  | other {c : Char} {cs : List Char} : c ≠ '(' → c ≠ ')' → Shallow cs → Shallow (c :: cs)
  | group {g cs : List Char} : '(' ∉ g → ')' ∉ g → Shallow cs → Shallow ('(' :: (g ++ ')' :: cs))

/-- Characters that are no parentheses are passed. -/
theorem afterGroups_append {opened : Bool} {g : List Char} (ho : '(' ∉ g) (hc : ')' ∉ g)
    (text : List Char) : afterGroups opened (g ++ text) = afterGroups opened text := by
  induction g with
  | nil => rfl
  | cons c cs ih =>
    have hne : c ≠ ')' := fun e => hc (e ▸ List.mem_cons_self)
    have hne' : (c == '(') = false := beq_false_of_ne fun e => ho (e ▸ List.mem_cons_self)
    rw [List.cons_append, afterGroups, if_neg hne, hne', Bool.or_false]
    exact ih (fun h => ho (List.mem_cons_of_mem c h)) fun h => hc (List.mem_cons_of_mem c h)

theorem afterEnding_append {g : List Char} (hc : ')' ∉ g) (text : List Char) :
    afterEnding (g ++ text) = afterEnding text := by
  induction g with
  | nil => rfl
  | cons c cs ih =>
    have hne : c ≠ ')' := fun e => hc (e ▸ List.mem_cons_self)
    rw [List.cons_append, afterEnding, if_neg fun h => hne h.1]
    exact ih fun h => hc (List.mem_cons_of_mem c h)

/-- With one level of parentheses, the pass for several lines gets to the first parenthesis that
ends a statement: each one before it closes a group. -/
theorem afterGroups_eq {args rest : List Char} (h : Shallow args)
    (hrest : (statementEnd rest).isSome = true) :
    afterGroups false (args ++ ')' :: rest) =
      (afterEnding (args ++ ')' :: rest)).bind statementEnd := by
  induction h with
  | nil =>
    obtain ⟨z, hz⟩ := Option.isSome_iff_exists.1 hrest
    simp [afterGroups, afterEnding, hz]
  | @other c cs ho hc _ ih =>
    have ho' : '(' ∉ [c] := by simpa using ho.symm
    have hc' : ')' ∉ [c] := by simpa using hc.symm
    have hgroups : afterGroups false ([c] ++ (cs ++ ')' :: rest)) =
        afterGroups false (cs ++ ')' :: rest) := afterGroups_append ho' hc' _
    have hending := afterEnding_append hc' (cs ++ ')' :: rest)
    rw [List.singleton_append] at hgroups hending
    rw [List.cons_append, hgroups, hending, ih]
  | @group g cs ho hc _ ih =>
    have hgroups : afterGroups false ('(' :: (g ++ ')' :: cs) ++ ')' :: rest) =
        afterGroups true (')' :: (cs ++ ')' :: rest)) := by
      have hpass : afterGroups true (g ++ ')' :: (cs ++ ')' :: rest)) =
          afterGroups true (')' :: (cs ++ ')' :: rest)) := afterGroups_append ho hc _
      simpa [afterGroups] using hpass
    have hending : afterEnding ('(' :: (g ++ ')' :: cs) ++ ')' :: rest) =
        afterEnding (')' :: (cs ++ ')' :: rest)) := by
      have hpass := afterEnding_append (g := '(' :: g) (by simpa using hc)
        (')' :: (cs ++ ')' :: rest))
      simpa using hpass
    rw [hgroups, hending, afterGroups, afterEnding]
    cases hend : statementEnd (cs ++ ')' :: rest) with
    | none => simpa [hend] using ih
    | some z => simp [hend]

/-- Whether the last parenthesis is the first one that ends a statement does not depend on what
follows it. -/
theorem afterEnding_eq_iff (args : List Char) {rest : List Char}
    (hrest : (statementEnd rest).isSome = true) :
    afterEnding (args ++ ')' :: rest) = some rest ↔ afterEnding (args ++ [')']) = some [] := by
  induction args with
  | nil =>
    have hnil : (statementEnd []).isSome = true := rfl
    simp [afterEnding, hrest, hnil]
  | cons c cs ih =>
    have hsame : (statementEnd (cs ++ ')' :: rest)).isSome =
        (statementEnd (cs ++ [')'])).isSome := by
      rw [Bool.eq_iff_iff, Option.isSome_iff_exists, Option.isSome_iff_exists]
      constructor <;> rintro ⟨z, hz⟩ <;> obtain ⟨u, w, -, -, -, hw⟩ := statementEnd_before_close hz
      · exact ⟨_, hw []⟩
      · exact ⟨_, hw rest⟩
    rw [List.cons_append, List.cons_append, afterEnding, afterEnding, hsame]
    split
    · refine ⟨fun h => ?_, fun h => ?_⟩
      · have hlen := congrArg List.length (Option.some.inj h)
        simp at hlen
        omega
      · simp at h
    · exact ih

theorem afterEnding_cases (args : List Char) {rest : List Char}
    (hrest : (statementEnd rest).isSome = true) :
    afterEnding (args ++ ')' :: rest) = some rest ∨
      ∃ a b, args = a ++ ')' :: b ∧ afterEnding (args ++ ')' :: rest) = some (b ++ ')' :: rest) ∧
        (statementEnd (b ++ ')' :: rest)).isSome = true := by
  induction args with
  | nil =>
    refine .inl ?_
    rw [List.nil_append, afterEnding, if_pos ⟨rfl, hrest⟩]
  | cons c cs ih =>
    rw [List.cons_append, afterEnding]
    split
    · next h => exact .inr ⟨[], cs, by rw [h.1]; rfl, rfl, h.2⟩
    · rcases ih with ih | ⟨a, b, rfl, hb, hend⟩
      · exact .inl ih
      · exact .inr ⟨c :: a, b, rfl, hb, hend⟩

/-! ## Lines -/

/-- The text is empty or ends with a line break. -/
def IsLines (text : List Char) : Prop :=
  text = [] ∨ ∃ lines, text = lines ++ ['\n']

theorem isLines_of_startsLine {x : List Char} (h : startsLine (behind none x) = true) :
    IsLines x := by
  rcases List.eq_nil_or_concat' x with rfl | ⟨w, c, rfl⟩
  · exact .inl rfl
  · rw [behind_concat] at h
    have hc : c = '\n' := by simpa [startsLine] using h
    exact .inr ⟨w, by rw [hc]⟩

theorem IsLines.startsLine {x : List Char} (h : IsLines x) :
    startsLine (behind none x) = true := by
  rcases h with rfl | ⟨w, rfl⟩
  · rfl
  · rw [behind_concat]
    rfl

/-- Lines with an indent behind them do not end inside of an indent. -/
theorem IsLines.eq_nil_of_append {x w : List Char} (h : IsLines (x ++ w))
    (hw : ∀ c ∈ w, isIndent c = true) : w = [] := by
  rcases List.eq_nil_or_concat' w with hnil | ⟨v, c, rfl⟩
  · exact hnil
  · have hc : c = '\n' := by
      rcases h with h | ⟨lines, h⟩
      · simp at h
      · rw [← List.append_assoc] at h
        exact List.singleton_inj.1 (List.append_inj' h rfl).2
    have hindent := hw c (by simp)
    rw [hc] at hindent
    exact absurd hindent (by decide)

theorem IsLines.eq_of_append {x y i j : List Char} (hx : IsLines x) (hy : IsLines y)
    (hi : ∀ c ∈ i, isIndent c = true) (hj : ∀ c ∈ j, isIndent c = true) (h : x ++ i = y ++ j) :
    x = y := by
  rcases List.append_eq_append_iff.1 h with ⟨w, rfl, rfl⟩ | ⟨w, rfl, rfl⟩
  · rw [hy.eq_nil_of_append fun c hc => hi c (List.mem_append_left j hc), List.append_nil]
  · rw [hx.eq_nil_of_append fun c hc => hj c (List.mem_append_left i hc), List.append_nil]

/-! ## Texts with one call -/

/-- A text that has the keyword once, in a statement that is one call of a named method with at most
one level of parentheses among its arguments. -/
structure LoneCall (names : List String) where
  before : List Char
  indent : List Char
  name : String
  args : List Char
  gap : List Char
  semicolon : List Char
  trail : List Char
  newline : List Char
  after : List Char
  before_lines : IsLines before
  before_free : holds keyword before = false
  indent_blank : ∀ c ∈ indent, isIndent c = true
  name_mem : name ∈ names
  args_shallow : Shallow args
  args_free : holds keyword args = false
  gap_blank : ∀ c ∈ gap, isIndent c = true
  semicolon_eq : semicolon = [] ∨ semicolon = [';']
  trail_blank : ∀ c ∈ trail, isIndent c = true
  newline_eq : newline = ['\n'] ∨ newline = ['\r', '\n'] ∨ newline = [] ∧ after = []
  after_free : holds keyword after = false

namespace LoneCall

variable {names : List String} (t : LoneCall names)

/-- What follows the parenthesis that closes the call. -/
def rest : List Char :=
  t.gap ++ (t.semicolon ++ (t.trail ++ (t.newline ++ t.after)))

/-- The statement and what follows it, from the call on. -/
def call : List Char :=
  headText [] [] [] t.name ++ (t.args ++ ')' :: t.rest)

/-- The whole text. -/
def text : List Char :=
  t.before ++ (t.indent ++ t.call)

/-- No parenthesis among the arguments ends a statement. -/
def Whole : Prop :=
  afterEnding (t.args ++ [')']) = some []

instance : Decidable t.Whole :=
  inferInstanceAs (Decidable (afterEnding (t.args ++ [')']) = some []))

theorem statementEnd_rest : statementEnd t.rest = some t.after :=
  statementEnd_of_parts t.gap_blank t.semicolon_eq t.trail_blank t.newline_eq

theorem not_mem_keyword_of_isIndent {c : Char} (h : isIndent c = true) : c ∉ keyword := by
  intro hc
  have hall : ∀ c ∈ keyword, (!isIndent c) = true := List.all_eq_true.1 (by decide)
  exact absurd h (by simpa using hall c hc)

/-- The keyword is not in what follows the parenthesis of the head. -/
theorem args_rest_free : holds keyword (t.args ++ ')' :: t.rest) = false := by
  have hbetween : ∀ c ∈ t.gap ++ (t.semicolon ++ (t.trail ++ t.newline)), c ∉ keyword := by
    intro c hc
    simp only [List.mem_append] at hc
    rcases hc with hc | hc | hc | hc
    · exact not_mem_keyword_of_isIndent (t.gap_blank c hc)
    · rcases t.semicolon_eq with e | e <;> rw [e] at hc
      · cases hc
      · rw [List.mem_singleton.1 hc]
        decide
    · exact not_mem_keyword_of_isIndent (t.trail_blank c hc)
    · rcases t.newline_eq with e | e | ⟨e, -⟩ <;> rw [e] at hc
      · rw [List.mem_singleton.1 hc]
        decide
      · simp only [List.mem_cons, List.not_mem_nil, or_false] at hc
        rcases hc with rfl | rfl <;> decide
      · cases hc
  have hrest : holds keyword t.rest = false := by
    have hfree := holds_append_of_not_mem hbetween t.after_free
    simpa [rest] using hfree
  exact holds_append_cons (by decide) t.args_free hrest

/-- What is before the statement does not make the keyword with what follows. -/
theorem before_append_free {z : List Char} (hz : holds keyword z = false) :
    holds keyword (t.before ++ z) = false := by
  rcases t.before_lines with e | ⟨lines, e⟩
  · rw [e]
    exact hz
  · have hlines : holds keyword lines = false := holds_eq_false_of_append (e ▸ t.before_free)
    rw [e, List.append_assoc]
    exact holds_append_cons (by decide) hlines hz

theorem behind_before (w : List Char) (hw : ∀ c ∈ w, isIndent c = true) :
    startsWord (behind none (t.before ++ w)) = true := by
  rw [behind_append]
  exact startsWord_behind_line t.before_lines.startsLine hw

/-- The head of the call. -/
theorem mem_heads_call (hw : Wordy names) {prev : Option Char} (hp : startsWord prev = true) :
    t.args ++ ')' :: t.rest ∈ heads names prev t.call :=
  mem_heads_headText hw t.name_mem hp _

/-- What leads up to the call does not end in a letter of the keyword. -/
theorem not_mem_keyword_of_last {q : List Char} {c : Char} (h : t.before ++ t.indent = q ++ [c]) :
    c ∉ keyword := by
  have hstarts := t.behind_before t.indent t.indent_blank
  rw [h, behind_concat] at hstarts
  exact not_mem_keyword_of_startsWord hstarts

/-- No other head is in the text. -/
theorem eq_of_mem_heads_at (hw : Wordy names) {x z r : List Char} (e : t.text = x ++ z)
    (hr : r ∈ heads names (behind none x) z) : x = t.before ++ t.indent := by
  rw [text, ← List.append_assoc] at e
  rcases List.append_eq_append_iff.1 e with ⟨w, rfl, hz⟩ | ⟨w, hx, rfl⟩
  · cases w with
    | nil => exact List.append_nil _
    | cons c w =>
      -- The second head would start behind the first one, where the keyword does not stand.
      have hcall := t.mem_heads_call hw (t.behind_before _ t.indent_blank)
      rw [hz] at hcall
      rw [behind_append] at hr
      have hlen := length_le_of_mem_heads hw (by simp) hcall hr
      have hsuffix : z <:+ t.args ++ ')' :: t.rest := by
        refine List.suffix_of_suffix_length_le ?_ ⟨headText [] [] [] t.name, rfl⟩ hlen
        exact ⟨c :: w, hz.symm⟩
      obtain ⟨v, hv⟩ := hsuffix
      have hfree : holds keyword z = false := holds_eq_false_of_suffix (hv ▸ t.args_rest_free)
      exact absurd ⟨[], z, r, rfl, hr⟩ (not_holdsCall_of_free hfree)
  · rcases List.eq_nil_or_concat' w with rfl | ⟨w, c, rfl⟩
    · rw [hx, List.append_nil]
    · -- The keyword would start before the call, and it cannot go on into it.
      have hlast : t.before ++ t.indent = x ++ w ++ [c] := by rw [hx, List.append_assoc]
      have hindent : holds keyword (t.before ++ t.indent) = false := by
        refine t.before_append_free ?_
        have hfree := holds_append_of_not_mem (z := [])
          (fun c hc => not_mem_keyword_of_isIndent (t.indent_blank c hc))
          (rfl : holds keyword [] = false)
        rwa [List.append_nil] at hfree
      rw [hlast] at hindent
      have hapart : ¬ keyword <+: w ++ [c] ++ t.call :=
        not_isPrefix_append (t.not_mem_keyword_of_last hlast) hindent (List.append_assoc x w [c])
          (by simp)
      exact absurd (isPrefix_of_mem_heads hr) hapart

theorem skipIndent_call : skipIndent (t.indent ++ t.call) = t.call := by
  rw [skipIndent_append t.indent_blank]
  exact skipIndent_cons_of_not (by decide) _

/-- Whatever looks for an indented head at the start of a line finds that of the call. -/
theorem eq_before_of_indented (hw : Wordy names) {f : List Char → Option (List Char)}
    {u v : List Char} (e : t.text = u ++ v)
    (h : (if startsLine (behind none u) then (indentedHeads names (behind none u) v).findSome? f
      else none).isSome = true) : u = t.before := by
  split at h
  · next hu =>
    obtain ⟨z, hz⟩ := Option.isSome_iff_exists.1 h
    obtain ⟨r, hr, -⟩ := List.exists_of_findSome?_eq_some hz
    have hr' := mem_heads_behind_indent hr
    rw [← behind_append] at hr'
    have hplace := t.eq_of_mem_heads_at hw (x := u ++ v.takeWhile isIndent) (z := skipIndent v)
      (by rw [List.append_assoc, skipIndent_split, e]) hr'
    exact (isLines_of_startsLine hu).eq_of_append t.before_lines (isIndent_takeWhile v)
      t.indent_blank hplace
  · cases h

/-- What the removal leaves from the statement on. -/
theorem exists_left : ∃ left,
    (afterEnding (t.args ++ ')' :: t.rest)).bind statementEnd = some left ∧
    left <:+ t.args ++ ')' :: t.rest ∧ (t.Whole → left = t.after) ∧
    (¬ t.Whole → ∃ w, left = w ++ ')' :: t.rest) := by
  have hrest : (statementEnd t.rest).isSome = true := by rw [t.statementEnd_rest]; rfl
  have hiff := afterEnding_eq_iff t.args hrest
  rcases afterEnding_cases t.args hrest with h | ⟨a, b, hargs, h, hend⟩
  · refine ⟨t.after, by rw [h]; exact t.statementEnd_rest, ?_, fun _ => rfl,
      fun hnot => absurd (hiff.1 h) hnot⟩
    exact ⟨t.args ++ ')' :: (t.gap ++ (t.semicolon ++ (t.trail ++ t.newline))), by simp [rest]⟩
  · obtain ⟨z, hz⟩ := Option.isSome_iff_exists.1 hend
    obtain ⟨u, w, rfl, -, rfl, -⟩ := statementEnd_before_close hz
    refine ⟨w ++ ')' :: t.rest, by rw [h]; exact hz, ?_, fun hwhole => ?_, fun _ => ⟨w, rfl⟩⟩
    · exact ⟨a ++ ')' :: u, by rw [hargs]; simp⟩
    · rw [hiff.2 hwhole] at h
      have hlen := congrArg List.length (Option.some.inj h)
      simp at hlen
      omega

theorem singleLine_call (hw : Wordy names) {z : List Char}
    (h : singleLine names (behind none t.before) (t.indent ++ t.call) = some z) :
    (afterEnding (t.args ++ ')' :: t.rest)).bind statementEnd = some z := by
  obtain ⟨args, after, hr, hend, hending⟩ := exists_of_singleLine h
  rw [t.skipIndent_call] at hr
  have hmem : t.args ++ ')' :: t.rest ∈ heads names none t.call := t.mem_heads_call hw rfl
  rw [heads_unique hw hmem hr, hending]
  exact hend

theorem nestedStatement_call (hw : Wordy names) :
    nestedStatement names (behind none t.before) (t.indent ++ t.call) =
      (afterEnding (t.args ++ ')' :: t.rest)).bind statementEnd := by
  have hrest : (statementEnd t.rest).isSome = true := by rw [t.statementEnd_rest]; rfl
  have hmem : t.args ++ ')' :: t.rest ∈
      heads names (behind (behind none t.before) t.indent) t.call := by
    refine t.mem_heads_call hw ?_
    rw [← behind_append]
    exact t.behind_before _ t.indent_blank
  rw [← afterGroups_eq t.args_shallow hrest]
  unfold nestedStatement
  rw [if_pos t.before_lines.startsLine, findSome?_indentedHeads hw t.indent_blank hmem]

/-- The two passes on statements leave what follows the first parenthesis that ends a statement. -/
theorem removeNested_removeSingle (hw : Wordy names) {left : List Char}
    (hleft : (afterEnding (t.args ++ ')' :: t.rest)).bind statementEnd = some left)
    (hfree : holds keyword (t.before ++ left) = false) :
    removeNested names (removeSingle names t.text) = t.before ++ left := by
  have hsingle : removeSingle names t.text = t.before ++
      (singleLine names (behind none t.before) (t.indent ++ t.call)).getD (t.indent ++ t.call) := by
    rw [removeSingle_eq]
    exact rewritten_of_sole (covers_singleLine names).advances fun u v e hs =>
      t.eq_before_of_indented hw e hs
  have hnested : removeNested names t.text = t.before ++
      (nestedStatement names (behind none t.before) (t.indent ++ t.call)).getD
        (t.indent ++ t.call) := by
    rw [removeNested_eq]
    exact rewritten_of_sole (covers_nestedStatement names).advances fun u v e hs =>
      t.eq_before_of_indented hw e hs
  rw [t.nestedStatement_call hw, hleft, Option.getD_some] at hnested
  cases hm : singleLine names (behind none t.before) (t.indent ++ t.call) with
  | none =>
    rw [hm] at hsingle
    rw [hsingle]
    exact hnested
  | some z =>
    obtain rfl : left = z := Option.some.inj (hleft.symm.trans (t.singleLine_call hw hm))
    rw [hsingle, hm]
    exact (passes_eq_self_of_no_call (not_holdsCall_of_free hfree)).2.1

end LoneCall

/-- Of a text with one call, the removal leaves what is before it and what follows the first
parenthesis that ends a statement. -/
theorem removeCalls_text {methods : List String} (hw : Wordy methods)
    (t : LoneCall (normalizeNames methods)) {left : List Char}
    (hleft : (afterEnding (t.args ++ ')' :: t.rest)).bind statementEnd = some left)
    (hsuffix : left <:+ t.args ++ ')' :: t.rest) :
    removeCalls methods t.text = normalizeBlankLines (t.before ++ left) := by
  have hfree : holds keyword (t.before ++ left) = false := by
    obtain ⟨w, e⟩ := hsuffix
    exact t.before_append_free (holds_eq_false_of_suffix (e ▸ t.args_rest_free))
  have hpasses : removeInlineOnce (normalizeNames methods) (removeNested (normalizeNames methods)
      (removeSingle (normalizeNames methods) t.text)) = t.before ++ left := by
    rw [t.removeNested_removeSingle (wordy_normalizeNames hw) hleft hfree]
    exact (passes_eq_self_of_no_call (not_holdsCall_of_free hfree)).2.2.1
  have hne : t.before ++ left ≠ t.text := by
    intro e
    have hlen := congrArg List.length e
    have hle := hsuffix.length_le
    simp only [LoneCall.text, LoneCall.call, List.length_append, headText, keyword_eq] at hlen hle
    simp at hlen hle
    omega
  rw [removeCalls_eq, swept_eq_of_free hpasses hfree, if_neg hne]

/-- A statement with at most one level of parentheses among its arguments is removed whole if and
only if none of these parentheses ends a statement. -/
theorem removeCalls_whole_iff (methods : List String) (hw : Wordy methods)
    (t : LoneCall (normalizeNames methods)) :
    removeCalls methods t.text = normalizeBlankLines (t.before ++ t.after) ↔ t.Whole := by
  obtain ⟨left, hleft, hsuffix, hwhole, hpart⟩ := t.exists_left
  rw [removeCalls_text hw t hleft hsuffix]
  constructor
  · intro e
    by_contra hnot
    -- What is left of the call has a parenthesis, and tidying blank lines does not take it away.
    obtain ⟨w, rfl⟩ := hpart hnot
    have hweight := congrArg weight e
    rw [weight_normalizeBlankLines, weight_normalizeBlankLines] at hweight
    have hclose : weight [')'] = 1 := by decide
    have hsplit : w ++ ')' :: t.rest = w ++ ([')'] ++ (t.gap ++ (t.semicolon ++ (t.trail ++
        (t.newline ++ t.after))))) := rfl
    rw [hsplit] at hweight
    simp only [weight_append] at hweight
    omega
  · intro h
    rw [hwhole h]

/-- A call over two lines, with a call among its arguments that does not end its line. -/
def twoLines : LoneCall (normalizeNames ["log"]) where
  before := "a();\n".toList
  indent := "  ".toList
  name := "log"
  args := "f(x),\n y".toList
  gap := []
  semicolon := [';']
  trail := []
  newline := ['\n']
  after := "b();\n".toList
  before_lines := .inr ⟨"a();".toList, rfl⟩
  before_free := by decide
  indent_blank := List.all_eq_true.1 (by decide)
  name_mem := by decide +kernel
  args_shallow :=
    .other (by decide) (by decide) <| .group (g := ['x']) (by decide) (by decide) <|
    .other (by decide) (by decide) <| .other (by decide) (by decide) <|
    .other (by decide) (by decide) <| .other (by decide) (by decide) .nil
  args_free := by decide
  gap_blank := by simp
  semicolon_eq := .inr rfl
  trail_blank := by simp
  newline_eq := .inl rfl
  after_free := by decide

theorem removeCalls_whole_twoLines :
    Wordy ["log"] ∧ removeCalls ["log"] "a();\n  console.log(f(x),\n y);\nb();\n".toList =
      normalizeBlankLines "a();\nb();\n".toList := by
  have hw : Wordy ["log"] := wordy_of_all (by decide +kernel)
  exact ⟨hw, (removeCalls_whole_iff ["log"] hw twoLines).2 (by decide +kernel)⟩

/-- The same call with its line broken before the comma. -/
def brokenLine : LoneCall (normalizeNames ["log"]) :=
  { twoLines with
    args := "f(x)\n, y".toList
    args_shallow :=
      .other (by decide) (by decide) <| .group (g := ['x']) (by decide) (by decide) <|
      .other (by decide) (by decide) <| .other (by decide) (by decide) <|
      .other (by decide) (by decide) <| .other (by decide) (by decide) .nil
    args_free := by decide }

/-- Only the first line of the call is removed. -/
theorem removeCalls_not_whole :
    removeCalls ["log"] brokenLine.text = "a();\n, y);\nb();\n".toList ∧
      removeCalls ["log"] brokenLine.text ≠
        normalizeBlankLines (brokenLine.before ++ brokenLine.after) := by
  decide +kernel

end ConsoleSweep.Removal
