/-
  Texts in which each call is a line of its own.

  A line of a `Listing` does not hold the keyword, or it is one call with nothing beside it
  but blanks and a semicolon. The arguments of a call may be anything that has no semicolon
  and no line break: the parenthesis that the pass on single lines goes to is the last one
  before the end of the line (`afterLastClose_args`). So this pass takes the lines that are
  calls, all of them and nothing else (`rewritten_written`), and leaves a text without the
  keyword (`removeCalls_listing`).
-/
import Mathlib.Data.Bool.AllAny
import ConsoleSweep.Proofs.Removal.Keyword

namespace ConsoleSweep.Removal

open ConsoleSweep.Text ConsoleSweep.Call

/-! ## The last parenthesis of a line -/

theorem afterLastClose_eq_some {text rest : List Char} (h : afterLastClose text = some rest) :
    ∃ args, text = args ++ ')' :: rest ∧ '\n' ∉ args := by
  induction text with
  | nil => cases h
  | cons c cs ih =>
    rw [afterLastClose] at h
    split at h
    · cases h
    · next hc =>
      split at h
      · next found =>
        obtain rfl := Option.some.inj h
        obtain ⟨args, rfl, hargs⟩ := ih found
        refine ⟨c :: args, rfl, List.not_mem_cons_of_ne_of_not_mem ?_ hargs⟩
        rintro rfl
        simp at hc
      · split at h
        · next hclose =>
          obtain rfl := Option.some.inj h
          exact ⟨[], by rw [hclose]; rfl, by simp⟩
        · cases h

/-- What ends a statement has no parenthesis on the same line. -/
theorem afterLastClose_of_statementEnd {text : List Char}
    (h : (statementEnd text).isSome = true) : afterLastClose text = none := by
  cases hlast : afterLastClose text with
  | none => rfl
  | some rest =>
    obtain ⟨args, rfl, hargs⟩ := afterLastClose_eq_some hlast
    rw [statementEnd_close hargs] at h
    cases h

/-- The parenthesis before the end of a statement is the last one, whatever the arguments. -/
theorem afterLastClose_args {args rest : List Char} (hargs : ∀ c ∈ args, c ≠ ';' ∧ c ≠ '\n')
    (hrest : (statementEnd rest).isSome = true) :
    afterLastClose (args ++ ')' :: rest) = some rest := by
  induction args with
  | nil => simp [afterLastClose, afterLastClose_of_statementEnd hrest]
  | cons c cs ih =>
    obtain ⟨hsemi, hbreak⟩ := hargs c List.mem_cons_self
    have hcs := ih fun d hd => hargs d (List.mem_cons_of_mem c hd)
    simp [afterLastClose, hsemi, hbreak, hcs]

/-! ## Lines -/

/-- A line that is a call. -/
structure CallLine (names : List String) where
  indent : List Char
  name : String
  args : List Char
  gap : List Char
  semicolon : List Char
  trail : List Char
  indent_blank : ∀ c ∈ indent, isIndent c = true
  name_mem : name ∈ names
  args_free : ∀ c ∈ args, c ≠ ';' ∧ c ≠ '\n'
  gap_blank : ∀ c ∈ gap, isIndent c = true
  semicolon_eq : semicolon = [] ∨ semicolon = [';']
  trail_blank : ∀ c ∈ trail, isIndent c = true

/-- What stands on a line: text without the keyword, or a call. -/
inductive Body (names : List String) where
  | plain (text : List Char) (one_line : '\n' ∉ text) (free : holds keyword text = false)
  | call (line : CallLine names)

/-- A line with its line break, if it has one. -/
structure Line (names : List String) where
  body : Body names
  newline : List Char
  newline_eq : newline = ['\n'] ∨ newline = ['\r', '\n'] ∨ newline = []

section

variable {names : List String}

/-- What follows the parenthesis that closes the call, with `z` behind the line. -/
def CallLine.rest (c : CallLine names) (z : List Char) : List Char :=
  c.gap ++ (c.semicolon ++ (c.trail ++ z))

/-- The call with `z` behind the line. -/
def CallLine.textWith (c : CallLine names) (z : List Char) : List Char :=
  c.indent ++ (headText [] [] [] c.name ++ (c.args ++ ')' :: c.rest z))

def Body.text : Body names → List Char
  | .plain text _ _ => text
  | .call c => c.textWith []

def Body.isCall : Body names → Bool
  | .plain .. => false
  | .call _ => true

def Line.text (l : Line names) : List Char :=
  l.body.text ++ l.newline

def Line.isCall (l : Line names) : Bool :=
  l.body.isCall

/-- The text that the lines make. -/
def written (lines : List (Line names)) : List Char :=
  lines.flatMap Line.text

@[simp] theorem written_nil : written ([] : List (Line names)) = [] := rfl

@[simp] theorem written_cons (l : Line names) (lines : List (Line names)) :
    written (l :: lines) = l.text ++ written lines := rfl

theorem CallLine.textWith_append (c : CallLine names) (x z : List Char) :
    c.textWith (x ++ z) = c.textWith x ++ z := by
  simp [textWith, rest]

/-- A line that is a call is found, and what is found ends with the line. -/
theorem CallLine.singleLine_eq (hw : Wordy names) (c : CallLine names) {prev : Option Char}
    (hp : startsLine prev = true) {newline z : List Char}
    (hn : newline = ['\n'] ∨ newline = ['\r', '\n'] ∨ newline = [] ∧ z = []) :
    singleLine names prev (c.textWith (newline ++ z)) = some z := by
  have hmem := mem_heads_headText hw c.name_mem (startsWord_behind_line hp c.indent_blank)
    (c.args ++ ')' :: c.rest (newline ++ z))
  have hend : statementEnd (c.rest (newline ++ z)) = some z :=
    statementEnd_of_parts c.gap_blank c.semicolon_eq c.trail_blank hn
  have hlast : afterLastClose (c.args ++ ')' :: c.rest (newline ++ z)) =
      some (c.rest (newline ++ z)) := afterLastClose_args c.args_free (by rw [hend]; rfl)
  unfold singleLine textWith
  rw [if_pos hp, findSome?_indentedHeads hw c.indent_blank hmem, hlast]
  exact hend

namespace Line

variable (l : Line names)

theorem exists_of_ended (h : l.newline ≠ []) : ∃ q, l.text = q ++ ['\n'] := by
  rcases l.newline_eq with e | e | e
  · exact ⟨l.body.text, by rw [text, e]⟩
  · exact ⟨l.body.text ++ ['\r'], by rw [text, e]; simp⟩
  · contradiction

theorem behind_text (h : l.newline ≠ []) (prev : Option Char) :
    behind prev l.text = some '\n' := by
  obtain ⟨q, hq⟩ := l.exists_of_ended h
  rw [hq, behind_concat]

theorem free (h : l.isCall = false) : holds keyword l.text = false := by
  obtain ⟨body, newline, hn⟩ := l
  cases body with
  | call c => cases h
  | plain text _ hfree =>
    change holds keyword (text ++ newline) = false
    rcases hn with rfl | rfl | rfl
    · exact holds_append_cons (by decide) hfree rfl
    · exact holds_append_cons (by decide) hfree (by decide)
    · rwa [List.append_nil]

theorem holds_text (h : l.isCall = true) : holds keyword l.text = true := by
  obtain ⟨body, newline, hn⟩ := l
  cases body with
  | plain => cases h
  | call c =>
    refine holds_iff.2 ⟨c.indent, '.' :: (c.name.toList ++ '(' ::
      (c.args ++ ')' :: c.rest newline)), ?_⟩
    simp [text, Body.text, CallLine.textWith, CallLine.rest, headText]

end Line

/-! ## The pass on single lines -/

theorem ended_of_cons {l : Line names} {lines : List (Line names)}
    (h : ∀ m ∈ (l :: lines).dropLast, m.newline ≠ []) :
    (lines = [] ∨ l.newline ≠ []) ∧ ∀ m ∈ lines.dropLast, m.newline ≠ [] := by
  cases lines with
  | nil => simp
  | cons m lines =>
    rw [List.dropLast_cons_cons] at h
    exact ⟨.inr (h l List.mem_cons_self), fun k hk => h k (List.mem_cons_of_mem l hk)⟩

/-- The pass on single lines takes the lines that are calls. -/
theorem rewritten_written (hw : Wordy names) {lines : List (Line names)}
    (ended : ∀ l ∈ lines.dropLast, l.newline ≠ []) {prev : Option Char}
    (hp : lines = [] ∨ startsLine prev = true) :
    rewritten (fun _ => []) (hits (singleLine names) prev (written lines)) (written lines) =
      written (lines.filter (!·.isCall)) := by
  induction lines generalizing prev with
  | nil => rfl
  | cons l lines ih =>
    obtain ⟨hbreak, hrest⟩ := ended_of_cons ended
    have hstart : startsLine prev = true := hp.resolve_left (List.cons_ne_nil l lines)
    have hnext : lines = [] ∨ startsLine (behind prev l.text) = true :=
      hbreak.imp_right fun h => by rw [l.behind_text h]; rfl
    have adv := (covers_singleLine names).advances
    cases hcall : l.isCall with
    | true =>
      obtain ⟨body, newline, hn⟩ := l
      cases body with
      | plain => cases hcall
      | call c =>
        have hend : newline = ['\n'] ∨ newline = ['\r', '\n'] ∨
            newline = [] ∧ written lines = [] := by
          refine hn.imp_right (Or.imp_right fun e => ⟨e, ?_⟩)
          rw [hbreak.resolve_right (fun h => h e), written_nil]
        have htext : Line.text ⟨.call c, newline, hn⟩ = c.textWith newline :=
          (c.textWith_append [] newline).symm
        have hm := c.singleLine_eq hw hstart hend
        rw [c.textWith_append, ← htext] at hm
        have hne : Line.text ⟨.call c, newline, hn⟩ ≠ [] := by
          intro hnil
          have hholds := Line.holds_text ⟨.call c, newline, hn⟩ rfl
          rw [hnil] at hholds
          cases hholds
        rw [written_cons, hits_of_match hne hm, List.filter_cons_of_neg (by rw [hcall]; decide),
          ← ih hrest hnext]
        exact rewritten_cons _ _ [] _ _
    | false =>
      rw [List.filter_cons_of_pos (by rw [hcall]; rfl), written_cons, written_cons,
        ← ih hrest hnext]
      rcases hbreak with rfl | hbreak
      · -- The last line may have no line break, but nothing follows it.
        have hshed := (covers_singleLine names).shed (fun _ => true) prev l.text
        rw [List.filter_true] at hshed
        rw [written_nil, List.append_nil, hits_nil, rewritten_nil, List.append_nil]
        exact hshed.eq_of_no_call (not_holdsCall_of_free (l.free hcall))
      · obtain ⟨q, hq⟩ := l.exists_of_ended hbreak
        have hfree := l.free hcall
        rw [hq] at hfree ⊢
        have hnone : ∀ prev text, indentedHeads names prev text = [] →
            singleLine names prev text = none := fun _ _ h => singleLine_eq_none fun _ => h
        rw [hits_append_of_free hnone (by decide) (by decide) hfree,
          rewritten_append (parts_hits adv _ _)]

/-- The lines that are left do not hold the keyword, nor do they make it where they meet. -/
theorem written_free {lines : List (Line names)} (ended : ∀ l ∈ lines.dropLast, l.newline ≠ []) :
    holds keyword (written (lines.filter (!·.isCall))) = false := by
  induction lines with
  | nil => rfl
  | cons l lines ih =>
    obtain ⟨hbreak, hrest⟩ := ended_of_cons ended
    cases hcall : l.isCall with
    | true =>
      rw [List.filter_cons_of_neg (by rw [hcall]; decide)]
      exact ih hrest
    | false =>
      have hfree := l.free hcall
      rw [List.filter_cons_of_pos (by rw [hcall]; rfl), written_cons]
      rcases hbreak with rfl | hbreak
      · rw [List.filter_nil, written_nil, List.append_nil]
        exact hfree
      · obtain ⟨q, hq⟩ := l.exists_of_ended hbreak
        rw [hq] at hfree ⊢
        rw [List.append_assoc]
        exact holds_append_cons (by decide) (holds_eq_false_of_append hfree) (ih hrest)

theorem holds_written {lines : List (Line names)} {l : Line names} (hl : l ∈ lines)
    (hcall : l.isCall = true) : holds keyword (written lines) = true := by
  obtain ⟨a, b, rfl⟩ := List.append_of_mem hl
  obtain ⟨x, z, e⟩ := holds_iff.1 (l.holds_text hcall)
  exact holds_iff.2 ⟨written a ++ x, z ++ written b, by simp [written, e]⟩

end

/-! ## Listings -/

/-- A text as its lines. The last one may have no line break. -/
structure Listing (names : List String) where
  lines : List (Line names)
  ended : ∀ l ∈ lines.dropLast, l.newline ≠ []

namespace Listing

variable {names : List String} (t : Listing names)

/-- The whole text. -/
def text : List Char :=
  written t.lines

/-- The lines that are no calls. -/
def kept : List Char :=
  written (t.lines.filter (!·.isCall))

end Listing

/-- A removal takes the lines that are calls and no others, and tidies the blank lines if there was
a call. -/
theorem removeCalls_listing (methods : List String) (hw : Wordy methods)
    (t : Listing (normalizeNames methods)) :
    removeCalls methods t.text =
      if t.lines.any (·.isCall) then normalizeBlankLines t.kept else t.text := by
  have hfree : holds keyword t.kept = false := written_free t.ended
  have hswept : swept methods t.text = t.kept := by
    have hcall : ¬ HoldsCall (normalizeNames methods) none t.kept := not_holdsCall_of_free hfree
    obtain ⟨-, hnested, hinline, -, -⟩ := passes_eq_self_of_no_call hcall
    refine swept_eq_of_free ?_ hfree
    have hsingle : removeSingle (normalizeNames methods) t.text = t.kept := by
      rw [removeSingle_eq]
      exact rewritten_written (wordy_normalizeNames hw) t.ended (.inr rfl)
    rw [hsingle, hnested, hinline]
  rw [removeCalls_eq, hswept]
  by_cases hany : t.lines.any (·.isCall) = true
  · obtain ⟨l, hl, hcall⟩ := List.any_eq_true.1 hany
    have hne : t.kept ≠ t.text := by
      intro e
      rw [e] at hfree
      exact absurd (holds_written hl hcall) (Bool.eq_false_iff.1 hfree)
    rw [if_neg hne, if_pos hany]
  · have hall : t.lines.filter (!·.isCall) = t.lines := by
      refine List.filter_eq_self.2 fun l hl => ?_
      cases hcall : l.isCall with
      | false => rfl
      | true => exact absurd (List.any_eq_true.2 ⟨l, hl, hcall⟩) hany
    have hsame : t.kept = t.text := congrArg written hall
    rw [if_pos hsame, if_neg hany]

/-- A call among plain lines, with calls and a semicolon in quotes on the lines around it. -/
def mixedLines : Listing (normalizeNames ["log", "logAll"]) where
  lines := [
    ⟨.plain "a(\";\");".toList (by decide) (by decide), ['\n'], .inl rfl⟩,
    ⟨.call {
      indent := "\t".toList
      name := "logAll"
      args := "f(x), \x7b y: console.log(')') \x7d".toList
      gap := " ".toList
      semicolon := ";".toList
      trail := "".toList
      indent_blank := List.all_eq_true.1 (by decide)
      name_mem := by decide +kernel
      args_free := List.all_iff_forall_prop.1 (by decide)
      gap_blank := List.all_eq_true.1 (by decide)
      semicolon_eq := .inr rfl
      trail_blank := List.all_eq_true.1 (by decide) }, "\r\n".toList, .inr (.inl rfl)⟩,
    ⟨.plain "b();\r".toList (by decide) (by decide), ['\n'], .inl rfl⟩,
    ⟨.call {
      indent := "".toList
      name := "log"
      args := "1) || (2".toList
      gap := "".toList
      semicolon := "".toList
      trail := " ".toList
      indent_blank := List.all_eq_true.1 (by decide)
      name_mem := by decide +kernel
      args_free := List.all_iff_forall_prop.1 (by decide)
      gap_blank := List.all_eq_true.1 (by decide)
      semicolon_eq := .inl rfl
      trail_blank := List.all_eq_true.1 (by decide) }, [], .inr (.inr rfl)⟩]
  ended := by simp

theorem removeCalls_listing_mixedLines :
    Wordy ["log", "logAll"] ∧
      removeCalls ["log", "logAll"] mixedLines.text = normalizeBlankLines mixedLines.kept ∧
      mixedLines.kept = "a(\";\");\nb();\r\n".toList := by
  have hw : Wordy ["log", "logAll"] := wordy_of_all (by decide +kernel)
  exact ⟨hw, removeCalls_listing ["log", "logAll"] hw mixedLines, by decide +kernel⟩

end ConsoleSweep.Removal
