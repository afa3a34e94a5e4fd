/-
  Patterns, and the ways in which they match the start of a text.

  A pattern can match in several ways. `Pattern.rests` lists them by what they leave of the
  text, the preferred way first: a choice prefers its first branch, `many` prefers to go on
  and `few` to stop. A search takes the preferred way (`Pattern.first`).

  A repetition is opened one step at a time (`rests_many_seq`, `rests_few_seq`), provided that
  its body takes something of the text (`Takes`). A run of characters of one class then goes on
  to the first character outside of the class (`head?_rests_many_one`), and what comes after
  `few` is tried at one place after the other (`rests_few_any_seq_cons`).
-/
import Mathlib.Data.List.Basic
import ConsoleSweep.Text.Span

namespace ConsoleSweep.Text

/-- The ways to take a step again and again, the longest first. A step that takes nothing of the
text does not count. -/
def most (step : List Char → List (List Char)) (text : List Char) : List (List Char) :=
  (step text).flatMap (fun rest => if rest.length < text.length then most step rest else []) ++
    [text]
termination_by text.length

/-- The ways to take a step again and again, the shortest first. -/
def least (step : List Char → List (List Char)) (text : List Char) : List (List Char) :=
  text ::
    (step text).flatMap (fun rest => if rest.length < text.length then least step rest else [])
termination_by text.length

/-- Patterns over characters: a character of a class, the end of the text, one pattern after
another, a choice of two, and a repetition that is as long or as short as what follows allows. -/
inductive Pattern where
  | one (p : Char → Bool)
  | finish
  | seq (a b : Pattern)
  | either (a b : Pattern)
  | many (a : Pattern)
  | few (a : Pattern)

namespace Pattern

/-- This character. -/
def exactly (c : Char) : Pattern := one (· == c)

/-- Any character. -/
def any : Pattern := one fun _ => true

/-- What the ways to match leave of the text, the preferred way first. -/
def rests : Pattern → List Char → List (List Char)
  | one _, [] => []
  | one p, c :: cs => if p c then [cs] else []
  | finish, [] => [[]]
  | finish, _ :: _ => []
  | seq a b, text => (a.rests text).flatMap b.rests
  | either a b, text => a.rests text ++ b.rests text
  | many a, text => most a.rests text
  | few a, text => least a.rests text

/-- The matcher that takes the preferred way. -/
def first (a : Pattern) : Matcher :=
  fun _ text => (a.rests text).head?

variable {a b : Pattern}

@[simp] theorem rests_exactly_nil (d : Char) : (exactly d).rests [] = [] := rfl

@[simp] theorem rests_exactly_cons (c d : Char) (cs : List Char) :
    (exactly d).rests (c :: cs) = if c = d then [cs] else [] := by
  rw [exactly, rests]
  simp only [beq_iff_eq]

@[simp] theorem rests_any_nil : any.rests [] = [] := rfl

@[simp] theorem rests_any_cons (c : Char) (cs : List Char) : any.rests (c :: cs) = [cs] := rfl

@[simp] theorem rests_seq (a b : Pattern) (text : List Char) :
    (a.seq b).rests text = (a.rests text).flatMap b.rests := rfl

@[simp] theorem rests_either (a b : Pattern) (text : List Char) :
    (a.either b).rests text = a.rests text ++ b.rests text := rfl

theorem rests_exactly_seq_of_ne {c d : Char} (h : c ≠ d) (b : Pattern) (cs : List Char) :
    ((exactly d).seq b).rests (c :: cs) = [] := by
  rw [rests_seq, rests_exactly_cons, if_neg h]
  rfl

/-! ## Patterns that take something -/

/-- Every way to match takes something of the text. -/
def Takes (a : Pattern) : Prop :=
  ∀ text, ∀ rest ∈ a.rests text, rest.length < text.length

theorem takes_one (p : Char → Bool) : Takes (one p) := by
  intro text rest h
  cases text with
  | nil => cases h
  | cons c cs =>
    rw [rests] at h
    split at h
    · rw [List.mem_singleton.1 h]
      exact Nat.lt_succ_self _
    · cases h

theorem takes_any : Takes any := takes_one _

theorem takes_exactly (c : Char) : Takes (exactly c) := takes_one _

theorem takes_seq (ha : Takes a) (hb : Takes b) : Takes (a.seq b) := by
  intro text rest h
  rw [rests_seq] at h
  obtain ⟨mid, hmid, hrest⟩ := List.mem_flatMap.1 h
  have h₁ := ha text mid hmid
  have h₂ := hb mid rest hrest
  omega

theorem takes_either (ha : Takes a) (hb : Takes b) : Takes (a.either b) := by
  intro text rest h
  rw [rests_either] at h
  cases List.mem_append.1 h with
  | inl h => exact ha text rest h
  | inr h => exact hb text rest h

/-! ## Repetitions -/

theorem flatMap_shorter {xs : List (List Char)} {n : Nat} (h : ∀ x ∈ xs, x.length < n)
    (f : List Char → List (List Char)) :
    (xs.flatMap fun x => if x.length < n then f x else []) = xs.flatMap f :=
  List.flatMap_congr fun x hx => if_pos (h x hx)

/-- One time more, or not. -/
theorem rests_many (h : Takes a) (text : List Char) :
    (many a).rests text = (a.rests text).flatMap (many a).rests ++ [text] := by
  show most a.rests text = (a.rests text).flatMap (most a.rests) ++ [text]
  rw [most, flatMap_shorter (h text)]

/-- Not, or one time more. -/
theorem rests_few (h : Takes a) (text : List Char) :
    (few a).rests text = text :: (a.rests text).flatMap (few a).rests := by
  show least a.rests text = text :: (a.rests text).flatMap (least a.rests)
  rw [least, flatMap_shorter (h text)]

theorem rests_many_seq (h : Takes a) (b : Pattern) (text : List Char) :
    ((many a).seq b).rests text =
      (a.rests text).flatMap ((many a).seq b).rests ++ b.rests text := by
  rw [rests_seq, rests_many h, List.flatMap_append, List.flatMap_assoc, List.flatMap_singleton]
  rfl

theorem rests_few_seq (h : Takes a) (b : Pattern) (text : List Char) :
    ((few a).seq b).rests text =
      b.rests text ++ (a.rests text).flatMap ((few a).seq b).rests := by
  rw [rests_seq, rests_few h, List.flatMap_cons, List.flatMap_assoc]
  rfl

theorem rests_few_any_seq_nil (b : Pattern) : ((few any).seq b).rests [] = b.rests [] := by
  rw [rests_few_seq takes_any]
  exact List.append_nil _

/-- What follows is tried here, and then one character later. -/
theorem rests_few_any_seq_cons (b : Pattern) (c : Char) (cs : List Char) :
    ((few any).seq b).rests (c :: cs) = b.rests (c :: cs) ++ ((few any).seq b).rests cs := by
  rw [rests_few_seq takes_any, rests_any_cons, List.flatMap_singleton]

/-- A run of characters of a class goes on to the first character outside of it. -/
theorem head?_rests_many_one (p : Char → Bool) (text : List Char) :
    ((many (one p)).rests text).head? = some (text.dropWhile p) := by
  induction text with
  | nil =>
    rw [rests_many (takes_one p)]
    rfl
  | cons c cs ih =>
    rw [rests_many (takes_one p), rests, List.dropWhile_cons]
    split
    · rw [List.flatMap_singleton, List.head?_append, ih]
      rfl
    · rfl

end Pattern

end ConsoleSweep.Text
