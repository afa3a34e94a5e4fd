/-
  Spans of a text, searches for them and their replacement.

  A matcher looks at one place of a text: it is given the character before the
  place and the text from there on, and answers with the text after the match.
  `findAll` runs one from left to right; a search goes on behind the match it
  found, so the spans it lists do not overlap. `splice` writes each span anew and
  `cut` deletes it.

  `insideAny` finds a position among sorted spans by halving; `Covered` is the
  plain membership it stands for.
-/
namespace ConsoleSweep.Text

/-- The places from `start` up to, but not including, `stop`. -/
structure Span where
  start : Nat
  stop : Nat
  deriving DecidableEq, Repr

/-- The part of the text that the span names. -/
def Span.slice (s : Span) (text : List Char) : List Char :=
  (text.drop s.start).take (s.stop - s.start)

/-- A search at one place: from the character before and the text there, the text after a match. -/
abbrev Matcher := Option Char → List Char → Option (List Char)

/-- `findAll` from place `i`, with `skip` characters of the last match still to pass. -/
def findFrom (m : Matcher) : Nat → Nat → Option Char → List Char → List Span
  | _, _, _, [] => []
  | skip + 1, i, _, c :: cs => findFrom m skip (i + 1) (some c) cs
  | 0, i, prev, c :: cs =>
    match m prev (c :: cs) with
    | none => findFrom m 0 (i + 1) (some c) cs
    | some rest =>
      ⟨i, i + (cs.length + 1 - rest.length)⟩ ::
        findFrom m (cs.length - rest.length) (i + 1) (some c) cs

/-- The matches of `m`, leftmost first, each searched for behind the one before. -/
def findAll (m : Matcher) (text : List Char) : List Span :=
  findFrom m 0 0 none text

/-- `splice` from place `i`, for spans that start there or later. -/
def spliceFrom (f : List Char → List Char) : Nat → List Span → List Char → List Char
  | _, _, [] => []
  | _, [], cs => cs
  | i, s :: ss, c :: cs =>
    if i < s.start then c :: spliceFrom f (i + 1) (s :: ss) cs
    else
      (if i = s.start then f ((c :: cs).take (s.stop - s.start)) else []) ++
        (if i + 1 < s.stop then spliceFrom f (i + 1) (s :: ss) cs
         else spliceFrom f (i + 1) ss cs)

/-- The text with `f` applied to the part under each span; the spans are sorted and disjoint. -/
def splice (f : List Char → List Char) (spans : List Span) (text : List Char) : List Char :=
  spliceFrom f 0 spans text

/-- The text without the parts under the spans. -/
def cut (spans : List Span) (text : List Char) : List Char :=
  splice (fun _ => []) spans text

/-- Place `i` lies under one of the spans. -/
def Covered (spans : List Span) (i : Nat) : Prop :=
  ∃ s ∈ spans, s.start ≤ i ∧ i < s.stop

/-- How many of the sorted `starts` between `lo` and `hi` are at most `i`, counted from 0. -/
def upperBound (starts : Array Nat) (i lo hi : Nat) : Nat :=
  if lo < hi then
    if i < starts.getD ((lo + hi) / 2) 0 then upperBound starts i lo ((lo + hi) / 2)
    else upperBound starts i ((lo + hi) / 2 + 1) hi
  else lo
termination_by hi - lo

/-- Whether place `i` lies under one of the spans, which are sorted and disjoint: only the last
span that starts at or before `i` is looked at. -/
def insideAny (spans : Array Span) (i : Nat) : Bool :=
  match upperBound (spans.map (·.start)) i 0 spans.size with
  | 0 => false
  | k + 1 => i < (spans.getD k ⟨0, 0⟩).stop

end ConsoleSweep.Text
