/-
  Searches through a text, seen from what is left of it.

  A match is known by two rests of the text: what stands from its start on, and what
  follows it. `hits` lists the matches of a search in this form. `findAll` lists the
  same matches by their places (`findAll_eq`), and rewriting the parts under them is
  `rewritten` (`splice_eq_rewritten`). An argument about a search follows the search
  (`hits_induction`): there is a place without a match, or a match and what follows it.

  The matchers here go forward: a match takes at least one character (`Advances`).
-/
import ConsoleSweep.Text.Span

namespace ConsoleSweep.Text

/-- The character before a place, once `before` has been read after the character `prev`. -/
def behind : Option Char → List Char → Option Char
  | prev, [] => prev
  | _, c :: cs => behind (some c) cs

@[simp] theorem behind_nil (prev : Option Char) : behind prev [] = prev := rfl

@[simp] theorem behind_cons (prev : Option Char) (c : Char) (cs : List Char) :
    behind prev (c :: cs) = behind (some c) cs := rfl

theorem behind_append (prev : Option Char) (x y : List Char) :
    behind prev (x ++ y) = behind (behind prev x) y := by
  induction x generalizing prev with
  | nil => rfl
  | cons c cs ih => exact ih (some c)

theorem behind_concat (prev : Option Char) (x : List Char) (c : Char) :
    behind prev (x ++ [c]) = some c := by
  rw [behind_append]; rfl

/-- A match: the text from its start on, and the text after it. -/
structure Hit where
  here : List Char
  rest : List Char

/-- The part of the text that a match covers. -/
def Hit.part (h : Hit) : List Char :=
  h.here.take (h.here.length - h.rest.length)

/-- The places of a match in a text of length `n`. -/
def Hit.span (n : Nat) (h : Hit) : Span :=
  ⟨n - h.here.length, n - h.rest.length⟩

@[simp] theorem Hit.part_mk (y z : List Char) : Hit.part ⟨y ++ z, z⟩ = y := by
  simp [Hit.part]

/-- `hits` with `skip` characters of the last match still to pass. -/
def hitsFrom (m : Matcher) : Nat → Option Char → List Char → List Hit
  | _, _, [] => []
  | skip + 1, _, c :: cs => hitsFrom m skip (some c) cs
  | 0, prev, c :: cs =>
    match m prev (c :: cs) with
    | none => hitsFrom m 0 (some c) cs
    | some rest => ⟨c :: cs, rest⟩ :: hitsFrom m (cs.length - rest.length) (some c) cs

/-- The matches in a text that follows the character `prev`, leftmost first. -/
def hits (m : Matcher) (prev : Option Char) (text : List Char) : List Hit :=
  hitsFrom m 0 prev text

/-- Every match of `m` takes at least one character. -/
def Advances (m : Matcher) : Prop :=
  ∀ prev text rest, m prev text = some rest → ∃ y, y ≠ [] ∧ text = y ++ rest

/-! ## Following a search -/

@[simp] theorem hits_nil (m : Matcher) (prev : Option Char) : hits m prev [] = [] := rfl

theorem hits_of_none {m : Matcher} {prev : Option Char} {c : Char} {cs : List Char}
    (h : m prev (c :: cs) = none) : hits m prev (c :: cs) = hits m (some c) cs := by
  unfold hits
  rw [hitsFrom, h]

theorem hitsFrom_length (m : Matcher) (prev : Option Char) (y z : List Char) :
    hitsFrom m y.length prev (y ++ z) = hits m (behind prev y) z := by
  induction y generalizing prev with
  | nil => rfl
  | cons c cs ih => exact ih (some c)

theorem hits_of_match {m : Matcher} {prev : Option Char} {y z : List Char} (hy : y ≠ [])
    (h : m prev (y ++ z) = some z) :
    hits m prev (y ++ z) = ⟨y ++ z, z⟩ :: hits m (behind prev y) z := by
  cases y with
  | nil => contradiction
  | cons c cs =>
    have hm : m prev (c :: (cs ++ z)) = some z := h
    unfold hits
    rw [List.cons_append, hitsFrom, hm]
    have hlen : (cs ++ z).length - z.length = cs.length := by simp
    simp only [hlen, hitsFrom_length]
    rfl

/-- Induction along a search: over the places without a match, and over the matches. -/
theorem hits_induction {m : Matcher} (adv : Advances m)
    {P : Option Char → List Char → List Hit → Prop} (nil : ∀ prev, P prev [] [])
    (miss : ∀ prev c cs, m prev (c :: cs) = none → P (some c) cs (hits m (some c) cs) →
      P prev (c :: cs) (hits m (some c) cs))
    (hit : ∀ prev y z, y ≠ [] → m prev (y ++ z) = some z →
      P (behind prev y) z (hits m (behind prev y) z) →
      P prev (y ++ z) (⟨y ++ z, z⟩ :: hits m (behind prev y) z))
    (prev : Option Char) (text : List Char) : P prev text (hits m prev text) := by
  match text with
  | [] => exact nil prev
  | c :: cs =>
    cases hm : m prev (c :: cs) with
    | none =>
      rw [hits_of_none hm]
      exact miss prev c cs hm (hits_induction adv nil miss hit (some c) cs)
    | some z =>
      obtain ⟨y, hy, e⟩ := adv prev (c :: cs) z hm
      have hlt : z.length < cs.length + 1 := by
        have := List.length_pos_iff.2 hy
        rw [← List.length_cons (a := c), e, List.length_append]; omega
      rw [e] at hm ⊢
      rw [hits_of_match hy hm]
      exact hit prev y z hy hm (hits_induction adv nil miss hit (behind prev y) z)
termination_by text.length

/-! ## Matches as parts of a text -/

/-- The matches cover parts of the text that follow one another. -/
inductive Parts : List Hit → List Char → Prop where
  | nil (text : List Char) : Parts [] text
  | cons (x y z : List Char) {hs : List Hit} : y ≠ [] → Parts hs z →
      Parts (⟨y ++ z, z⟩ :: hs) (x ++ (y ++ z))

theorem Parts.append {hs : List Hit} {text : List Char} (h : Parts hs text) (w : List Char) :
    Parts hs (w ++ text) := by
  cases h with
  | nil => exact .nil _
  | cons x y z hy hz =>
    rw [← List.append_assoc]
    exact .cons (w ++ x) y z hy hz

theorem parts_hits {m : Matcher} (adv : Advances m) (prev : Option Char) (text : List Char) :
    Parts (hits m prev text) text := by
  refine hits_induction adv (P := fun _ text hs => Parts hs text) ?_ ?_ ?_ prev text
  · intro _; exact .nil []
  · intro _ c cs _ ih; exact ih.append [c]
  · intro _ y z hy _ ih; exact .cons [] y z hy ih

theorem Parts.filter {hs : List Hit} {text : List Char} (h : Parts hs text) (p : Hit → Bool) :
    Parts (hs.filter p) text := by
  induction h with
  | nil text => exact .nil text
  | cons x y z hy _ ih =>
    rw [List.filter_cons]
    split
    · exact .cons x y z hy ih
    · rw [← List.append_assoc]
      exact ih.append (x ++ y)

/-- A match of a search stands at a place of the text, where the matcher finds it. -/
theorem mem_hits {m : Matcher} (adv : Advances m) {prev : Option Char} {text : List Char}
    {h : Hit} (hh : h ∈ hits m prev text) :
    ∃ x y z, text = x ++ (y ++ z) ∧ y ≠ [] ∧ h = ⟨y ++ z, z⟩ ∧
      m (behind prev x) (y ++ z) = some z := by
  revert hh
  refine hits_induction adv (P := fun prev text hs => h ∈ hs → ∃ x y z, text = x ++ (y ++ z) ∧
    y ≠ [] ∧ h = ⟨y ++ z, z⟩ ∧ m (behind prev x) (y ++ z) = some z) ?_ ?_ ?_ prev text
  · intro _ hh; simp at hh
  · intro _ c cs _ ih hh
    obtain ⟨x, y, z, e, hy, eh, hm⟩ := ih hh
    exact ⟨c :: x, y, z, by rw [e]; rfl, hy, eh, hm⟩
  · intro prev y z hy hm ih hh
    rcases List.mem_cons.1 hh with eh | hh
    · exact ⟨[], y, z, rfl, hy, eh, hm⟩
    · obtain ⟨x, y', z', e, hy', eh, hm'⟩ := ih hh
      refine ⟨y ++ x, y', z', by rw [e, List.append_assoc], hy', eh, ?_⟩
      rw [behind_append]; exact hm'

theorem hits_cons_eq_nil {m : Matcher} (adv : Advances m) {prev : Option Char} {c : Char}
    {cs : List Char} :
    hits m prev (c :: cs) = [] ↔ m prev (c :: cs) = none ∧ hits m (some c) cs = [] := by
  cases hm : m prev (c :: cs) with
  | none => rw [hits_of_none hm]; simp
  | some z =>
    obtain ⟨y, hy, e⟩ := adv prev (c :: cs) z hm
    rw [e] at hm ⊢
    rw [hits_of_match hy hm]; simp

/-- A search is empty if and only if there is no match at any place. -/
theorem hits_eq_nil_iff {m : Matcher} (adv : Advances m) {prev : Option Char}
    {text : List Char} :
    hits m prev text = [] ↔ ∀ x z, text = x ++ z → m (behind prev x) z = none := by
  induction text generalizing prev with
  | nil =>
    refine ⟨fun _ x z e => ?_, fun _ => rfl⟩
    obtain ⟨rfl, rfl⟩ := List.append_eq_nil_iff.1 e.symm
    cases hm : m (behind prev []) [] with
    | none => rfl
    | some r =>
      obtain ⟨y, hy, e⟩ := adv _ _ _ hm
      exact absurd (List.append_eq_nil_iff.1 e.symm).1 hy
  | cons c cs ih =>
    rw [hits_cons_eq_nil adv, ih]
    constructor
    · rintro ⟨h0, h⟩ x z e
      cases x with
      | nil =>
        have ez : z = c :: cs := by simpa using e.symm
        rw [ez]; exact h0
      | cons d x =>
        obtain ⟨rfl, e'⟩ := List.cons.inj e
        exact h x z e'
    · intro h
      exact ⟨h [] (c :: cs) rfl, fun x z e => h (c :: x) z (by rw [e]; rfl)⟩

/-- Where nothing matches, a search goes on behind. -/
theorem hits_append_of_none {m : Matcher} {prev : Option Char} {x z : List Char}
    (h : ∀ u v, x = u ++ v → v ≠ [] → m (behind prev u) (v ++ z) = none) :
    hits m prev (x ++ z) = hits m (behind prev x) z := by
  induction x generalizing prev with
  | nil => rfl
  | cons c cs ih =>
    have hnone : m prev (c :: (cs ++ z)) = none := h [] (c :: cs) rfl (by simp)
    rw [List.cons_append, hits_of_none hnone]
    exact ih fun u v e hv => h (c :: u) v (congrArg (c :: ·) e) hv

/-- A place where the matcher finds something is under a match of the search: under the one found
there, or one that starts before it. -/
theorem exists_hit_of_isSome {m : Matcher} (adv : Advances m) {prev : Option Char}
    {text : List Char} {x z : List Char} (e : text = x ++ z)
    (h : (m (behind prev x) z).isSome = true) :
    ∃ g ∈ hits m prev text, z.length ≤ g.here.length ∧ g.rest.length < z.length := by
  revert x z
  refine hits_induction adv (P := fun prev text hs => ∀ {x z : List Char}, text = x ++ z →
    (m (behind prev x) z).isSome = true →
    ∃ g ∈ hs, z.length ≤ g.here.length ∧ g.rest.length < z.length) ?_ ?_ ?_ prev text
  · intro prev x z e h
    obtain ⟨rest, hrest⟩ := Option.isSome_iff_exists.1 h
    obtain ⟨y, hy, rfl⟩ := adv _ _ _ hrest
    simp [hy] at e
  · intro prev c cs hnone ih x z e h
    cases x with
    | nil =>
      rw [List.nil_append] at e
      rw [← e, behind_nil, hnone] at h
      cases h
    | cons d x =>
      obtain ⟨rfl, e'⟩ := List.cons.inj e
      exact ih e' h
  · intro prev y z' hy hm ih x z e h
    by_cases hlen : z'.length < z.length
    · refine ⟨_, List.mem_cons_self, ?_, hlen⟩
      rw [e, List.length_append]
      exact Nat.le_add_left _ _
    · obtain ⟨w, rfl⟩ : z <:+ z' :=
        List.suffix_of_suffix_length_le ⟨x, e.symm⟩ ⟨y, rfl⟩ (by omega)
      obtain rfl : y ++ w = x := by
        rw [← List.append_assoc] at e
        exact List.append_cancel_right e
      rw [behind_append] at h
      obtain ⟨g, hg, hplace⟩ := ih rfl h
      exact ⟨g, List.mem_cons_of_mem _ hg, hplace⟩

/-! ## Places -/

theorem Hit.span_eq (i : Nat) (x y z : List Char) :
    Hit.span (i + (x ++ (y ++ z)).length) ⟨y ++ z, z⟩ =
      ⟨i + x.length, i + x.length + y.length⟩ := by
  simp only [Hit.span, List.length_append, Span.mk.injEq]
  omega

theorem findFrom_eq {m : Matcher} (adv : Advances m) (skip i : Nat) (prev : Option Char)
    (text : List Char) :
    findFrom m skip i prev text =
      (hitsFrom m skip prev text).map (Hit.span (i + text.length)) := by
  induction text generalizing skip i prev with
  | nil => rw [findFrom, hitsFrom]; rfl
  | cons c cs ih =>
    have shift : i + (c :: cs).length = i + 1 + cs.length := by simp; omega
    cases skip with
    | succ skip => rw [findFrom, hitsFrom, ih, shift]
    | zero =>
      rw [findFrom, hitsFrom]
      cases hm : m prev (c :: cs) with
      | none => simp only; rw [ih, shift]
      | some rest =>
        obtain ⟨y, _, e⟩ := adv prev (c :: cs) rest hm
        have hlen := congrArg List.length e
        rw [List.length_cons, List.length_append] at hlen
        simp only [List.map_cons]
        rw [ih, shift]
        congr 1
        simp only [Hit.span, List.length_cons, Span.mk.injEq]
        omega

/-- The spans of a search are the places of its matches. -/
theorem findAll_eq {m : Matcher} (adv : Advances m) (text : List Char) :
    findAll m text = (hits m none text).map (Hit.span text.length) := by
  unfold findAll hits
  rw [findFrom_eq adv, Nat.zero_add]

/-- A span of a search stands at a place of the text, where the matcher finds it. -/
theorem mem_findAll {m : Matcher} (adv : Advances m) {text : List Char} {s : Span}
    (h : s ∈ findAll m text) :
    ∃ x y z, text = x ++ (y ++ z) ∧ y ≠ [] ∧ s = ⟨x.length, x.length + y.length⟩ ∧
      m (behind none x) (y ++ z) = some z := by
  rw [findAll_eq adv] at h
  obtain ⟨g, hg, rfl⟩ := List.mem_map.1 h
  obtain ⟨x, y, z, rfl, hy, rfl, hm⟩ := mem_hits adv hg
  have hspan := Hit.span_eq 0 x y z
  rw [Nat.zero_add, Nat.zero_add] at hspan
  exact ⟨x, y, z, rfl, hy, hspan, hm⟩

theorem slice_append (x y z : List Char) :
    Span.slice ⟨x.length, x.length + y.length⟩ (x ++ (y ++ z)) = y := by
  simp [Span.slice]

theorem slice_span {x y z : List Char} :
    (Hit.span (x ++ (y ++ z)).length ⟨y ++ z, z⟩).slice (x ++ (y ++ z)) = y := by
  have := Hit.span_eq 0 x y z
  rw [Nat.zero_add, Nat.zero_add] at this
  rw [this, slice_append]

/-- The span of a match names the part that the match covers. -/
theorem slice_of_mem {m : Matcher} (adv : Advances m) {text : List Char} {h : Hit}
    (hh : h ∈ hits m none text) : (h.span text.length).slice text = h.part := by
  obtain ⟨x, y, z, rfl, -, rfl, -⟩ := mem_hits adv hh
  rw [slice_span, Hit.part_mk]

theorem getElem?_start_of_mem {m : Matcher} (adv : Advances m) {text : List Char} {h : Hit}
    (hh : h ∈ hits m none text) : text[(h.span text.length).start]? = h.here.head? := by
  obtain ⟨x, y, z, rfl, -, rfl, -⟩ := mem_hits adv hh
  have := Hit.span_eq 0 x y z
  rw [Nat.zero_add, Nat.zero_add] at this
  rw [this, List.getElem?_append_right (Nat.le_refl _), Nat.sub_self, List.head?_eq_getElem?]

/-! ## Rewriting the matches -/

/-- The text with `f` applied to the part under each match. -/
def rewritten (f : List Char → List Char) : List Hit → List Char → List Char
  | [], text => text
  | h :: hs, text =>
    text.take (text.length - h.here.length) ++ (f h.part ++ rewritten f hs h.rest)

@[simp] theorem rewritten_nil (f : List Char → List Char) (text : List Char) :
    rewritten f [] text = text := rfl

theorem rewritten_cons (f : List Char → List Char) (hs : List Hit) (x y z : List Char) :
    rewritten f (⟨y ++ z, z⟩ :: hs) (x ++ (y ++ z)) = x ++ (f y ++ rewritten f hs z) := by
  rw [rewritten, Hit.part_mk]
  simp

theorem rewritten_append {f : List Char → List Char} {hs : List Hit} {text : List Char}
    (h : Parts hs text) (w : List Char) :
    rewritten f hs (w ++ text) = w ++ rewritten f hs text := by
  cases h with
  | nil => rfl
  | cons x y z _ _ =>
    rw [rewritten_cons, ← List.append_assoc w, rewritten_cons, List.append_assoc]

/-- Induction along a rewriting of the matches of a search. -/
theorem rewritten_hits_induction {m : Matcher} (adv : Advances m) (f : List Char → List Char)
    {P : Option Char → List Char → List Char → Prop} (nil : ∀ prev, P prev [] [])
    (miss : ∀ prev c cs res, m prev (c :: cs) = none → P (some c) cs res →
      P prev (c :: cs) (c :: res))
    (hit : ∀ prev y z res, y ≠ [] → m prev (y ++ z) = some z → P (behind prev y) z res →
      P prev (y ++ z) (f y ++ res))
    (prev : Option Char) (text : List Char) :
    P prev text (rewritten f (hits m prev text) text) := by
  refine hits_induction adv (P := fun prev text hs => P prev text (rewritten f hs text)) nil
    ?_ ?_ prev text
  · intro prev c cs hm ih
    have hkeep : rewritten f (hits m (some c) cs) (c :: cs) =
        c :: rewritten f (hits m (some c) cs) cs :=
      rewritten_append (parts_hits adv (some c) cs) [c]
    rw [hkeep]
    exact miss prev c cs _ hm ih
  · intro prev y z hy hm ih
    have hwrite : rewritten f (⟨y ++ z, z⟩ :: hits m (behind prev y) z) (y ++ z) =
        f y ++ rewritten f (hits m (behind prev y) z) z :=
      rewritten_cons f _ [] y z
    rw [hwrite]
    exact hit prev y z _ hy hm ih

@[simp] theorem spliceFrom_nil (f : List Char → List Char) (i : Nat) (text : List Char) :
    spliceFrom f i [] text = text := by
  cases text with
  | nil => rw [spliceFrom]
  | cons c cs => rw [spliceFrom]; simp

/-- What stands before the first span is kept. -/
theorem spliceFrom_before (f : List Char → List Char) (i k : Nat) (ss : List Span)
    (x text : List Char) :
    spliceFrom f i (⟨i + x.length, k⟩ :: ss) (x ++ text) =
      x ++ spliceFrom f (i + x.length) (⟨i + x.length, k⟩ :: ss) text := by
  induction x generalizing i with
  | nil => rfl
  | cons c cs ih =>
    have hi : i < i + (c :: cs).length := by simp
    have e : i + (c :: cs).length = i + 1 + cs.length := by simp; omega
    rw [List.cons_append, spliceFrom, if_pos hi, e, ih]
    rfl

/-- The rest of a span that was begun is passed. -/
theorem spliceFrom_within (f : List Char → List Char) (start i : Nat) (ss : List Span)
    (y z : List Char) (hs : start < i) (hy : y ≠ []) :
    spliceFrom f i (⟨start, i + y.length⟩ :: ss) (y ++ z) =
      spliceFrom f (i + y.length) ss z := by
  induction y generalizing i with
  | nil => contradiction
  | cons c cs ih =>
    rw [List.cons_append, spliceFrom, if_neg (by simp only; omega), if_neg (by simp only; omega),
      List.nil_append]
    have e : i + (c :: cs).length = i + 1 + cs.length := by simp; omega
    cases cs with
    | nil => rw [if_neg (by simp)]; rfl
    | cons d ds =>
      rw [if_pos (by simp), e, ih (i + 1) (by omega) (by simp)]

theorem spliceFrom_at (f : List Char → List Char) (i : Nat) (ss : List Span)
    (y z : List Char) (hy : y ≠ []) :
    spliceFrom f i (⟨i, i + y.length⟩ :: ss) (y ++ z) =
      f y ++ spliceFrom f (i + y.length) ss z := by
  cases y with
  | nil => contradiction
  | cons c cs =>
    have e : i + (c :: cs).length = i + 1 + cs.length := by simp; omega
    have htake : (c :: (cs ++ z)).take (i + (c :: cs).length - i) = c :: cs := by simp
    rw [List.cons_append, spliceFrom, if_neg (by simp), if_pos rfl, htake]
    congr 1
    cases cs with
    | nil => rw [if_neg (by simp)]; rfl
    | cons d ds =>
      rw [if_pos (by simp), e]
      exact spliceFrom_within f i (i + 1) ss (d :: ds) z (by omega) (by simp)

theorem spliceFrom_eq {f : List Char → List Char} {hs : List Hit} {text : List Char}
    (h : Parts hs text) (i : Nat) :
    spliceFrom f i (hs.map (Hit.span (i + text.length))) text = rewritten f hs text := by
  induction h generalizing i with
  | nil text => simp
  | cons x y z hy _ ih =>
    rw [List.map_cons, Hit.span_eq, spliceFrom_before, spliceFrom_at _ _ _ _ _ hy, rewritten_cons]
    have e : i + (x ++ (y ++ z)).length = i + x.length + y.length + z.length := by
      simp only [List.length_append]; omega
    rw [e, ih]

/-- Splicing the spans of matches rewrites the matches. -/
theorem splice_eq_rewritten {f : List Char → List Char} {hs : List Hit} {text : List Char}
    (h : Parts hs text) : splice f (hs.map (Hit.span text.length)) text = rewritten f hs text := by
  have := spliceFrom_eq (f := f) h 0
  rwa [Nat.zero_add] at this

theorem splice_findAll {m : Matcher} (adv : Advances m) (f : List Char → List Char)
    (text : List Char) : splice f (findAll m text) text = rewritten f (hits m none text) text := by
  rw [findAll_eq adv, splice_eq_rewritten (parts_hits adv none text)]

theorem cut_eq_rewritten {hs : List Hit} {text : List Char} (h : Parts hs text) :
    cut (hs.map (Hit.span text.length)) text = rewritten (fun _ => []) hs text :=
  splice_eq_rewritten h

/-- Deleting some of the spans of a search deletes those of its matches. -/
theorem cut_filter_findAll {m : Matcher} (adv : Advances m) (text : List Char) (p : Hit → Bool)
    (q : Span → Bool) (h : ∀ g ∈ hits m none text, q (g.span text.length) = p g) :
    cut ((findAll m text).filter q) text =
      rewritten (fun _ => []) ((hits m none text).filter p) text := by
  have e : (findAll m text).filter q =
      ((hits m none text).filter p).map (Hit.span text.length) := by
    rw [findAll_eq adv, List.filter_map]
    exact congrArg _ (List.filter_congr h)
  rw [e, cut_eq_rewritten ((parts_hits adv none text).filter p)]

theorem cut_findAll {m : Matcher} (adv : Advances m) (text : List Char) :
    cut (findAll m text) text = rewritten (fun _ => []) (hits m none text) text :=
  splice_findAll adv _ text

/-- Deleting matches leaves the text as it is only if there are none. -/
theorem rewritten_eq_self_iff {hs : List Hit} {text : List Char} (h : Parts hs text) :
    rewritten (fun _ => []) hs text = text ↔ hs = [] := by
  have shrinks : ∀ {hs : List Hit} {text : List Char}, Parts hs text →
      (rewritten (fun _ => []) hs text).length ≤ text.length := by
    intro hs text h
    induction h with
    | nil text => simp
    | cons x y z _ _ ih => rw [rewritten_cons]; simp; omega
  constructor
  · intro e
    cases h with
    | nil => rfl
    | cons x y z hy hz =>
      rw [rewritten_cons] at e
      have hlen := congrArg List.length e
      have := shrinks hz
      have := List.length_pos_iff.2 hy
      simp at hlen
      omega
  · rintro rfl; rfl

end ConsoleSweep.Text
