/-
  Heads of calls: what they are made of, and how many a text has.

  `mem_heads_iff` writes out the rule for a head. Two facts follow from it. A head only
  depends on the text up to its parenthesis, so a text holds the heads of its parts
  (`tally_append_ge`). And heads of methods with plain names do not overlap, so at most
  one more comes about where two texts are joined (`tally_append_le`).

  `tally` counts the places where a head starts; for plain names it is the number of
  calls that a search lists (`length_hits_head`).
-/
import Mathlib.Data.List.Forall2
import ConsoleSweep.Call
import ConsoleSweep.Proofs.Search

namespace ConsoleSweep.Text

/-- All characters of the text are whitespace. -/
def Blank (text : List Char) : Prop :=
  ∀ c ∈ text, isBlank c = true

theorem blank_nil : Blank [] := by
  intro c hc; simp at hc

theorem blank_cons {c : Char} {cs : List Char} :
    Blank (c :: cs) ↔ isBlank c = true ∧ Blank cs := by
  simp [Blank]

theorem blank_append {x y : List Char} : Blank (x ++ y) ↔ Blank x ∧ Blank y := by
  simp only [Blank, List.mem_append]
  exact ⟨fun h => ⟨fun c hc => h c (.inl hc), fun c hc => h c (.inr hc)⟩,
    fun h c hc => hc.elim (h.1 c) (h.2 c)⟩

theorem blank_takeWhile (text : List Char) : Blank (text.takeWhile isBlank) := by
  have h : (text.takeWhile isBlank).all isBlank = true := List.all_takeWhile
  exact List.all_eq_true.1 h

theorem skipBlank_split (text : List Char) : text.takeWhile isBlank ++ skipBlank text = text :=
  List.takeWhile_append_dropWhile

theorem skipBlank_append {b : List Char} (hb : Blank b) (text : List Char) :
    skipBlank (b ++ text) = skipBlank text :=
  List.dropWhile_append_of_pos hb

theorem skipBlank_cons_of_not {c : Char} (hc : isBlank c = false) (text : List Char) :
    skipBlank (c :: text) = c :: text := by
  simp [skipBlank, hc]

/-- What is left once the whitespace is skipped does not start with whitespace. -/
theorem not_isBlank_of_skipBlank {text : List Char} {c : Char} {cs : List Char}
    (h : skipBlank text = c :: cs) : isBlank c = false := by
  have := List.head?_dropWhile_not isBlank text
  unfold skipBlank at h
  rw [h] at this
  simpa using this

/-- A whitespace character is no part of a word. -/
theorem isWord_of_isBlank {c : Char} (h : isBlank c = true) : isWord c = false := by
  obtain ⟨r, hr, hc⟩ := List.any_eq_true.1 h
  simp only [Bool.and_eq_true, decide_eq_true_eq] at hc
  unfold isWord
  split
  · have low : ∀ r ∈ blankRanges, r.2 ≤ 0x20 ∨ 0x80 ≤ r.1 := by decide
    have hle : c.toNat ≤ 0x20 := by
      have := low r hr
      omega
    have hv : c.val.toNat ≤ 0x20 := hle
    have hne : c ≠ '_' := by
      rintro rfl
      exact absurd hle (by decide)
    have lower : ∀ k : UInt32, 0x20 < k.toNat → ¬ k ≤ c.val := by
      intro k hk h
      have := UInt32.le_iff_toNat_le.1 h
      omega
    unfold Char.isAlphanum Char.isAlpha Char.isUpper Char.isLower Char.isDigit
    simp [hne, lower 65 (by decide), lower 97 (by decide), lower 48 (by decide)]
  · have apart : ∀ r ∈ blankRanges, ∀ s ∈ wordRanges, r.2 < s.1 ∨ s.2 < r.1 := by
      decide +kernel
    rw [List.any_eq_false]
    intro s hs
    have := apart r hr s hs
    simp only [Bool.and_eq_true, decide_eq_true_eq]
    omega

end ConsoleSweep.Text

namespace ConsoleSweep.Call

open ConsoleSweep.Text

theorem startsWord_of_isBlank {c : Char} (h : isBlank c = true) : startsWord (some c) = true := by
  have hd : c ≠ '$' := by
    rintro rfl
    exact absurd h (by decide)
  simp [startsWord, isWord_of_isBlank h, hd]

/-! ## The rule for a head -/

theorem keyword_eq : keyword = ['c', 'o', 'n', 's', 'o', 'l', 'e'] := rfl

/-- A head with its whitespace: around the point, and before the parenthesis. -/
def headText (b₁ b₂ b₃ : List Char) (name : String) : List Char :=
  keyword ++ (b₁ ++ '.' :: (b₂ ++ (name.toList ++ (b₃ ++ ['(']))))

/-- The name does not start with whitespace. -/
def StartsSolid (name : String) : Prop :=
  ∀ c cs, name.toList = c :: cs → isBlank c = false

theorem openParen_eq_some {text r : List Char} :
    openParen text = some r ↔ ∃ b, Blank b ∧ text = b ++ '(' :: r := by
  unfold openParen
  constructor
  · intro h
    split at h
    · next rest hr =>
      obtain rfl := Option.some.inj h
      exact ⟨text.takeWhile isBlank, blank_takeWhile text, by rw [← hr, skipBlank_split]⟩
    · simp at h
  · rintro ⟨b, hb, rfl⟩
    rw [skipBlank_append hb, skipBlank_cons_of_not (by decide)]
    rfl

theorem afterName_eq_some {text r : List Char} {name : String} :
    afterName text name = some r ↔ ∃ b, Blank b ∧ text = name.toList ++ (b ++ '(' :: r) := by
  unfold afterName
  rw [Option.bind_eq_some_iff]
  simp only [List.isPrefixOf?_eq_some_iff_append_eq, openParen_eq_some]
  constructor
  · rintro ⟨rest, rfl, b, hb, rfl⟩; exact ⟨b, hb, rfl⟩
  · rintro ⟨b, hb, rfl⟩; exact ⟨_, rfl, b, hb, rfl⟩

theorem afterPoint_eq_some {text r : List Char} :
    afterPoint text = some r ↔
      ∃ b₁ s, Blank b₁ ∧ text = keyword ++ (b₁ ++ '.' :: s) ∧ r = skipBlank s := by
  unfold afterPoint
  constructor
  · intro h
    split at h
    · next rest hr =>
      obtain ⟨u, hu, hs⟩ := Option.map_eq_some_iff.1 hr
      rw [List.isPrefixOf?_eq_some_iff_append_eq] at hu
      refine ⟨u.takeWhile isBlank, rest, blank_takeWhile u, ?_, (Option.some.inj h).symm⟩
      rw [← hs, skipBlank_split, hu]
    · simp at h
  · rintro ⟨b₁, s, hb, rfl, rfl⟩
    have hk : keyword.isPrefixOf? (keyword ++ (b₁ ++ '.' :: s)) = some (b₁ ++ '.' :: s) :=
      List.isPrefixOf?_eq_some_iff_append_eq.2 rfl
    rw [hk]
    simp only [Option.map_some]
    rw [skipBlank_append hb, skipBlank_cons_of_not (by decide)]
    rfl

/-- A head is the keyword at the start of a word, a point, one of the names and a parenthesis,
with whitespace around the point and before the parenthesis. -/
theorem mem_heads_iff {names : List String} {prev : Option Char} {text r : List Char} :
    r ∈ heads names prev text ↔
      startsWord prev = true ∧ ∃ name ∈ names, StartsSolid name ∧
        ∃ b₁ b₂ b₃, Blank b₁ ∧ Blank b₂ ∧ Blank b₃ ∧ text = headText b₁ b₂ b₃ name ++ r := by
  have form : ∀ (b₁ b₂ b₃ : List Char) (name : String), headText b₁ b₂ b₃ name ++ r =
      keyword ++ (b₁ ++ '.' :: (b₂ ++ (name.toList ++ (b₃ ++ '(' :: r)))) := by
    intro b₁ b₂ b₃ name; simp [headText]
  simp only [form]
  constructor
  · intro h
    unfold heads at h
    split at h
    · next hw =>
      refine ⟨hw, ?_⟩
      split at h
      · next rest hp =>
        obtain ⟨b₁, s, hb₁, rfl, rfl⟩ := afterPoint_eq_some.1 hp
        obtain ⟨name, hn, hr⟩ := List.mem_filterMap.1 h
        obtain ⟨b₃, hb₃, e⟩ := afterName_eq_some.1 hr
        refine ⟨name, hn, ?_, b₁, s.takeWhile isBlank, b₃, hb₁, blank_takeWhile s, hb₃, ?_⟩
        · intro c cs hc
          rw [hc] at e
          exact not_isBlank_of_skipBlank e
        · rw [← e, skipBlank_split]
      · simp at h
    · simp at h
  · rintro ⟨hw, name, hn, hs, b₁, b₂, b₃, hb₁, hb₂, hb₃, rfl⟩
    unfold heads
    rw [if_pos hw, afterPoint_eq_some.2 ⟨b₁, _, hb₁, rfl, rfl⟩]
    refine List.mem_filterMap.2 ⟨name, hn, afterName_eq_some.2 ?_⟩
    rw [skipBlank_append hb₂]
    cases hc : name.toList with
    | nil =>
      -- Nothing tells the whitespace before an empty name from that after it.
      refine ⟨[], blank_nil, ?_⟩
      rw [List.nil_append, skipBlank_append hb₃, skipBlank_cons_of_not (by decide)]
      rfl
    | cons c cs => exact ⟨b₃, hb₃, skipBlank_cons_of_not (hs c cs hc) _⟩

theorem headText_ne_nil (b₁ b₂ b₃ : List Char) (name : String) : headText b₁ b₂ b₃ name ≠ [] := by
  simp [headText, keyword_eq]

/-- The parenthesis is the last character of a head. -/
theorem behind_headText (prev : Option Char) (b₁ b₂ b₃ : List Char) (name : String) :
    behind prev (headText b₁ b₂ b₃ name) = some '(' := by
  have e : headText b₁ b₂ b₃ name =
      (keyword ++ (b₁ ++ '.' :: (b₂ ++ (name.toList ++ b₃)))) ++ ['('] := by simp [headText]
  rw [e, behind_concat]

theorem head_eq_some {names : List String} {prev : Option Char} {text r : List Char}
    (h : head names prev text = some r) : r ∈ heads names prev text :=
  List.mem_of_mem_head? h

theorem head_isSome_iff {names : List String} {prev : Option Char} {text : List Char} :
    (head names prev text).isSome = true ↔ ∃ r, r ∈ heads names prev text := by
  unfold head
  rw [List.isSome_head?]
  exact ⟨List.exists_mem_of_ne_nil _, fun ⟨r, hr⟩ => List.ne_nil_of_mem hr⟩

theorem advances_head (names : List String) : Advances (head names) := by
  intro prev text rest h
  obtain ⟨-, name, -, -, b₁, b₂, b₃, -, -, -, e⟩ := mem_heads_iff.1 (head_eq_some h)
  exact ⟨_, headText_ne_nil b₁ b₂ b₃ name, e⟩

/-- A head stays one when more text follows. -/
theorem mem_heads_append {names : List String} {prev : Option Char} {x r : List Char}
    (h : r ∈ heads names prev x) (z : List Char) : r ++ z ∈ heads names prev (x ++ z) := by
  obtain ⟨hw, name, hn, hs, b₁, b₂, b₃, h₁, h₂, h₃, rfl⟩ := mem_heads_iff.1 h
  refine mem_heads_iff.2 ⟨hw, name, hn, hs, b₁, b₂, b₃, h₁, h₂, h₃, ?_⟩
  rw [List.append_assoc]

/-- A head that ends in the first of two texts is a head of that text. -/
theorem mem_heads_of_append {names : List String} {prev : Option Char} {x z r : List Char}
    (h : r ∈ heads names prev (x ++ z)) (hlen : z.length ≤ r.length) :
    ∃ r', r = r' ++ z ∧ r' ∈ heads names prev x := by
  obtain ⟨hw, name, hn, hs, b₁, b₂, b₃, h₁, h₂, h₃, e⟩ := mem_heads_iff.1 h
  obtain ⟨r', rfl⟩ : z <:+ r :=
    List.suffix_of_suffix_length_le ⟨x, rfl⟩ ⟨headText b₁ b₂ b₃ name, e.symm⟩ hlen
  rw [← List.append_assoc] at e
  exact ⟨r', rfl, mem_heads_iff.2 ⟨hw, name, hn, hs, b₁, b₂, b₃, h₁, h₂, h₃,
    List.append_cancel_right e⟩⟩

/-! ## Texts with calls in them -/

/-- The text holds a head, if it follows the character `prev`. -/
def HoldsCall (names : List String) (prev : Option Char) (text : List Char) : Prop :=
  ∃ x z r, text = x ++ z ∧ r ∈ heads names (behind prev x) z

theorem hits_head_eq_nil {names : List String} {prev : Option Char} {text : List Char} :
    hits (head names) prev text = [] ↔ ¬ HoldsCall names prev text := by
  rw [hits_eq_nil_iff (advances_head names)]
  constructor
  · rintro h ⟨x, z, r, e, hr⟩
    have := head_isSome_iff.2 ⟨r, hr⟩
    rw [h x z e] at this
    simp at this
  · intro h x z e
    cases hm : head names (behind prev x) z with
    | none => rfl
    | some r => exact absurd ⟨x, z, r, e, head_eq_some hm⟩ h

/-- A text holds the calls of its parts. -/
theorem HoldsCall.within {names : List String} {prev : Option Char} {x y : List Char}
    (h : HoldsCall names (behind prev x) y) (z : List Char) :
    HoldsCall names prev (x ++ (y ++ z)) := by
  obtain ⟨u, v, r, rfl, hr⟩ := h
  refine ⟨x ++ u, v ++ z, r ++ z, by simp, ?_⟩
  rw [behind_append]
  exact mem_heads_append hr z

theorem HoldsCall.not_blank {names : List String} {prev : Option Char} {text : List Char}
    (h : HoldsCall names prev text) : ¬ Blank text := by
  obtain ⟨x, z, r, rfl, hr⟩ := h
  obtain ⟨-, name, -, -, b₁, b₂, b₃, -, -, -, rfl⟩ := mem_heads_iff.1 hr
  intro hb
  have := hb 'c' (by simp [headText, keyword_eq])
  exact absurd this (by decide)

theorem HoldsCall.ne_nil {names : List String} {prev : Option Char} {text : List Char}
    (h : HoldsCall names prev text) : text ≠ [] := by
  rintro rfl
  exact h.not_blank blank_nil

/-! ## Counting heads -/

/-- The number of places where a head starts. -/
def tally (names : List String) : Option Char → List Char → Nat
  | _, [] => 0
  | prev, c :: cs =>
    (if (head names prev (c :: cs)).isSome then 1 else 0) + tally names (some c) cs

theorem HoldsCall.tally_pos {names : List String} {prev : Option Char} {text : List Char}
    (h : HoldsCall names prev text) : 1 ≤ tally names prev text := by
  obtain ⟨x, z, r, rfl, hr⟩ := h
  induction x generalizing prev with
  | nil =>
    cases z with
    | nil =>
      obtain ⟨-, name, -, -, b₁, b₂, b₃, -, -, -, e⟩ := mem_heads_iff.1 hr
      simp [headText, keyword_eq] at e
    | cons c cs =>
      have hs : (head names prev (c :: cs)).isSome = true := head_isSome_iff.2 ⟨r, hr⟩
      rw [List.nil_append, tally, if_pos hs]
      omega
  | cons c cs ih =>
    have hr' : r ∈ heads names (behind (some c) cs) z := hr
    have := ih hr'
    rw [List.cons_append, tally]
    omega

/-- The heads of two texts are heads of the texts together. -/
theorem tally_append_ge (names : List String) (prev : Option Char) (x z : List Char) :
    tally names prev x + tally names (behind prev x) z ≤ tally names prev (x ++ z) := by
  induction x generalizing prev with
  | nil => simp [tally]
  | cons c cs ih =>
    have hle : (if (head names prev (c :: cs)).isSome then 1 else 0) ≤
        (if (head names prev (c :: cs ++ z)).isSome then 1 else 0) := by
      split
      · next hs =>
        obtain ⟨r, hr⟩ := head_isSome_iff.1 hs
        have hs' := head_isSome_iff.2 ⟨r ++ z, mem_heads_append hr z⟩
        exact Nat.le_of_eq (if_pos hs').symm
      · exact Nat.zero_le _
    have := ih (some c)
    rw [tally, behind_cons, List.cons_append, tally]
    rw [List.cons_append] at hle
    omega

/-- A place where a word may start has at least the heads of any other. -/
theorem tally_mono {names : List String} {p : Option Char} (hp : startsWord p = true)
    (prev : Option Char) (z : List Char) : tally names prev z ≤ tally names p z := by
  cases z with
  | nil => simp [tally]
  | cons c cs =>
    rw [tally, tally]
    have hle : (if (head names prev (c :: cs)).isSome then 1 else 0) ≤
        (if (head names p (c :: cs)).isSome then 1 else 0) := by
      split
      · next hs =>
        obtain ⟨r, hr⟩ := head_isSome_iff.1 hs
        have hr' : r ∈ heads names p (c :: cs) :=
          mem_heads_iff.2 ⟨hp, (mem_heads_iff.1 hr).2⟩
        exact Nat.le_of_eq (if_pos (head_isSome_iff.2 ⟨r, hr'⟩)).symm
      · exact Nat.zero_le _
    omega

/-! ## Names without punctuation -/

/-- The names are made of word characters and dollar signs only. -/
def Wordy (names : List String) : Prop :=
  ∀ name ∈ names, ∀ c ∈ name.toList, isWord c = true ∨ c = '$'

/-- A part of a word: a character that no word starts after. -/
def inWord (c : Char) : Bool :=
  !startsWord (some c)

theorem Wordy.inWord {names : List String} (h : Wordy names) {name : String} (hn : name ∈ names) :
    ∀ c ∈ name.toList, inWord c = true := by
  intro c hc
  rcases h name hn c hc with hw | rfl
  · simp [Call.inWord, startsWord, hw]
  · simp [Call.inWord, startsWord]

/-- A head starts with the first letter of the keyword. -/
theorem tally_cons_of_ne {names : List String} {prev : Option Char} {c : Char} {cs : List Char}
    (hc : c ≠ 'c') : tally names prev (c :: cs) = tally names (some c) cs := by
  have hn : ¬ (head names prev (c :: cs)).isSome = true := by
    rw [head_isSome_iff]
    rintro ⟨r, hr⟩
    obtain ⟨-, name, -, -, b₁, b₂, b₃, -, -, -, e⟩ := mem_heads_iff.1 hr
    exact hc (List.cons.inj e).1
  rw [tally, if_neg hn, Nat.zero_add]

theorem tally_append_of_ne {names : List String} {prev : Option Char} {p z : List Char}
    (hp : ∀ c ∈ p, c ≠ 'c') : tally names prev (p ++ z) = tally names (behind prev p) z := by
  induction p generalizing prev with
  | nil => rfl
  | cons c cs ih =>
    rw [List.cons_append, tally_cons_of_ne (hp c List.mem_cons_self), behind_cons]
    exact ih fun d hd => hp d (List.mem_cons_of_mem c hd)

/-- No head starts inside of a word. -/
theorem tally_append_inWord {names : List String} {c : Char} {p z : List Char}
    (hc : inWord c = true) (hp : ∀ d ∈ p, inWord d = true) :
    tally names (some c) (p ++ z) = tally names (behind (some c) p) z := by
  induction p generalizing c with
  | nil => rfl
  | cons d ds ih =>
    have hn : ¬ (head names (some c) (d :: (ds ++ z))).isSome = true := by
      rw [head_isSome_iff]
      rintro ⟨r, hr⟩
      have := (mem_heads_iff.1 hr).1
      simp [inWord, this] at hc
    rw [List.cons_append, tally, if_neg hn, Nat.zero_add, behind_cons]
    exact ih (hp d List.mem_cons_self) fun e he => hp e (List.mem_cons_of_mem d he)

theorem ne_c_of_blank {b : List Char} (hb : Blank b) : ∀ c ∈ b, c ≠ 'c' := by
  rintro c hc rfl
  exact absurd (hb 'c' hc) (by decide)

/-- A word ends at whitespace, and at a character that is no part of a word. -/
theorem dropWhile_inWord {b s : List Char} {c : Char} (hb : Blank b) (hc : inWord c = false) :
    (b ++ c :: s).dropWhile inWord = b ++ c :: s := by
  cases b with
  | nil => simp [hc]
  | cons d ds =>
    have hd : inWord d = false := by
      simp [inWord, startsWord_of_isBlank (blank_cons.1 hb).1]
    simp [hd]

/-- The name in a head is not the start of another head: a parenthesis follows it, not a point. -/
theorem heads_at_name {names : List String} {name : String} {q : Option Char}
    {b r : List Char} (hname : ∀ c ∈ name.toList, inWord c = true) (hb : Blank b) :
    heads names q (name.toList ++ (b ++ '(' :: r)) = [] := by
  rw [List.eq_nil_iff_forall_not_mem]
  intro t ht
  obtain ⟨-, other, -, -, b₁, b₂, b₃, h₁, -, -, e⟩ := mem_heads_iff.1 ht
  have hk : ∀ c ∈ keyword, inWord c = true := List.all_eq_true.1 (by decide)
  have e' := congrArg (fun s => skipBlank (s.dropWhile inWord)) e
  simp only [headText, List.append_assoc, List.cons_append] at e'
  rw [List.dropWhile_append_of_pos hname, List.dropWhile_append_of_pos hk,
    dropWhile_inWord hb (by decide), dropWhile_inWord h₁ (by decide), skipBlank_append hb,
    skipBlank_append h₁, skipBlank_cons_of_not (by decide), skipBlank_cons_of_not (by decide)] at e'
  exact absurd (List.cons.inj e').1 (by decide)

/-- No other head starts in a head. -/
theorem tally_headText {names : List String} (hw : Wordy names) {prev : Option Char}
    {text r : List Char} (h : r ∈ heads names prev text) :
    tally names prev text = 1 + tally names (some '(') r := by
  obtain ⟨hp, name, hn, hs, b₁, b₂, b₃, h₁, h₂, h₃, e⟩ := mem_heads_iff.1 h
  have hname := hw.inWord hn
  have hsome : (head names prev text).isSome = true := head_isSome_iff.2 ⟨r, h⟩
  have split : text = 'c' :: (['o', 'n', 's', 'o', 'l', 'e'] ++ (b₁ ++ ('.' :: b₂)) ++
      (name.toList ++ (b₃ ++ '(' :: r))) := by
    rw [e]; simp [headText, keyword_eq]
  rw [split] at hsome ⊢
  rw [tally, if_pos hsome]
  congr 1
  have plain : ∀ c ∈ ['o', 'n', 's', 'o', 'l', 'e'] ++ (b₁ ++ ('.' :: b₂)), c ≠ 'c' := by
    intro c hc
    rcases List.mem_append.1 hc with hc | hc
    · rintro rfl
      exact absurd hc (by decide)
    · rcases List.mem_append.1 hc with hc | hc
      · exact ne_c_of_blank h₁ c hc
      · rcases List.mem_cons.1 hc with rfl | hc
        · decide
        · exact ne_c_of_blank h₂ c hc
  rw [tally_append_of_ne plain]
  have tail : ∀ q, tally names q (b₃ ++ '(' :: r) = tally names (some '(') r := by
    intro q
    rw [tally_append_of_ne (ne_c_of_blank h₃), tally_cons_of_ne (by decide)]
  generalize behind (some 'c') (['o', 'n', 's', 'o', 'l', 'e'] ++ (b₁ ++ ('.' :: b₂))) = q
  have none : heads names q (name.toList ++ (b₃ ++ '(' :: r)) = [] := heads_at_name hname h₃
  cases hc : name.toList with
  | nil => rw [List.nil_append, tail]
  | cons d ds =>
    rw [hc, List.cons_append] at none
    rw [hc] at hname
    have hn' : ¬ (head names q (d :: (ds ++ (b₃ ++ '(' :: r)))).isSome = true := by
      rw [head_isSome_iff, none]
      simp
    rw [List.cons_append, tally, if_neg hn', Nat.zero_add,
      tally_append_inWord (hname d List.mem_cons_self)
        (fun c hc => hname c (List.mem_cons_of_mem d hc)), tail]

/-- For plain names the calls that a search lists are all the heads there are. -/
theorem length_hits_head {names : List String} (hw : Wordy names) (prev : Option Char)
    (text : List Char) : (hits (head names) prev text).length = tally names prev text := by
  refine hits_induction (advances_head names)
    (P := fun prev text hs => hs.length = tally names prev text) ?_ ?_ ?_ prev text
  · intro _; rfl
  · intro prev c cs hm ih
    rw [tally, hm, ih]; simp
  · intro prev y z hy hm ih
    have hz := head_eq_some hm
    rw [tally_headText hw hz, List.length_cons, ih, Nat.add_comm]
    obtain ⟨-, name, -, -, b₁, b₂, b₃, -, -, -, e⟩ := mem_heads_iff.1 hz
    rw [List.append_cancel_right e, behind_headText]

/-- Where two texts are joined, at most one head comes about. The character before the second text
does not matter as long as a word may start after it. -/
theorem tally_append_le {names : List String} (hw : Wordy names) {p : Option Char}
    (hp : startsWord p = true) (prev : Option Char) (x z : List Char) :
    tally names prev (x ++ z) ≤ tally names prev x + 1 + tally names p z := by
  induction x generalizing prev with
  | nil =>
    have : tally names prev z ≤ tally names p z := tally_mono hp prev z
    rw [List.nil_append, tally]; omega
  | cons c cs ih =>
    by_cases hs : (head names prev (c :: cs ++ z)).isSome = true
    · obtain ⟨r, hr⟩ := head_isSome_iff.1 hs
      by_cases hlen : z.length ≤ r.length
      · -- The head ends in the first text.
        obtain ⟨r', -, hr'⟩ := mem_heads_of_append hr hlen
        have := ih (some c)
        rw [List.cons_append] at hs ⊢
        rw [tally, if_pos hs, tally, if_pos (head_isSome_iff.2 ⟨r', hr'⟩)]
        omega
      · -- The head goes on into the second text, so no other one starts in the first.
        obtain ⟨w, rfl⟩ : r <:+ z := by
          obtain ⟨-, name, -, -, b₁, b₂, b₃, -, -, -, e⟩ := mem_heads_iff.1 hr
          exact List.suffix_of_suffix_length_le ⟨_, e.symm⟩ ⟨_, rfl⟩ (by omega)
        have hw' : behind p w = some '(' := by
          obtain ⟨-, name, -, -, b₁, b₂, b₃, -, -, -, e⟩ := mem_heads_iff.1 hr
          have e' : c :: cs ++ w = headText b₁ b₂ b₃ name :=
            List.append_cancel_right ((List.append_assoc _ _ _).trans e)
          have hne : w ≠ [] := by rintro rfl; simp at hlen
          have := behind_headText none b₁ b₂ b₃ name
          rw [← e', behind_append] at this
          cases w with
          | nil => contradiction
          | cons d ds => exact this
        have := tally_append_ge names p w r
        rw [hw'] at this
        rw [tally_headText hw hr]
        omega
    · have := ih (some c)
      rw [List.cons_append] at hs ⊢
      rw [tally, if_neg hs, tally]
      omega

end ConsoleSweep.Call
