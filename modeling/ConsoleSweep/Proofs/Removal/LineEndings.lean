/-
  Line breaks are kept whole.

  What a pass deletes does not start with a line feed, and does not end with a carriage
  return unless the text ends there (`Sealed`). So no deletion parts a carriage return from
  the line feed behind it. A run of blank lines starts with a line feed, but what stands for
  it does too, and has the line breaks of the run.

  A manner of breaking lines is a property of texts that such changes keep (`Manner`), so a
  removal keeps it (`Manner.removeCalls`). Two of them are to have line feeds alone, and to
  have them behind carriage returns only (`Paired`).
-/
import ConsoleSweep.Proofs.Removal.BlankLines
import ConsoleSweep.Proofs.Removal.Inline

namespace ConsoleSweep.Text

/-! ## Paired line breaks -/

/-- Each line feed stands behind a carriage return, and each carriage return before a line feed. -/
def Paired (text : List Char) : Prop :=
  text[0]? ≠ some '\n' ∧ ∀ i, text[i]? = some '\r' ↔ text[i + 1]? = some '\n'

/-- Behind the end of a text there are no characters to pair. -/
theorem pair_of_length_le {text : List Char} {i : Nat} (h : text.length ≤ i) :
    text[i]? = some '\r' ↔ text[i + 1]? = some '\n' := by
  rw [List.getElem?_eq_none h, List.getElem?_eq_none (by omega)]
  simp

instance (text : List Char) : Decidable (Paired text) :=
  decidable_of_iff (text[0]? ≠ some '\n' ∧
      ∀ i < text.length, text[i]? = some '\r' ↔ text[i + 1]? = some '\n') <|
    and_congr_right fun _ => by
      refine ⟨fun h i => ?_, fun h i _ => h i⟩
      by_cases hi : i < text.length
      · exact h i hi
      · exact pair_of_length_le (Nat.le_of_not_lt hi)

theorem pair_append_left {x z : List Char} (hz : z[0]? ≠ some '\n') {i : Nat}
    (hi : i < x.length) :
    ((x ++ z)[i]? = some '\r' ↔ (x ++ z)[i + 1]? = some '\n') ↔
      (x[i]? = some '\r' ↔ x[i + 1]? = some '\n') := by
  rw [List.getElem?_append_left hi]
  by_cases hnext : i + 1 < x.length
  · rw [List.getElem?_append_left hnext]
  · have hend : i + 1 = x.length := by omega
    have hnone : x[x.length]? = none := List.getElem?_eq_none (Nat.le_refl _)
    rw [hend, List.getElem?_append_right (Nat.le_refl _), Nat.sub_self, hnone]
    simp [hz]

theorem pair_append_right {x z : List Char} (i : Nat) :
    ((x ++ z)[x.length + i]? = some '\r' ↔ (x ++ z)[x.length + i + 1]? = some '\n') ↔
      (z[i]? = some '\r' ↔ z[i + 1]? = some '\n') := by
  have hshift : x.length + i + 1 - x.length = i + 1 := by omega
  rw [List.getElem?_append_right (by omega), List.getElem?_append_right (by omega), hshift,
    Nat.add_sub_cancel_left]

/-- Where no pair is parted, a text is paired if and only if its parts are. -/
theorem paired_append_iff {x z : List Char} (hz : z[0]? ≠ some '\n') :
    Paired (x ++ z) ↔ Paired x ∧ Paired z := by
  constructor
  · intro h
    refine ⟨⟨?_, fun i => ?_⟩, hz, fun i => (pair_append_right i).1 (h.2 _)⟩
    · cases x with
      | nil => simp
      | cons c x => exact h.1
    · by_cases hi : i < x.length
      · exact (pair_append_left hz hi).1 (h.2 i)
      · exact pair_of_length_le (Nat.le_of_not_lt hi)
  · rintro ⟨hx, hz'⟩
    refine ⟨?_, fun i => ?_⟩
    · cases x with
      | nil => exact hz
      | cons c x => exact hx.1
    · by_cases hi : i < x.length
      · exact (pair_append_left hz hi).2 (hx.2 i)
      · obtain ⟨j, rfl⟩ := Nat.exists_eq_add_of_le (Nat.le_of_not_lt hi)
        exact (pair_append_right j).2 (hz'.2 j)

theorem Paired.append {x z : List Char} (hx : Paired x) (hz : Paired z) : Paired (x ++ z) :=
  (paired_append_iff hz.1).2 ⟨hx, hz⟩

/-- What follows another character than a carriage return does not start with a line feed. -/
theorem Paired.head_ne {x z : List Char} (h : Paired (x ++ z)) (hx : x.getLast? ≠ some '\r') :
    z[0]? ≠ some '\n' := by
  rcases List.eq_nil_or_concat' x with rfl | ⟨w, c, rfl⟩
  · exact h.1
  · intro hz
    have hlast : (w ++ [c] ++ z)[w.length]? = some c := by simp
    have hfirst : (w ++ [c] ++ z)[w.length + 1]? = z[0]? := by
      rw [List.getElem?_append_right (by simp)]
      simp
    have hpair := h.2 w.length
    rw [hlast, hfirst] at hpair
    exact hx (by rw [List.getLast?_concat, hpair.2 hz])

/-- A line feed of a paired text comes with a carriage return, and either side is paired. -/
theorem Paired.exists_of_feed {x z : List Char} (h : Paired (x ++ '\n' :: z)) :
    ∃ w, x = w ++ ['\r'] ∧ Paired w ∧ Paired z := by
  have hlast : x.getLast? = some '\r' := by
    by_contra hlast
    exact h.head_ne hlast rfl
  obtain ⟨w, rfl⟩ := List.getLast?_eq_some_iff.1 hlast
  have hsplit : w ++ ['\r'] ++ '\n' :: z = w ++ ("\r\n".toList ++ z) := by simp
  rw [hsplit] at h
  obtain ⟨hw, hbehind⟩ := (paired_append_iff (by simp)).1 h
  exact ⟨w, rfl, hw, ((paired_append_iff (hbehind.head_ne (by decide))).1 hbehind).2⟩

end ConsoleSweep.Text

namespace ConsoleSweep.Removal

open ConsoleSweep.Text ConsoleSweep.Call

/-! ## Manners of breaking lines -/

/-- The rest of the text follows another character than a carriage return, if there is a rest. -/
def EndsWhole (text rest : List Char) : Prop :=
  rest = [] ∨ ∃ w c, text = w ++ c :: rest ∧ c ≠ '\r'

theorem EndsWhole.append {text rest : List Char} (h : EndsWhole text rest) (x : List Char) :
    EndsWhole (x ++ text) rest := by
  rcases h with h | ⟨w, c, rfl, hc⟩
  · exact .inl h
  · exact .inr ⟨x ++ w, c, (List.append_assoc _ _ _).symm, hc⟩

/-- What stands before the rest of the text parts no line break: it does not start with a line feed,
nor end with a carriage return. -/
structure Sealed (text rest : List Char) : Prop where
  start : text[0]? ≠ some '\n'
  stop : EndsWhole text rest

/-- A property of texts that goes by their line breaks. It holds of texts joined, and of either side
of a part that parts no line break. It also holds when a run of blank lines is replaced. -/
structure Manner (P : List Char → Prop) : Prop where
  append : ∀ {x z}, P x → P z → P (x ++ z)
  cut : ∀ {x y z}, Sealed (y ++ z) z → P (x ++ (y ++ z)) → P x ∧ P z
  collapse : ∀ {x u z}, P (x ++ '\n' :: (u ++ '\n' :: z)) →
    P (x ++ collapsed ('\n' :: (u ++ ['\n']))) ∧ P z

/-- Texts without carriage returns. -/
theorem manner_not_mem : Manner ('\r' ∉ ·) where
  append hx hz := by simp [hx, hz]
  cut _ h := by
    simp only [List.mem_append, not_or] at h
    exact ⟨h.1, h.2.2⟩
  collapse {x u z} h := by
    simp only [List.mem_append, List.mem_cons, not_or] at h
    obtain ⟨hx, -, hu, -, hz⟩ := h
    have hrun : holds "\r\n".toList ('\n' :: (u ++ ['\n'])) = false := by
      refine Bool.eq_false_iff.2 fun hrun => ?_
      obtain ⟨v, w, e⟩ := holds_iff.1 hrun
      have hmem : '\r' ∈ '\n' :: (u ++ ['\n']) := e ▸ by simp
      simp [hu] at hmem
    refine ⟨?_, hz⟩
    unfold collapsed
    rw [if_neg (Bool.eq_false_iff.1 hrun)]
    simp [hx]

/-- Texts with paired line breaks. -/
theorem manner_paired : Manner Paired where
  append := Paired.append
  cut {x y z} hs h := by
    obtain ⟨hx, hbehind⟩ := (paired_append_iff hs.start).1 h
    refine ⟨hx, ?_⟩
    rcases hs.stop with rfl | ⟨w, c, e, hc⟩
    · decide
    · rw [e, List.append_cons] at hbehind
      exact ((paired_append_iff (hbehind.head_ne (by simpa using hc))).1 hbehind).2
  collapse {x u z} h := by
    obtain ⟨w, rfl, hw, hrest⟩ := h.exists_of_feed
    obtain ⟨v, rfl, -, hz⟩ := hrest.exists_of_feed
    -- The last line break of the run is a pair, so pairs stand for the run.
    have hrun : holds "\r\n".toList ('\n' :: (v ++ ['\r'] ++ ['\n'])) = true :=
      holds_iff.2 ⟨'\n' :: v, [], by simp⟩
    have hlines : Paired "\r\n\r\n\r\n".toList := by decide
    refine ⟨?_, hz⟩
    unfold collapsed
    rw [if_pos hrun, List.append_assoc]
    exact hw.append hlines

/-! ## Matches part no line break -/

/-- No match of the search parts a line break. -/
def Seals (m : Matcher) : Prop :=
  ∀ prev text z, m prev text = some z → Sealed text z

theorem Seals.of_mem {m : Matcher} (h : Seals m) (adv : Advances m) {prev : Option Char}
    {text : List Char} {g : Hit} (hg : g ∈ hits m prev text) : Sealed g.here g.rest := by
  obtain ⟨x, y, z, -, -, rfl, hm⟩ := mem_hits adv hg
  exact h _ _ _ hm

theorem start_of_skipIndent {text cs : List Char} {c : Char} (h : skipIndent text = c :: cs)
    (hc : c ≠ '\n') : text[0]? ≠ some '\n' := by
  cases text with
  | nil => simp
  | cons d ds =>
    rintro e
    obtain rfl : d = '\n' := by simpa using e
    rw [skipIndent_cons_of_not (by decide)] at h
    exact hc (List.cons.inj h).1.symm

/-- A match that goes from an indent and a head to a whole end. -/
theorem sealed_of_head {names : List String} {prev : Option Char} {text r z : List Char}
    (hr : r ∈ indentedHeads names prev text) (hz : EndsWhole r z) : Sealed text z := by
  obtain ⟨cs, hcs⟩ := exists_cons_of_mem_heads hr
  refine ⟨start_of_skipIndent hcs (by decide), ?_⟩
  obtain ⟨y, rfl, -⟩ := indentedHeads_split hr
  exact hz.append y

theorem endsWhole_statementEnd {text z : List Char} (h : statementEnd text = some z) :
    EndsWhole text z := by
  obtain ⟨b₁, semi, b₂, brk, rfl, -, -, -, hbrk⟩ := statementEnd_eq_some h
  rcases hbrk with rfl | rfl | ⟨-, rfl⟩
  · exact .inr ⟨b₁ ++ (semi ++ b₂), '\n', by simp, by decide⟩
  · exact .inr ⟨b₁ ++ (semi ++ (b₂ ++ ['\r'])), '\n', by simp, by decide⟩
  · exact .inl rfl

theorem endsWhole_afterFirstClose {text z : List Char} (h : afterFirstClose text = some z) :
    EndsWhole text z := by
  obtain ⟨args, rest, rfl, -, rfl⟩ := afterFirstClose_eq_some.1 h
  obtain ⟨b, hb, hskipped⟩ := skipSemicolon_skipIndent_split rest
  generalize skipSemicolon (skipIndent rest) = z at hb
  subst hb
  refine EndsWhole.append (.inr ?_) args
  rcases List.eq_nil_or_concat' b with rfl | ⟨w, c, rfl⟩
  · exact ⟨[], ')', rfl, by decide⟩
  · refine ⟨')' :: w, c, by simp, ?_⟩
    rintro rfl
    rcases hskipped '\r' (by simp) with h | h <;> exact absurd h (by decide)

theorem endsWhole_afterLine (text : List Char) : EndsWhole text (afterLine text) := by
  induction text with
  | nil => exact .inl rfl
  | cons c cs ih =>
    rw [afterLine]
    split
    · next hc => exact .inr ⟨[], c, rfl, by rw [hc]; decide⟩
    · exact ih.append [c]

theorem seals_singleLine (names : List String) : Seals (singleLine names) := by
  intro prev text z h
  unfold singleLine at h
  split at h
  · obtain ⟨r, hr, hz⟩ := List.exists_of_findSome?_eq_some h
    obtain ⟨after, hlast, hend⟩ := Option.bind_eq_some_iff.1 hz
    obtain ⟨args, rfl⟩ := afterLastClose_split hlast
    exact sealed_of_head hr ((endsWhole_statementEnd hend).append args)
  · cases h

theorem seals_nestedStatement (names : List String) : Seals (nestedStatement names) := by
  intro prev text z h
  unfold nestedStatement at h
  split at h
  · obtain ⟨r, hr, hz⟩ := List.exists_of_findSome?_eq_some h
    obtain ⟨args, after, rfl, hend, -⟩ := afterEnding_of_groups hz
    have hclose := (endsWhole_statementEnd hend).append (args ++ [')'])
    rw [List.append_assoc] at hclose
    exact sealed_of_head hr hclose
  · cases h

theorem seals_inlineCall (names : List String) : Seals (inlineCall names) := by
  intro prev text z h
  obtain ⟨r, hr, hz⟩ := List.exists_of_findSome?_eq_some h
  exact sealed_of_head hr (endsWhole_afterFirstClose hz)

theorem seals_commentedLine (names : List String) : Seals (commentedLine names) := by
  intro prev text z h
  unfold commentedLine at h
  split at h
  · split at h
    · next rest hskip =>
      obtain ⟨r, hr, rfl⟩ := Option.map_eq_some_iff.1 h
      refine ⟨start_of_skipIndent hskip (by decide), ?_⟩
      obtain ⟨y, rfl, -⟩ := indentedHeads_split (List.mem_of_mem_head? hr)
      rw [← skipIndent_split text, hskip]
      exact (endsWhole_afterLine r).append y |>.append ['/', '/'] |>.append _
    · cases h
  · cases h

theorem seals_loneIndent : Seals loneIndent := by
  intro prev text z h
  obtain ⟨-, -, e, hne⟩ := loneIndent_eq_some h
  have hblank := isIndent_takeWhile text
  generalize text.takeWhile isIndent = ind at e hne hblank
  subst e
  constructor
  · cases ind with
    | nil => contradiction
    | cons c cs =>
      rintro e
      obtain rfl : c = '\n' := by simpa using e
      exact absurd (hblank '\n' List.mem_cons_self) (by decide)
  · rcases List.eq_nil_or_concat' ind with rfl | ⟨w, c, rfl⟩
    · contradiction
    · refine .inr ⟨w, c, by simp, ?_⟩
      rintro rfl
      exact absurd (hblank '\r' (by simp)) (by decide)

theorem sealed_of_isCallBlock {names : List String} {y z : List Char}
    (h : isCallBlock names ⟨y ++ z, z⟩ = true) : Sealed (y ++ z) z := by
  simp only [isCallBlock, Hit.part_mk, Comment.isClosedBlock, Bool.and_eq_true] at h
  obtain ⟨-, ⟨⟨hp, -⟩, hs⟩, -⟩ := h
  constructor
  · obtain ⟨v, rfl⟩ := List.isPrefixOf_iff_prefix.1 hp
    simp
  · obtain ⟨u, rfl⟩ := List.isSuffixOf_iff_suffix.1 hs
    exact .inr ⟨u ++ ['*'], '/', by simp, by decide⟩

/-! ## Removals keep the manner of breaking lines -/

/-- What holds of texts joined holds of a text with its matches rewritten, if it does with one of
them rewritten. -/
theorem rewritten_induction {P : List Char → Prop} (append : ∀ {x z}, P x → P z → P (x ++ z))
    {f : List Char → List Char} {hs : List Hit} {text : List Char} (parts : Parts hs text)
    (step : ∀ g ∈ hs, ∀ x y z, g = ⟨y ++ z, z⟩ → P (x ++ (y ++ z)) → P (x ++ f y) ∧ P z)
    (h : P text) : P (rewritten f hs text) := by
  induction parts with
  | nil => exact h
  | cons x y z _ _ ih =>
    obtain ⟨hx, hz⟩ := step _ List.mem_cons_self x y z rfl h
    rw [rewritten_cons, ← List.append_assoc]
    exact append hx (ih (fun g hg => step g (List.mem_cons_of_mem _ hg)) hz)

namespace Manner

variable {P : List Char → Prop} (hP : Manner P)
include hP

theorem rewritten {hs : List Hit} {text : List Char} (parts : Parts hs text)
    (hseal : ∀ g ∈ hs, Sealed g.here g.rest) (h : P text) :
    P (Text.rewritten (fun _ => []) hs text) := by
  refine rewritten_induction hP.append parts (fun g hg x y z e hx => ?_) h
  subst e
  rw [List.append_nil]
  exact hP.cut (hseal _ hg) hx

theorem cut_hits {m : Matcher} (adv : Advances m) (hm : Seals m) (p : Hit → Bool)
    {text : List Char} (h : P text) :
    P (Text.rewritten (fun _ => []) ((hits m none text).filter p) text) := by
  refine hP.rewritten ((parts_hits adv none text).filter p) (fun g hg => ?_) h
  exact hm.of_mem adv (List.mem_filter.1 hg).1

theorem cut_findAll {m : Matcher} (adv : Advances m) (hm : Seals m) {text : List Char}
    (h : P text) : P (Text.cut (findAll m text) text) := by
  rw [Text.cut_findAll adv]
  exact hP.rewritten (parts_hits adv none text) (fun g hg => hm.of_mem adv hg) h

theorem removeInlineOnce (names : List String) {text : List Char} (h : P text) :
    P (removeInlineOnce names text) := by
  rw [removeInlineOnce_eq]
  exact hP.cut_hits (covers_inlineCall names).advances (seals_inlineCall names) _ h

theorem removeBlocks (names : List String) {text : List Char} (h : P text) :
    P (removeBlocks names text) := by
  rw [removeBlocks_eq]
  refine hP.rewritten ((parts_hits Comment.advances_token none text).filter _) (fun g hg => ?_) h
  obtain ⟨hmem, hblock⟩ := List.mem_filter.1 hg
  obtain ⟨x, y, z, -, -, rfl, -⟩ := mem_hits Comment.advances_token hmem
  exact sealed_of_isCallBlock hblock

theorem round (names : List String) {text : List Char} (h : P text) : P (round names text) := by
  have hsingle := hP.cut_findAll (covers_singleLine names).advances (seals_singleLine names) h
  have hnested :=
    hP.cut_findAll (covers_nestedStatement names).advances (seals_nestedStatement names) hsingle
  have hinline :=
    settle_induction (P := P) (fun _ => hP.removeInlineOnce names) inlineLimit _ hnested
  have hcommented :=
    hP.cut_findAll (covers_commentedLine names).advances (seals_commentedLine names) hinline
  exact hP.removeBlocks names hcommented

theorem normalizeBlankLines {text : List Char} (h : P text) : P (normalizeBlankLines text) := by
  rw [normalizeBlankLines_eq]
  refine hP.cut_findAll advances_loneIndent seals_loneIndent ?_
  rw [shortened_eq]
  refine rewritten_induction hP.append (parts_hits advances_blankRun none text) ?_ h
  intro g hg x y z e hx
  obtain ⟨x', y', z', -, -, rfl, hm⟩ := mem_hits advances_blankRun hg
  obtain ⟨hsame, rfl⟩ := Hit.mk.inj e
  obtain rfl := List.append_cancel_right hsame
  obtain ⟨u, -, hrun⟩ := blankRun_eq_some hm
  obtain rfl : y' = '\n' :: (u ++ ['\n']) := by
    apply List.append_cancel_right
    rw [hrun]
    simp
  rw [hrun] at hx
  exact hP.collapse hx

/-- A removal keeps the manner of breaking lines. -/
theorem removeCalls (methods : List String) {text : List Char} (h : P text) :
    P (removeCalls methods text) := by
  rw [removeCalls_eq]
  split
  · exact h
  · refine hP.normalizeBlankLines ?_
    exact settle_induction (P := P) (fun _ => hP.round (normalizeNames methods)) roundLimit text h

end Manner

/-- A removal brings no carriage return into a text without, and takes neither half of a pair in
a text in which carriage returns and line feeds come in pairs. -/
theorem removeCalls_keeps_line_endings (methods : List String) (text : List Char) :
    ('\r' ∉ text → '\r' ∉ removeCalls methods text) ∧
      (Paired text → Paired (removeCalls methods text)) :=
  ⟨manner_not_mem.removeCalls methods, manner_paired.removeCalls methods⟩

/-- A call, a run of blank lines with an indent on one of them, and a commented call. -/
def pairedLines : List Char :=
  "a();\r\nconsole.log(1);\r\n\r\n  \r\n\r\n\r\nb();\r\n// console.log(2);\r\n".toList

theorem removeCalls_keeps_pairedLines :
    Paired pairedLines ∧ Paired (removeCalls ["log"] pairedLines) ∧
      removeCalls ["log"] pairedLines = "a();\r\n\r\n\r\nb();\r\n".toList := by
  have h : Paired pairedLines := by decide +kernel
  exact ⟨h, (removeCalls_keeps_line_endings ["log"] pairedLines).2 h, by decide +kernel⟩

end ConsoleSweep.Removal
