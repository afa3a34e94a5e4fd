/-
  What a removal leaves.

  A removal leaves no more calls than there were, for plain method names: each deletion
  brings two parts of the text together, which makes at most one new head, and takes at
  least one away.

  A second removal changes nothing if and only if the rounds of the first one came to rest
  within their limit. They need not, and a name with a line break in it can be made by
  tidying blank lines.
-/
import ConsoleSweep.Proofs.Removal.BlankLines
import ConsoleSweep.Proofs.Text.Names

namespace ConsoleSweep.Text

/-! ## Names -/

theorem mem_of_mem_trimRight {c : Char} {text : List Char} (h : c ∈ trimRight text) :
    c ∈ text := by
  induction text with
  | nil => exact h
  | cons d cs ih =>
    rw [trimRight] at h
    split at h
    · split at h
      · simp at h
      · rw [List.mem_singleton.1 h]
        exact List.mem_cons_self
    · rcases List.mem_cons.1 h with rfl | h
      · exact List.mem_cons_self
      · exact List.mem_cons_of_mem d (ih h)

/-- The characters of a name as it is used are characters of the name as it was given. -/
theorem mem_of_mem_normalizeNames {names : List String} {name : String}
    (h : name ∈ normalizeNames names) :
    ∃ given ∈ names, ∀ c ∈ name.toList, c ∈ given.toList := by
  obtain ⟨given, hg, rfl⟩ := List.mem_map.1 (mem_normalizeNames.1 h).1
  refine ⟨given, hg, fun c hc => ?_⟩
  rw [trimmed, String.toList_ofList] at hc
  exact (List.dropWhile_suffix _).subset (mem_of_mem_trimRight hc)

end ConsoleSweep.Text

namespace ConsoleSweep.Call

open ConsoleSweep.Text

/-- Names are checked character by character. -/
theorem wordy_of_all {names : List String}
    (h : (names.all fun name => name.toList.all fun c => isWord c || c == '$') = true) :
    Wordy names := by
  intro name hn c hc
  have hword := List.all_eq_true.1 (List.all_eq_true.1 h name hn) c hc
  simpa using hword

theorem Wordy.oneLine {names : List String} (h : Wordy names) : OneLine names := by
  intro name hn hc
  have : isWord '\n' = false := isWord_of_isBlank (by decide)
  rcases h name hn '\n' hc with hw | he
  · rw [this] at hw
    simp at hw
  · exact absurd he (by decide)

end ConsoleSweep.Call

namespace ConsoleSweep.Removal

open ConsoleSweep.Text ConsoleSweep.Call

theorem wordy_normalizeNames {methods : List String} (h : Wordy methods) :
    Wordy (normalizeNames methods) := by
  intro name hn c hc
  obtain ⟨given, hg, hsub⟩ := mem_of_mem_normalizeNames hn
  exact h given hg c (hsub c hc)

/-! ## The rounds together -/

/-- What the rounds of a removal leave, before blank lines are tidied. -/
def swept (methods : List String) (text : List Char) : List Char :=
  settle (round (normalizeNames methods)) roundLimit text

theorem passes_eq_self_of_no_call {names : List String} {text : List Char}
    (hn : ¬ HoldsCall names none text) :
    removeSingle names text = text ∧ removeNested names text = text ∧
      removeInlineOnce names text = text ∧ removeCommented names text = text ∧
      removeBlocks names text = text :=
  ⟨(shed_removeSingle names text).eq_of_no_call hn,
    (shed_removeNested names text).eq_of_no_call hn,
    (shed_removeInlineOnce names text).eq_of_no_call hn,
    (shed_removeCommented names text).eq_of_no_call hn,
    (shed_removeBlocks names text).eq_of_no_call hn⟩

theorem round_nil (text : List Char) : round [] text = text := by
  have hn : ¬ HoldsCall [] none text := by
    rintro ⟨x, z, r, -, hr⟩
    obtain ⟨-, name, hname, -⟩ := mem_heads_iff.1 hr
    simp at hname
  exact (round_eq_self_iff [] text).2 (passes_eq_self_of_no_call hn)

/-- Without names there is nothing to find, so that case needs no rule of its own. -/
theorem removeCalls_eq (methods : List String) (text : List Char) :
    removeCalls methods text =
      if swept methods text = text then text else normalizeBlankLines (swept methods text) := by
  unfold removeCalls swept
  by_cases hn : normalizeNames methods = []
  · simp only [hn, List.isEmpty_nil, ite_true, settle_of_eq (round_nil text)]
  · have : (normalizeNames methods).isEmpty = false := by simpa using hn
    simp only [this, Bool.false_eq_true, ite_false]

/-! ## The number of calls -/

theorem tally_round_le {names : List String} (hw : Wordy names) (text : List Char) :
    tally names none (round names text) ≤ tally names none text := by
  have inline : ∀ t, tally names none (removeInline names t) ≤ tally names none t := by
    intro t
    refine settle_induction (P := fun r => tally names none r ≤ tally names none t) ?_
      inlineLimit t (Nat.le_refl _)
    intro r hr
    exact Nat.le_trans ((shed_removeInlineOnce names r).tally_le hw) hr
  unfold round
  calc tally names none (removeBlocks names _)
      ≤ tally names none (removeCommented names _) := (shed_removeBlocks names _).tally_le hw
    _ ≤ tally names none (removeInline names _) := (shed_removeCommented names _).tally_le hw
    _ ≤ tally names none (removeNested names _) := inline _
    _ ≤ tally names none (removeSingle names text) := (shed_removeNested names _).tally_le hw
    _ ≤ tally names none text := (shed_removeSingle names text).tally_le hw

theorem tally_swept_le {methods : List String} (hw : Wordy (normalizeNames methods))
    (text : List Char) :
    tally (normalizeNames methods) none (swept methods text) ≤
      tally (normalizeNames methods) none text := by
  refine settle_induction (P := fun t => tally (normalizeNames methods) none t ≤
    tally (normalizeNames methods) none text) ?_ roundLimit text (Nat.le_refl _)
  intro t ht
  exact Nat.le_trans (tally_round_le hw t) ht

theorem count_eq {methods : List String} (hn : normalizeNames methods ≠ []) (text : List Char) :
    count methods text = (hits (head (normalizeNames methods)) none text).length := by
  unfold count calls
  rw [if_neg (by simpa using hn), findAll_eq (advances_head _), List.length_map]

/-- A removal leaves no more calls than there were. -/
theorem count_removeCalls_le (methods : List String) (text : List Char) (hw : Wordy methods) :
    count methods (removeCalls methods text) ≤ count methods text := by
  by_cases hn : normalizeNames methods = []
  · simp [removeCalls, hn]
  have hw' := wordy_normalizeNames hw
  rw [count_eq hn, count_eq hn, removeCalls_eq]
  split
  · exact Nat.le_refl _
  · rw [length_hits_normalizeBlankLines hw'.oneLine, length_hits_head hw', length_hits_head hw']
    exact tally_swept_le hw' text

/-- The call in the middle is deleted, and what stood around it is a call that stays. -/
theorem count_removeCalls_le_joined :
    Wordy ["log"] ∧
      count ["log"] (removeCalls ["log"]
        "x = console.console.log(1);log(function()\x7b\x7d)".toList) ≤
      count ["log"] "x = console.console.log(1);log(function()\x7b\x7d)".toList := by
  have hw : Wordy ["log"] := wordy_of_all (by decide +kernel)
  exact ⟨hw, count_removeCalls_le ["log"] _ hw⟩

/-! ## Repeated removals -/

/-- A removal changes a text if and only if a round does. -/
theorem removeCalls_eq_self_iff (methods : List String) (text : List Char) :
    removeCalls methods text = text ↔ round (normalizeNames methods) text = text := by
  have trims := trims_round (normalizeNames methods)
  have hiff : swept methods text = text ↔ round (normalizeNames methods) text = text :=
    settle_eq_self_iff trims 9 text
  rw [removeCalls_eq, ← hiff]
  split
  · next h => exact ⟨fun _ => h, fun _ => rfl⟩
  · next h =>
    refine ⟨fun e => ?_, fun e => absurd e h⟩
    -- Tidying blank lines does not give back what the rounds have taken.
    have hlt : weight (swept methods text) < weight text := trims.settle roundLimit text h
    have hw := weight_normalizeBlankLines (swept methods text)
    rw [e] at hw
    omega

/-- A second removal changes nothing if and only if the rounds of the first one came to rest. -/
theorem removeCalls_idempotent_iff (methods : List String) (text : List Char)
    (hn : OneLine (normalizeNames methods)) :
    removeCalls methods (removeCalls methods text) = removeCalls methods text ↔
      round (normalizeNames methods) (swept methods text) = swept methods text := by
  rw [removeCalls_eq_self_iff, removeCalls_eq]
  split
  · next h => rw [h]
  · exact round_normalizeBlankLines_eq_self_iff hn (swept methods text)

/-- One call that is deleted at once, and nothing to do afterwards. -/
theorem removeCalls_idempotent_at_rest :
    OneLine (normalizeNames ["log"]) ∧
      removeCalls ["log"] (removeCalls ["log"] "a();\nconsole.log(1);\nb();".toList) =
        removeCalls ["log"] "a();\nconsole.log(1);\nb();".toList := by
  have hn : OneLine (normalizeNames ["log"]) := by unfold OneLine; decide +kernel
  exact ⟨hn, (removeCalls_idempotent_iff ["log"] _ hn).2 (by decide +kernel)⟩

/-- Ten calls that come about one after the other, each as the line of a comment, and one more. -/
def nestedComments : List Char :=
  (List.replicate 10 "//console\n".toList).flatten ++ "//console.log(\n".toList ++
    (List.replicate 10 ".log(\n".toList).flatten

/-- The rounds need not come to rest, and tidying blank lines can make a name. -/
theorem removeCalls_not_idempotent :
    removeCalls ["log"] (removeCalls ["log"] nestedComments) ≠ removeCalls ["log"] nestedComments ∧
      removeCalls ["a\n\n\nb"] (removeCalls ["a\n\n\nb"]
        "//console.a\n\n\nb(\nx; console.a\n\n\n\nb(x)".toList) ≠
      removeCalls ["a\n\n\nb"] "//console.a\n\n\nb(\nx; console.a\n\n\n\nb(x)".toList := by
  decide +kernel

/-! ## Passes on their own -/

/-- The names that a pass on its own looks for: without names it is the empty one. -/
def soughtNames (methods : List String) : List String :=
  match normalizeNames methods with
  | [] => [""]
  | names => names

theorem wordy_soughtNames {methods : List String} (hw : Wordy methods) :
    Wordy (soughtNames methods) := by
  have hn := wordy_normalizeNames hw
  unfold soughtNames
  cases hm : normalizeNames methods with
  | nil => simp [Wordy]
  | cons name names =>
    rw [hm] at hn
    exact hn

/-- Each pass on its own leaves a text as it is if and only if a round does. -/
theorem passes_eq_self_iff (methods : List String) (text : List Char) :
    (∀ pass : Pass, pass ≠ .blank → pass.run methods text = text) ↔
      round (soughtNames methods) text = text := by
  have hinline : Pass.inline.run methods text = text ↔
      removeInlineOnce (soughtNames methods) text = text :=
    settle_eq_self_iff (trims_of_shed (shed_removeInlineOnce _)) 4 text
  rw [round_eq_self_iff, ← hinline]
  constructor
  · intro h
    exact ⟨h .single (by simp), h .nested (by simp), h .inline (by simp), h .commented (by simp),
      h .block (by simp)⟩
  · rintro ⟨hsingle, hnested, hinline, hcommented, hblock⟩ pass hp
    cases pass with
    | single => exact hsingle
    | nested => exact hnested
    | inline => exact hinline
    | commented => exact hcommented
    | block => exact hblock
    | blank => contradiction

/-- A text that no pass changes is still one that no pass changes once its blank lines are tidied. -/
theorem passes_keep_tidied (methods : List String) (text : List Char) (hw : Wordy methods)
    (h : ∀ pass : Pass, pass ≠ .blank → pass.run methods text = text) :
    ∀ pass : Pass, pass ≠ .blank →
      pass.run methods (normalizeBlankLines text) = normalizeBlankLines text := by
  have hround := (passes_eq_self_iff methods text).1 h
  rw [← round_normalizeBlankLines_eq_self_iff (wordy_soughtNames hw).oneLine] at hround
  exact (passes_eq_self_iff methods _).2 hround

/-- A call that no pass takes, over lines of which one has only whitespace: tidying makes the lines
fewer, with carriage returns where there were none. -/
def spreadCall : List Char :=
  "x = console\n\r\n \n\u00a0\n.log(\"\x7b\x7d\");\n".toList

theorem passes_keep_tidied_spreadCall :
    normalizeBlankLines spreadCall ≠ spreadCall ∧
      ∀ pass : Pass, pass ≠ .blank →
        pass.run ["log"] (normalizeBlankLines spreadCall) = normalizeBlankLines spreadCall := by
  have hw : Wordy ["log"] := wordy_of_all (by decide +kernel)
  refine ⟨by decide +kernel, passes_keep_tidied ["log"] spreadCall hw fun pass hp => ?_⟩
  cases pass with
  | blank => contradiction
  | _ => decide +kernel

end ConsoleSweep.Removal
