/-
  How a list of methods is written has no effect.

  The names are tried one after the other, so where two of them fit at a place the order
  could decide what is found. For plain names it does not: whichever name fits, the head ends
  at the same parenthesis (`heads_unique`). So the head at a place depends only on which names
  there are (`head_eq_of_same`), and it is all that a pass asks of the names
  (`patterns_eq_of_head`).
-/
import ConsoleSweep.Proofs.Calls

namespace ConsoleSweep.Text

/-- The lists have the same names as they are used: blanks around a name, the order of the names,
repeated and blank ones make no difference. -/
def SameNames (methods methods' : List String) : Prop :=
  ∀ name, name ≠ "" → (name ∈ methods.map trimmed ↔ name ∈ methods'.map trimmed)

theorem mem_normalizeNames_of_same {methods methods' : List String}
    (h : SameNames methods methods') (name : String) :
    name ∈ normalizeNames methods ↔ name ∈ normalizeNames methods' := by
  rw [mem_normalizeNames, mem_normalizeNames]
  exact and_congr_left fun hne => h name hne

end ConsoleSweep.Text

namespace ConsoleSweep.Call

open ConsoleSweep.Text

variable {names names' : List String}

theorem mem_heads_of_same (h : ∀ name, name ∈ names ↔ name ∈ names') {prev : Option Char}
    {text r : List Char} : r ∈ heads names prev text ↔ r ∈ heads names' prev text := by
  simp only [mem_heads_iff, h]

theorem head_eq_of_same (hw : Wordy names) (hw' : Wordy names')
    (h : ∀ name, name ∈ names ↔ name ∈ names') : head names = head names' := by
  funext prev text
  refine Option.ext fun r => ?_
  rw [head_eq_some_iff hw, head_eq_some_iff hw', mem_heads_of_same h]

end ConsoleSweep.Call

namespace ConsoleSweep.Removal

open ConsoleSweep.Text ConsoleSweep.Call

variable {names names' : List String}

/-- The patterns of the passes ask for the heads only. -/
theorem patterns_eq_of_head (hw : Wordy names) (hw' : Wordy names')
    (h : head names = head names') :
    singleLine names = singleLine names' ∧ nestedStatement names = nestedStatement names' ∧
      inlineCall names = inlineCall names' ∧ commentedLine names = commentedLine names' := by
  have hfind : ∀ (f : List Char → Option (List Char)) (prev : Option Char) (text : List Char),
      (indentedHeads names prev text).findSome? f =
        (indentedHeads names' prev text).findSome? f := by
    intro f prev text
    unfold indentedHeads
    rw [findSome?_heads hw, findSome?_heads hw', h]
  refine ⟨?_, ?_, ?_, ?_⟩ <;> funext prev text
  · unfold singleLine
    rw [hfind]
  · unfold nestedStatement
    rw [hfind]
  · exact hfind afterFirstClose prev text
  · have hhead : ∀ text, (indentedHeads names (some '/') text).head? =
        (indentedHeads names' (some '/') text).head? :=
      fun text => congrFun (congrFun h (beforeIndented (some '/') text)) (skipIndent text)
    unfold commentedLine
    simp only [hhead]

theorem round_eq_of_head (hw : Wordy names) (hw' : Wordy names') (h : head names = head names') :
    round names = round names' := by
  obtain ⟨hsingle, hnested, hinline, hcommented⟩ := patterns_eq_of_head hw hw' h
  funext text
  unfold round removeBlocks callBlocks removeCommented removeInline removeInlineOnce erasable
    removeNested removeSingle
  rw [hsingle, hnested, hinline, hcommented, h]

/-- Two lists with the same plain names find the same calls and leave the same text. -/
theorem same_names_same_result (methods methods' : List String) (text : List Char)
    (hw : Wordy (methods.map trimmed)) (h : SameNames methods methods') :
    calls methods text = calls methods' text ∧
      removeCalls methods text = removeCalls methods' text := by
  have hsame := mem_normalizeNames_of_same h
  have hnames := wordy_of_trimmed hw
  have hnames' : Wordy (normalizeNames methods') := fun name hname =>
    hnames name ((hsame name).2 hname)
  have hhead := head_eq_of_same hnames hnames' hsame
  refine ⟨?_, ?_⟩
  · rw [calls_eq, calls_eq, hhead]
  · rw [removeCalls_eq, removeCalls_eq, swept, swept, round_eq_of_head hnames hnames' hhead]

/-- Two names of which one begins the other, in either order. -/
theorem same_names_same_result_reordered :
    Wordy (["log", "logger", " log ", ""].map trimmed) ∧
      SameNames ["log", "logger", " log ", ""] ["logger", "log"] ∧
      removeCalls ["logger", "log"]
        "run(console.logger(1));\nconsole. log(2);\nrest();\n".toList =
          "run();\nrest();\n".toList := by
  have hw : Wordy (["log", "logger", " log ", ""].map trimmed) := wordy_of_all (by decide +kernel)
  have hsame : SameNames ["log", "logger", " log ", ""] ["logger", "log"] := by
    have hleft : ["log", "logger", " log ", ""].map trimmed = ["log", "logger", "log", ""] := by
      decide +kernel
    have hright : ["logger", "log"].map trimmed = ["logger", "log"] := by decide +kernel
    intro name hne
    rw [hleft, hright]
    simp only [List.mem_cons, List.not_mem_nil, hne]
    tauto
  refine ⟨hw, hsame, ?_⟩
  rw [← (same_names_same_result _ _ _ hw hsame).2]
  decide +kernel

end ConsoleSweep.Removal
