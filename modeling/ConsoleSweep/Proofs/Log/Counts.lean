/-
  What the log counts.

  A record that is not about the counters adds one to the sum of its level, and a record from
  the level of an error on adds one more to the sum of errors (`Record.share`). A sum is known
  by the name of a level in small letters. So it grows by the number of records whose level
  goes by that name up to case, but the sum of errors also by the number of all records that
  are as bad (`total_after_records`). The levels' own names never differ in case only
  (`levelName_eq_of_counterOf`); a record may be given another name for its level, and if that
  is no text the record is refused and counted nowhere.
-/
import ConsoleSweep.Proofs.Counters
import ConsoleSweep.Proofs.Disk.Medium
import ConsoleSweep.Proofs.Store.Files
import Mathlib.Algebra.Ring.Int.Defs

namespace ConsoleSweep

namespace Log

/-! ## Names of levels -/

/-- The names of the levels that are not named by their number. -/
def ownNames : List String :=
  ["CRITICAL", "ERROR", "WARNING", "INFO", "DEBUG", "NOTSET"]

theorem levelName_cases (level : Level) :
    levelName level ∈ ownNames ∨ levelName level = "Level " ++ Text.ofInt level := by
  unfold levelName
  iterate 6
    split
    · exact .inl (by decide)
  exact .inr rfl

theorem counterOf_eq_iff {a b : String} :
    counterOf a = counterOf b ↔ Text.small a.toList = Text.small b.toList := by
  unfold counterOf
  rw [← String.toList_inj, String.toList_append, String.toList_append, List.append_cancel_left_eq,
    String.toList_ofList, String.toList_ofList]

/-- In ASCII it does not matter what comes before or behind a letter. -/
theorem small_of_isAscii {text : List Char} (h : Text.IsAscii text) :
    Text.small text = text.map Char.toLower := by
  have from_before : ∀ (text before : List Char), Text.IsAscii text →
      Text.smallFrom before text = text.map Char.toLower := by
    intro text
    induction text with
    | nil => exact fun _ _ => rfl
    | cons c rest ih =>
      intro before h
      have hc : c.toNat < 0x80 := h c List.mem_cons_self
      have hsigma : c ≠ 'Σ' := by
        rintro rfl
        exact absurd hc (by decide)
      rw [Text.smallFrom, if_neg hsigma, Text.smalls, if_pos hc,
        ih _ fun d hd => h d (List.mem_cons_of_mem _ hd)]
      rfl
  exact from_before text [] h

theorem toLower_toDigits (n : Nat) :
    (Nat.toDigits 10 n).map Char.toLower = Nat.toDigits 10 n := by
  refine (List.map_congr_left fun c hc => ?_).trans (List.map_id _)
  have hdigit : c.isDigit = true := Nat.isDigit_of_mem_toDigits (by decide) (by decide) hc
  have hle : c.val ≤ 57 := by
    simp only [Char.isDigit, Bool.and_eq_true, decide_eq_true_eq] at hdigit
    exact hdigit.2
  exact dif_neg fun hupper => absurd (UInt32.le_trans hupper.1 hle) (by decide)

theorem toLower_toList_ofInt (n : Int) :
    (Text.ofInt n).toList.map Char.toLower = (Text.ofInt n).toList := by
  rw [Json.toList_ofInt]
  split
  · exact congrArg ('-' :: ·) (toLower_toDigits _)
  · exact toLower_toDigits _

/-- Two levels that are counted under one name have one name. -/
theorem levelName_eq_of_counterOf {a b : Level}
    (h : counterOf (levelName a) = counterOf (levelName b)) : levelName a = levelName b := by
  have hown : ∀ x ∈ ownNames, ∀ y ∈ ownNames,
      Text.small x.toList = Text.small y.toList → x = y := by decide
  have hapart : ∀ x ∈ ownNames, ¬ "level ".toList <+: Text.small x.toList := by decide
  have hnumbered : ∀ n : Int, Text.small ("Level " ++ Text.ofInt n).toList =
      "level ".toList ++ (Text.ofInt n).toList := by
    intro n
    have hascii : Text.IsAscii ("Level " ++ Text.ofInt n).toList := by
      rw [String.toList_append]
      exact Text.isAscii_append.2 ⟨by decide, Text.isAscii_ofInt n⟩
    rw [small_of_isAscii hascii, String.toList_append, List.map_append, toLower_toList_ofInt]
    rfl
  rw [counterOf_eq_iff] at h
  rcases levelName_cases a with ha | ha
  · rcases levelName_cases b with hb | hb
    · exact hown _ ha _ hb h
    · rw [hb, hnumbered] at h
      exact absurd (h ▸ List.prefix_append _ _) (hapart _ ha)
  · rcases levelName_cases b with hb | hb
    · rw [ha, hnumbered] at h
      exact absurd (h ▸ List.prefix_append _ _) (hapart _ hb)
    · rw [ha, hb, hnumbered, hnumbered, List.append_cancel_left_eq, String.toList_inj] at h
      rw [ha, hb, h]

/-! ## The share of a record -/

/-- What a record adds to the sum of a name. -/
def Record.share (r : Record) (name : String) : Int :=
  if r.isInternal then 0
  else
    match r.label.str? with
    | none => 0
    | some label =>
      (if name = counterOf label then 1 else 0) +
        (if error ≤ r.level ∧ name = "log.error" then 1 else 0)

/-- What the counters answer to a record: they refuse it if its level has something else than a text
for a name. -/
def Record.answer (r : Record) : Except Fault Unit :=
  if r.isInternal || r.label.str?.isSome then .ok () else .error .noPart

/-- Whether the level of a record goes by that name, up to case. -/
def Record.isOf (level : String) (r : Record) : Bool :=
  r.label.str?.any fun label => Text.small label.toList = Text.small level.toList

/-- The records that are counted: they are not about the counters, and their level has a name. -/
def counted (records : List Record) : List Record :=
  records.filter fun r => !r.isInternal && r.label.str?.isSome

/-- How many of the records that are counted have a level of that name. -/
def countOf (level : String) (records : List Record) : Nat :=
  (counted records).countP (Record.isOf level)

/-- How many of the records that are counted are at least errors. -/
def troubles (records : List Record) : Nat :=
  (counted records).countP fun r => error ≤ r.level

/-- What the records add to the sum of a level, all in all. -/
theorem sum_share (level : String) (records : List Record) :
    (records.map fun r => r.share (counterOf level)).sum =
      (countOf level records : Int) +
        (if counterOf level = counterOf "ERROR" then (troubles records : Int) else 0) := by
  have herror : counterOf "ERROR" = "log.error" := by decide
  induction records with
  | nil => simp [countOf, troubles, counted]
  | cons r records ih =>
    rw [List.map_cons, List.sum_cons, ih, herror]
    unfold Record.share countOf troubles counted
    by_cases hi : r.isInternal = true
    · simp [hi]
    cases hlabel : r.label.str? with
    | none => simp [hi, hlabel]
    | some label =>
      have hof : Record.isOf level r = decide (counterOf label = counterOf level) := by
        rw [Record.isOf, hlabel, Option.any_some]
        exact decide_eq_decide.2 counterOf_eq_iff.symm
      simp only [hi, hlabel, Bool.false_eq_true, if_false, Bool.not_false, Bool.true_and,
        Option.isSome_some, List.filter_cons_of_pos, List.countP_cons, hof, decide_eq_true_eq,
        eq_comm (a := counterOf level) (b := counterOf label)]
      by_cases hlevel : counterOf label = counterOf level
      all_goals by_cases hbad : error ≤ r.level
      all_goals by_cases he : counterOf level = "log.error"
      all_goals simp [hlevel, hbad, he]
      all_goals omega

/-- Records that were given no name for their level are told by the very name of the level. -/
theorem countOf_levelName {level : Level} {records : List Record}
    (h : ∀ r ∈ records, r.extras.lookup "levelname" = none) :
    countOf (levelName level) records =
      (records.filter fun r => !r.isInternal).countP fun r => levelName r.level = levelName level := by
  unfold countOf counted
  rw [List.countP_filter, List.countP_filter]
  refine List.countP_congr fun r hr => ?_
  have hlabel : r.label.str? = some (levelName r.level) := by
    unfold Record.label Record.attribute
    rw [h r hr]
    rfl
  have hname : Text.small (levelName r.level).toList = Text.small (levelName level).toList ↔
      levelName r.level = levelName level :=
    counterOf_eq_iff.symm.trans ⟨levelName_eq_of_counterOf, congrArg counterOf⟩
  simp [Record.isOf, hlabel, hname]

end Log

theorem World.Sound.total_add_zero {w : World} (h : w.Sound) (name : String) :
    w.total name + .int 0 = w.total name := by
  obtain ⟨n, hn⟩ := h.exists_total name
  rw [hn]
  exact congrArg Number.int (Int.add_zero n)

theorem World.Sound.total_add {w : World} (h : w.Sound) (name : String) (a b : Int) :
    w.total name + .int a + .int b = w.total name + .int (a + b) := by
  obtain ⟨n, hn⟩ := h.exists_total name
  rw [hn]
  exact congrArg Number.int (Int.add_assoc n a b)

namespace Sweep

open Log (counterOf levelName)

variable {w : World}

/-! ## One record and many -/

/-- A count under a name is made, and adds to the sum of that name only. -/
theorem run_record (hw : w.Sound) (name : String) (success : Bool) (k : Int) : ∃ w',
    (count fun m now => m.record now name success (.int k)).run.run w = (.ok (), w') ∧ w'.Sound ∧
      ∀ other, w'.total other = w.total other + .int (if other = name then k else 0) := by
  obtain ⟨⟨⟩, w', hr, hl⟩ := calm_record name success k w hw
  exact ⟨w', hr, hl.sound, total_of_record hw hr⟩

/-- A record adds its share to each sum. -/
theorem run_countRecord (hw : w.Sound) (r : Log.Record) : ∃ w',
    (countRecord r).run.run w = (r.answer, w') ∧ w'.Sound ∧
      ∀ name, w'.total name = w.total name + .int (r.share name) := by
  unfold countRecord Log.Record.share Log.Record.answer
  by_cases hi : r.isInternal = true
  · simp only [hi, if_true, Bool.true_or]
    exact ⟨w, rfl, hw, fun name => (hw.total_add_zero name).symm⟩
  simp only [hi, Bool.false_eq_true, if_false, Bool.false_or]
  cases r.label.str? with
  | none => exact ⟨w, rfl, hw, fun name => (hw.total_add_zero name).symm⟩
  | some label =>
    obtain ⟨w₁, hr₁, hs₁, ht₁⟩ := run_record hw (counterOf label) (r.level < Log.error) 1
    by_cases hbad : Log.error ≤ r.level
    · obtain ⟨w₂, hr₂, hs₂, ht₂⟩ := run_record hs₁ "log.error" false 1
      refine ⟨w₂, ?_, hs₂, fun name => ?_⟩
      · refine (run_bind_eq hr₁ _).trans ?_
        rw [if_pos hbad]
        exact hr₂
      · rw [ht₂, ht₁, hw.total_add]
        simp only [hbad, true_and]
    · refine ⟨w₁, ?_, hs₁, fun name => ?_⟩
      · refine (run_bind_eq hr₁ _).trans ?_
        rw [if_neg hbad]
        rfl
      · rw [ht₁]
        simp only [hbad, false_and, if_false, Int.add_zero]

/-- Records that come to the counters, each at a time of day, and the answers to them. -/
def countRecords : List (Number × Log.Record) → Sweep (List (Except Fault Unit))
  | [] => return []
  | (now, r) :: records => do
    modify fun w => { w with now }
    let answer ← Sweep.attempt (countRecord r)
    return answer :: (← countRecords records)

/-- Each sum grows by the shares of the records. -/
theorem run_countRecords (hw : w.Sound) (records : List (Number × Log.Record)) : ∃ w',
    (countRecords records).run.run w = (.ok (records.map fun e => e.2.answer), w') ∧ w'.Sound ∧
      ∀ name, w'.total name = w.total name + .int (records.map fun e => e.2.share name).sum := by
  induction records generalizing w with
  | nil => exact ⟨w, rfl, hw, fun name => (hw.total_add_zero name).symm⟩
  | cons e records ih =>
    obtain ⟨now, r⟩ := e
    have hnow : World.Sound { w with now } := hw
    obtain ⟨w₁, hr₁, hs₁, ht₁⟩ := run_countRecord hnow r
    obtain ⟨w₂, hr₂, hs₂, ht₂⟩ := ih hs₁
    have attempted := run_attempt (countRecord r) { w with now }
    rw [hr₁] at attempted
    refine ⟨w₂, ?_, hs₂, fun name => ?_⟩
    · refine (run_bind_eq (run_modify _ w) _).trans ?_
      refine (run_bind_eq attempted _).trans ?_
      exact run_bind_eq hr₂ _
    · have htotal : World.total { w with now } name = w.total name := rfl
      rw [ht₂, ht₁, htotal, hw.total_add, List.map_cons, List.sum_cons]

/-- The sum of a level grows by the number of records whose level goes by that name, up to case, and
that are not about the counters. Only the sum of errors grows by more: every such record that is at
least an error is counted there once again. A record is refused only if its level has something
else than a text for a name. Where no record was given a name for its level, those of a level are
told by its very name. -/
theorem total_after_records (hw : w.Sound) (records : List (Number × Log.Record))
    (level : String) :
    (∃ w', (countRecords records).run.run w = (.ok (records.map fun e => e.2.answer), w') ∧
      w'.total (counterOf level) = w.total (counterOf level) +
        .int (Log.countOf level (records.map (·.2)) +
          if counterOf level = counterOf "ERROR" then (Log.troubles (records.map (·.2)) : Int)
          else 0)) ∧
    ∀ l : Log.Level, level = levelName l →
      (∀ e ∈ records, e.2.extras.lookup "levelname" = none) →
      Log.countOf level (records.map (·.2)) =
        ((records.map (·.2)).filter fun r => !r.isInternal).countP
          fun r => levelName r.level = level := by
  constructor
  · obtain ⟨w', hr, -, ht⟩ := run_countRecords hw records
    refine ⟨w', hr, ?_⟩
    have hshares : (records.map fun e => e.2.share (counterOf level)) =
        (records.map (·.2)).map fun r => r.share (counterOf level) := by
      rw [List.map_map]
      rfl
    rw [ht, hshares, Log.sum_share]
  · rintro l rfl hplain
    refine Log.countOf_levelName fun r hr => ?_
    obtain ⟨e, he, rfl⟩ := List.mem_map.1 hr
    exact hplain e he

/-- A record of a level, without anything special. -/
def plainRecord (level : Log.Level) : Log.Record :=
  ⟨"app", level, "message", [], .unknown, .int 0, [], false⟩

/-- `total_after_records` for errors at a row of records: of different levels, one about the
counters, one whose level was given the name of another, and one with a number for a name. -/
theorem total_after_mixed_records : Store.bareWorld.Sound ∧ ∃ w',
    (countRecords [(.int 1, plainRecord Log.info), (.int 2, plainRecord Log.critical),
      (.int 3, { plainRecord Log.error with isInternal := true }),
      (.int 3, { plainRecord Log.debug with extras := [("levelname", .str "Error")] }),
      (.int 4, { plainRecord Log.error with extras := [("levelname", .int 40)] }),
      (.int 4, plainRecord Log.error)]).run.run Store.bareWorld =
        (.ok [.ok (), .ok (), .ok (), .ok (), .error .noPart, .ok ()], w') ∧
      w'.total "log.error" = .int 4 := by
  have hw : Store.bareWorld.Sound := by
    rintro m ⟨⟩
  refine ⟨hw, ?_⟩
  obtain ⟨⟨w', hr, ht⟩, -⟩ := total_after_records hw [(.int 1, plainRecord Log.info),
    (.int 2, plainRecord Log.critical), (.int 3, { plainRecord Log.error with isInternal := true }),
    (.int 3, { plainRecord Log.debug with extras := [("levelname", .str "Error")] }),
    (.int 4, { plainRecord Log.error with extras := [("levelname", .int 40)] }),
    (.int 4, plainRecord Log.error)] "ERROR"
  exact ⟨w', hr, ht⟩

/-- A single record of an error adds two to the sum of its level. -/
theorem error_counted_twice : ∃ w',
    (countRecords [(.int 0, plainRecord Log.error)]).run.run Store.bareWorld =
        (.ok [.ok ()], w') ∧
      Log.countOf "ERROR" [plainRecord Log.error] = 1 ∧
      w'.total (counterOf "ERROR") ≠ Store.bareWorld.total (counterOf "ERROR") + .int 1 := by
  have hw : Store.bareWorld.Sound := by
    rintro m ⟨⟩
  obtain ⟨w', hr, -, ht⟩ := run_countRecords hw [(.int 0, plainRecord Log.error)]
  refine ⟨w', hr, by decide, fun h => ?_⟩
  have hone : Number.int 2 = .int 1 := (ht _).symm.trans h
  exact absurd (Number.int.inj hone) (by decide)

end Sweep

end ConsoleSweep
