/-
  Settings files that cannot be used.

  What is wrong with a settings file is reported, and the environment or the defaults take
  its place, with three exceptions (`Stops`): bytes that are no text, a text that is too
  large to be parsed, and a part for a group that is a value of another kind. For each of
  these, loading is given up where the file was read, with the settings of the environment.
-/
import ConsoleSweep.Proofs.Config.Load

namespace ConsoleSweep.Config

open Sweep Settings Text

variable {w : World} {root : Path} {bytes : Bytes} {data : Raw} {key : String}

/-- What a settings file says; nothing, if it is no text, no JSON or no object. -/
def contentOf (bytes : Bytes) : Raw :=
  match Text.decode bytes with
  | .error _ => []
  | .ok text =>
    match Json.parse (trim (unifyBreaks text)) with
    | .ok (.obj fields) => fields
    | _ => []

/-- The part is a value that counts as there and has no fields. -/
def Misplaced (data : Raw) (key : String) : Prop :=
  ∃ v, data.lookup key = some v ∧ v.fields? = none ∧ v.isTruthy = true

/-- The bytes at which loading is given up. -/
inductive Stops (bytes : Bytes) : Prop where
  | noText {e : Utf8Error} (h : Text.decode bytes = .error e)
  | tooLarge {text : List Char} {e : Json.ParseError} (ht : Text.decode bytes = .ok text)
      (hp : Json.parse (trim (unifyBreaks text)) = .error e) (hm : e.isMalformed = false)
  | misplaced (h : Misplaced (contentOf bytes) "cleaner" ∨ Misplaced (contentOf bytes) "runtime")

theorem section_of_misplaced (h : Misplaced data key) : section_ data key = .error .badType := by
  obtain ⟨v, hv, hf, ht⟩ := h
  unfold section_
  rw [hv]
  cases v with
  | obj fs => simp [Json.fields?] at hf
  | null | bool _ | int _ | real _ | str _ | arr _ => simp [ht]

theorem section_of_not_misplaced (h : ¬ Misplaced data key) :
    section_ data key = .ok (partIn data key) := by
  unfold section_ partIn
  cases hl : data.lookup key with
  | none => rfl
  | some v =>
    cases v with
    | obj fs => rfl
    | null | bool _ | int _ | real _ | str _ | arr _ =>
      have hfalse : ¬ Json.isTruthy _ = true := fun ht => h ⟨_, hl, rfl, ht⟩
      simp [hfalse]

/-- The content of a file is its data, unless it is no text or too large. -/
theorem dataOf_cases (bytes : Bytes) :
    dataOf bytes = .ok (contentOf bytes) ∨ Stops bytes ∧ ∃ f, dataOf bytes = .error f := by
  unfold dataOf contentOf
  cases hd : Text.decode bytes with
  | error e => exact .inr ⟨.noText hd, _, rfl⟩
  | ok text =>
    dsimp only
    cases hp : Json.parse (trim (unifyBreaks text)) with
    | ok v => cases v <;> exact .inl rfl
    | error e =>
      cases hm : e.isMalformed with
      | true => exact .inl (by simp [hm])
      | false => exact .inr ⟨.tooLarge hd hp hm, .ofParse e, by simp [hm]⟩

theorem partsOf_of_not_stops (h : ¬ Stops bytes) :
    partsOf bytes = .ok (partIn (contentOf bytes) "cleaner", partIn (contentOf bytes) "runtime") := by
  rcases dataOf_cases bytes with hdata | ⟨hs, -⟩
  · exact partsOf_eq_ok hdata (section_of_not_misplaced fun hm => h (.misplaced (.inl hm)))
      (section_of_not_misplaced fun hm => h (.misplaced (.inr hm)))
  · exact absurd hs h

theorem exists_partsOf_of_stops (h : Stops bytes) : ∃ f, partsOf bytes = .error f := by
  unfold partsOf
  rcases dataOf_cases bytes with hdata | ⟨-, f, hdata⟩
  · rw [hdata]
    cases h with
    | noText h =>
      unfold dataOf at hdata
      rw [h] at hdata
      cases hdata
    | tooLarge ht hp hm =>
      unfold dataOf at hdata
      simp only [ht, hp, hm] at hdata
      cases hdata
    | misplaced h =>
      rcases h with h | h
      · exact ⟨.badType, by simp only [bind, Except.bind, section_of_misplaced h]⟩
      · cases hc : section_ (contentOf bytes) "cleaner" with
        | error f => exact ⟨f, by simp only [bind, Except.bind, hc]⟩
        | ok top => exact ⟨.badType, by simp only [bind, Except.bind, hc, section_of_misplaced h]⟩
  · rw [hdata]
    exact ⟨f, rfl⟩

/-- Without files of variables, any bytes in the settings file leave usable settings. They are given
up on at the bytes that stop loading, with the settings of the environment, and only there; else
each group is made of its part of the file and the environment, and is all defaults if these
cannot be used. Names in the file with half a pair of units are told apart only as far as they are
read (`Json.codeChar`). -/
theorem loadAll_of_any_file {f : Disk.File} (hs : w.Sound) (henv : NoEnvFiles root w)
    (hn : '\x00' ∉ (settingsFile { root }).text.toList)
    (hf : w.disk.file? (settingsFile { root }).text = some f) :
    ∃ c stop w', (loadAll { root }).run.run w = (.ok (c, stop), w') ∧
      c.cleaner.Valid ∧ c.runtime.Valid ∧ (stop.isSome ↔ Stops f.bytes) ∧
      (Stops f.bytes → c.cleaner = CleanerSettings.orDefaults (cleanerVars w.env) ∧
        c.runtime = RuntimeSettings.orDefaults (runtimeVars w.env)) ∧
      (¬ Stops f.bytes →
        c.cleaner = CleanerSettings.orDefaults
          (Json.overlay (cleanerVars w.env) (partIn (contentOf f.bytes) "cleaner")) ∧
        c.runtime = RuntimeSettings.orDefaults
          (Json.overlay (runtimeVars w.env) (partIn (contentOf f.bytes) "runtime"))) := by
  have hfile : (withVars { root } w.env).settingsFile = settingsFile { root } := rfl
  rw [← hfile] at hn hf
  obtain ⟨w', hload, -⟩ := run_loadAll hs (run_loadEnv henv rfl) hn hf
  by_cases hstop : Stops f.bytes
  · obtain ⟨fault, hparts⟩ := exists_partsOf_of_stops hstop
    rw [hparts] at hload
    refine ⟨_, some fault, w', hload, CleanerSettings.valid_orDefaults _,
      RuntimeSettings.valid_orDefaults _, by simp [hstop], fun _ => ⟨rfl, rfl⟩,
      fun h => absurd hstop h⟩
  · rw [partsOf_of_not_stops hstop] at hload
    exact ⟨_, none, w', hload, CleanerSettings.valid_orDefaults _,
      RuntimeSettings.valid_orDefaults _, by simp [hstop], fun h => absurd h hstop,
      fun _ => ⟨rfl, rfl⟩⟩

/-- A brace that is not closed is reported, and what the environment says stays. -/
theorem loadAll_of_open_brace : ∃ c w',
    (loadAll { root := ⟨"/", []⟩ }).run.run
        (project [("HOME", "/"), ("CONSOLE_CLEANER_METHODS", "log")] [0x7b]) =
      (.ok (c, none), w') ∧ c.cleaner.methods = ["log"] := by
  have htext : Text.decode [0x7b] = .ok ['\x7b'] := by with_unfolding_all rfl
  have hparse : Json.parse (trim (unifyBreaks ['\x7b'])) = .error ⟨.propertyName, 1, 2, 1⟩ := by
    with_unfolding_all rfl
  have hcontent : contentOf [0x7b] = [] := by
    unfold contentOf
    simp only [htext, hparse]
  have hgo : ¬ Stops [0x7b] := by
    rintro (h | ⟨ht, hp, hm⟩ | ⟨v, hv, -⟩ | ⟨v, hv, -⟩)
    · simp [htext] at h
    · obtain rfl := Except.ok.inj (htext.symm.trans ht)
      obtain rfl := Except.error.inj (hparse.symm.trans hp)
      cases hm
    · simp [hcontent] at hv
    · simp [hcontent] at hv
  obtain ⟨c, stop, w', hload, -, -, hstop, -, hkept⟩ :=
    loadAll_of_any_file (sound_project [("HOME", "/"), ("CONSOLE_CLEANER_METHODS", "log")] [0x7b])
      (noEnvFiles_project rfl) (by decide +kernel) (file?_project _ _)
  have hnone : stop = none := by
    rw [← Option.not_isSome_iff_eq_none, hstop]
    exact hgo
  subst hnone
  refine ⟨c, w', hload, ?_⟩
  rw [(hkept hgo).1, hcontent]
  with_unfolding_all rfl

/-- A byte that is no text stops loading. -/
theorem loadAll_stops_at_byte : ∃ c f w',
    (loadAll { root := ⟨"/", []⟩ }).run.run (project [("HOME", "/")] [0xff]) =
      (.ok (c, some f), w') := by
  have hstop : Stops [0xff] :=
    .noText (e := ⟨0xff, 0, 1, .badStart⟩) (by with_unfolding_all rfl)
  obtain ⟨f, hparts⟩ := exists_partsOf_of_stops hstop
  obtain ⟨w', hload, -⟩ := run_loadAll (c := { root := ⟨"/", []⟩ })
    (sound_project [("HOME", "/")] [0xff]) (run_loadEnv (noEnvFiles_project rfl) rfl)
    (by decide +kernel) (file?_project _ _)
  rw [hparts] at hload
  exact ⟨_, f, w', hload⟩

end ConsoleSweep.Config
