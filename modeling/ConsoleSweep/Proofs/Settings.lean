/-
  Settings come through their own validation.

  Validation puts each field into a normal form: names are trimmed, there is no blank one and
  none comes twice, file endings have their point, and times are not negative. `Valid` says
  this of settings. Validation gives such settings (`valid_of_validate`), and gives them back
  as they are when it is asked again (`validate_fields`). What it gives depends on what is
  found under the known keys and on the fields that are not known (`validate_congr`).
-/
import ConsoleSweep.Proofs.Json.Fields
import ConsoleSweep.Proofs.Text.Names
import ConsoleSweep.Settings

namespace ConsoleSweep

/-! ## Rules -/

namespace Settings

open ConsoleSweep.Text

variable {α : Type} {field : String} {v : Json} {names : List String} {raw raw' : Raw} {x : Float}

theorem stringItems_map (field : String) (i : Nat) (names : List String) :
    stringItems field i (names.map .str) = .ok names := by
  induction names generalizing i with
  | nil => rfl
  | cons n names ih =>
    unfold stringItems
    simp only [List.map_cons, ih]

theorem stringList_listJson (field : String) (names : List String) :
    stringList field (listJson names) = .ok names :=
  stringItems_map field 0 names

theorem tidy_of_methodNames (h : methodNames field v = .ok names) : Tidy names ∧ names ≠ [] := by
  unfold methodNames at h
  cases hl : stringList field v with
  | error e => simp [hl, bind, Except.bind] at h
  | ok given =>
    simp only [hl, bind, Except.bind] at h
    split at h
    · simp [refuse] at h
    · next hne =>
      obtain rfl := Except.ok.inj h
      exact ⟨tidy_normalizeNames given, hne⟩

theorem methodNames_listJson (h : Tidy names) (hne : names ≠ []) :
    methodNames field (listJson names) = .ok names := by
  unfold methodNames
  simp only [stringList_listJson, bind, Except.bind, normalizeNames_of_tidy h]

theorem tidy_of_folderNames (h : folderNames field v = .ok names) : Tidy names := by
  obtain ⟨given, -, rfl⟩ := Json.exists_of_map_eq_ok h
  exact tidy_normalizeNames given

theorem folderNames_listJson (h : Tidy names) : folderNames field (listJson names) = .ok names := by
  unfold folderNames
  rw [stringList_listJson]
  simp only [Except.map, normalizeNames_of_tidy h]

/-- The ending has its point. -/
def HasPoint (ending : String) : Prop :=
  ending.toList.head? = some '.'

instance (ending : String) : Decidable (HasPoint ending) :=
  inferInstanceAs (Decidable (_ = _))

theorem dotted_of_hasPoint {ending : String} (h : HasPoint ending) : dotted ending = ending :=
  if_pos h

theorem hasPoint_dotted (ending : String) : HasPoint (dotted ending) := by
  unfold dotted
  split
  · assumption
  · simp [HasPoint]

/-- A point at the start is no blank, so it is there after trimming. -/
theorem hasPoint_trimmed {ending : String} (h : HasPoint ending) : HasPoint (trimmed ending) := by
  obtain ⟨cs, hcs⟩ := List.head?_eq_some_iff.1 h
  have hblank : isBlank '.' = false := by decide
  have hskip : skipBlank ('.' :: cs) = '.' :: cs :=
    skipBlank_of_head fun c hc => Option.some.inj hc ▸ hblank
  unfold HasPoint trimmed trim
  rw [hcs, hskip, trimRight_cons, if_neg (by simp [hblank])]
  simp

theorem tidy_of_fileEndings (h : fileEndings field v = .ok names) :
    Tidy names ∧ ∀ e ∈ names, HasPoint e := by
  obtain ⟨given, -, rfl⟩ := Json.exists_of_map_eq_ok h
  refine ⟨tidy_normalizeNames _, fun e he => ?_⟩
  unfold normalizeNames at he
  rw [List.mem_eraseDups] at he
  obtain ⟨d, hd, rfl⟩ := List.mem_map.1 (List.mem_filter.1 he).1
  obtain ⟨n, -, rfl⟩ := List.mem_map.1 hd
  exact hasPoint_trimmed (hasPoint_dotted n)

theorem fileEndings_listJson (h : Tidy names) (hp : ∀ e ∈ names, HasPoint e) :
    fileEndings field (listJson names) = .ok names := by
  have hdotted : names.map dotted = names :=
    (List.map_congr_left fun e he => dotted_of_hasPoint (hp e he)).trans (List.map_id' names)
  unfold fileEndings
  rw [stringList_listJson]
  simp only [Except.map, normalizeNames_of_tidy h, hdotted]

theorem optionalString_optionalJson (field : String) (s : Option String) :
    optionalString field (optionalJson s) = .ok s := by
  cases s <;> rfl

theorem positive_eq_ok (h : positive field v = .ok x) : 0.0 < x := by
  unfold positive at h
  cases hf : float field v with
  | error e => simp [hf, bind, Except.bind] at h
  | ok y =>
    simp only [hf, bind, Except.bind] at h
    split at h
    · next hy =>
      obtain rfl := Except.ok.inj h
      exact hy
    · simp [refuse] at h

theorem positive_real (h : 0.0 < x) : positive field (.real x) = .ok x :=
  if_pos h

theorem notNegative_eq_ok (h : notNegative field v = .ok x) : 0.0 ≤ x := by
  unfold notNegative at h
  cases hf : float field v with
  | error e => simp [hf, bind, Except.bind] at h
  | ok y =>
    simp only [hf, bind, Except.bind] at h
    split at h
    · next hy =>
      obtain rfl := Except.ok.inj h
      exact hy
    · simp [refuse] at h

theorem notNegative_real (h : 0.0 ≤ x) : notNegative field (.real x) = .ok x :=
  if_pos h

/-! ## Fields -/

variable {rule : String → Json → Checked α} {default a : α} {known : List String}

theorem fieldOr_of_some (h : raw.lookup field = some v) :
    fieldOr raw field rule default = rule field v := by
  simp [fieldOr, h]

theorem fieldOr_of_none (h : raw.lookup field = none) :
    fieldOr raw field rule default = .ok default := by
  simp [fieldOr, h]

theorem fieldOr_congr (h : raw.lookup field = raw'.lookup field) :
    fieldOr raw field rule default = fieldOr raw' field rule default := by
  simp [fieldOr, h]

/-- The value of a field has what both the rule and the default have. -/
theorem of_fieldOr {Q : α → Prop} (h : fieldOr raw field rule default = .ok a)
    (hrule : ∀ v, rule field v = .ok a → Q a) (hdefault : Q default) : Q a := by
  cases hl : raw.lookup field with
  | none =>
    rw [fieldOr_of_none hl] at h
    exact Except.ok.inj h ▸ hdefault
  | some v =>
    rw [fieldOr_of_some hl] at h
    exact hrule v h

theorem not_known_of_mem_extrasOf {f : String × Json} (h : f ∈ extrasOf known raw) :
    f.1 ∉ known := by
  simpa using (List.mem_filter.1 h).2

theorem extrasOf_of_not_known (h : ∀ f ∈ raw, f.1 ∉ known) : extrasOf known raw = raw :=
  List.filter_eq_self.2 fun f hf => by simpa using h f hf

theorem extrasOf_of_known (h : ∀ f ∈ raw, f.1 ∈ known) : extrasOf known raw = [] :=
  List.filter_eq_nil_iff.2 fun f hf => by simpa using h f hf

theorem extrasOf_overlay (known : List String) (base top : Raw) :
    extrasOf known (Json.overlay base top) =
      Json.overlay (extrasOf known base) (extrasOf known top) :=
  Json.filter_overlay (fun k => !known.contains k) base top

/-- Known fields below others leave no trace among the unknown ones. -/
theorem extrasOf_overlay_known {base top : Raw} (hb : ∀ f ∈ base, f.1 ∈ known)
    (ht : Json.KeyedOnce top) : extrasOf known (Json.overlay base top) = extrasOf known top := by
  have hx : Json.KeyedOnce (extrasOf known top) := ht.filter _
  rw [extrasOf_overlay, extrasOf_of_known hb, Json.overlay_eq_append hx (by simp)]
  rfl

/-- Nor do known fields on top of others. -/
theorem extrasOf_overlay_of_known {base top : Raw} (ht : ∀ f ∈ top, f.1 ∈ known) :
    extrasOf known (Json.overlay base top) = extrasOf known base := by
  rw [extrasOf_overlay, extrasOf_of_known ht]
  rfl

end Settings

/-! ## What is swept -/

namespace CleanerSettings

open Settings Text

variable {raw raw' : Raw} {s : CleanerSettings}

/-- Settings on what is swept in their normal form. -/
structure Valid (s : CleanerSettings) : Prop where
  methods : Tidy s.methods
  someMethod : s.methods ≠ []
  ignored : Tidy s.ignored
  endings : Tidy s.endings
  points : ∀ e ∈ s.endings, HasPoint e
  extras : ∀ f ∈ s.extras, f.1 ∉ known

/-- Validation is the reading of each field by its rule. -/
theorem validate_eq_ok : validate raw = .ok s ↔
    fieldOr raw "console_methods" methodNames defaultMethods = .ok s.methods ∧
    fieldOr raw "ignore_folders" folderNames defaultIgnored = .ok s.ignored ∧
    fieldOr raw "file_extensions" fileEndings defaultEndings = .ok s.endings ∧
    fieldOr raw "auto_scan_on_startup" bool true = .ok s.scanFirst ∧
    fieldOr raw "confirm_before_cleaning" bool true = .ok s.confirm ∧
    extrasOf known raw = s.extras := by
  unfold validate
  dsimp only
  split
  · next h₁ h₂ h₃ h₄ h₅ =>
    rw [h₁, h₂, h₃, h₄, h₅]
    simp only [Except.ok.injEq]
    constructor
    · rintro rfl
      exact ⟨rfl, rfl, rfl, rfl, rfl, rfl⟩
    · rintro ⟨rfl, rfl, rfl, rfl, rfl, hx⟩
      rw [hx]
  · next hne =>
    refine ⟨fun h => by simp at h, fun ⟨h₁, h₂, h₃, h₄, h₅, _⟩ => ?_⟩
    exact absurd h₅ (hne _ _ _ _ _ h₁ h₂ h₃ h₄)

theorem validate_congr (h : ∀ k ∈ known, raw.lookup k = raw'.lookup k)
    (he : extrasOf known raw = extrasOf known raw') : validate raw = validate raw' := by
  unfold validate
  rw [fieldOr_congr (h "console_methods" (by decide)), fieldOr_congr (h "ignore_folders" (by decide)),
    fieldOr_congr (h "file_extensions" (by decide)),
    fieldOr_congr (h "auto_scan_on_startup" (by decide)),
    fieldOr_congr (h "confirm_before_cleaning" (by decide)), he]

theorem valid_of_validate (h : validate raw = .ok s) : s.Valid := by
  obtain ⟨hm, hi, he, -, -, hx⟩ := validate_eq_ok.1 h
  have hmethods : Tidy s.methods ∧ s.methods ≠ [] :=
    of_fieldOr (Q := fun names => Tidy names ∧ names ≠ []) hm (fun _ => tidy_of_methodNames)
      (by decide)
  have hendings : Tidy s.endings ∧ ∀ e ∈ s.endings, HasPoint e :=
    of_fieldOr (Q := fun names => Tidy names ∧ ∀ e ∈ names, HasPoint e) he
      (fun _ => tidy_of_fileEndings) (by decide)
  refine ⟨hmethods.1, hmethods.2, of_fieldOr hi (fun _ => tidy_of_folderNames) (by decide),
    hendings.1, hendings.2, fun f hf => ?_⟩
  rw [← hx] at hf
  exact not_known_of_mem_extrasOf hf

theorem valid_default : ({} : CleanerSettings).Valid := by
  have h : validate [] = .ok {} := rfl
  exact valid_of_validate h

theorem lookup_fields (s : CleanerSettings) :
    s.fields.lookup "console_methods" = some (listJson s.methods) ∧
    s.fields.lookup "ignore_folders" = some (listJson s.ignored) ∧
    s.fields.lookup "file_extensions" = some (listJson s.endings) ∧
    s.fields.lookup "auto_scan_on_startup" = some (.bool s.scanFirst) ∧
    s.fields.lookup "confirm_before_cleaning" = some (.bool s.confirm) :=
  ⟨rfl, rfl, rfl, rfl, rfl⟩

theorem isSome_lookup_fields (s : CleanerSettings) {k : String} (h : k ∈ known) :
    (s.fields.lookup k).isSome = true := by
  obtain ⟨h₁, h₂, h₃, h₄, h₅⟩ := lookup_fields s
  simp only [known, List.mem_cons, List.not_mem_nil, or_false] at h
  rcases h with rfl | rfl | rfl | rfl | rfl
  · rw [h₁]; rfl
  · rw [h₂]; rfl
  · rw [h₃]; rfl
  · rw [h₄]; rfl
  · rw [h₅]; rfl

theorem Valid.extrasOf_fields (h : s.Valid) : extrasOf known s.fields = s.extras := by
  unfold fields extrasOf
  rw [List.filter_append]
  exact extrasOf_of_not_known h.extras

/-- Settings in their normal form are given back by validation. -/
theorem validate_fields (h : s.Valid) : validate s.fields = .ok s := by
  obtain ⟨h₁, h₂, h₃, h₄, h₅⟩ := lookup_fields s
  rw [validate_eq_ok, fieldOr_of_some h₁, fieldOr_of_some h₂, fieldOr_of_some h₃,
    fieldOr_of_some h₄, fieldOr_of_some h₅]
  exact ⟨methodNames_listJson h.methods h.someMethod, folderNames_listJson h.ignored,
    fileEndings_listJson h.endings h.points, rfl, rfl, h.extrasOf_fields⟩

end CleanerSettings

/-! ## The files of a run -/

namespace RuntimeSettings

open Settings Text

variable {raw raw' : Raw} {s : RuntimeSettings}

/-- Settings on the files of a run in their normal form. -/
structure Valid (s : RuntimeSettings) : Prop where
  watchInterval : 0.0 < s.watchInterval
  debounce : 0.0 ≤ s.debounce
  extras : ∀ f ∈ s.extras, f.1 ∉ known

/-- Validation is the reading of each field by its rule. -/
theorem validate_eq_ok : validate raw = .ok s ↔
    fieldOr raw "log_level" string ({} : RuntimeSettings).logLevel = .ok s.logLevel ∧
    fieldOr raw "store_path" string ({} : RuntimeSettings).storePath = .ok s.storePath ∧
    fieldOr raw "report_path" optionalString none = .ok s.reportPath ∧
    fieldOr raw "metrics_path" optionalString none = .ok s.metricsPath ∧
    fieldOr raw "watch_interval" positive ({} : RuntimeSettings).watchInterval =
      .ok s.watchInterval ∧
    fieldOr raw "debounce_seconds" notNegative ({} : RuntimeSettings).debounce = .ok s.debounce ∧
    extrasOf known raw = s.extras := by
  unfold validate
  dsimp only
  split
  · next h₁ h₂ h₃ h₄ h₅ h₆ =>
    rw [h₁, h₂, h₃, h₄, h₅, h₆]
    simp only [Except.ok.injEq]
    constructor
    · rintro rfl
      exact ⟨rfl, rfl, rfl, rfl, rfl, rfl, rfl⟩
    · rintro ⟨rfl, rfl, rfl, rfl, rfl, rfl, hx⟩
      rw [hx]
  · next hne =>
    refine ⟨fun h => by simp at h, fun ⟨h₁, h₂, h₃, h₄, h₅, h₆, _⟩ => ?_⟩
    exact absurd h₆ (hne _ _ _ _ _ _ h₁ h₂ h₃ h₄ h₅)

theorem validate_congr (h : ∀ k ∈ known, raw.lookup k = raw'.lookup k)
    (he : extrasOf known raw = extrasOf known raw') : validate raw = validate raw' := by
  unfold validate
  dsimp only
  rw [fieldOr_congr (h "log_level" (by decide)), fieldOr_congr (h "store_path" (by decide)),
    fieldOr_congr (h "report_path" (by decide)), fieldOr_congr (h "metrics_path" (by decide)),
    fieldOr_congr (h "watch_interval" (by decide)), fieldOr_congr (h "debounce_seconds" (by decide)),
    he]

theorem valid_of_validate (h : validate raw = .ok s) : s.Valid := by
  obtain ⟨-, -, -, -, hw, hd, hx⟩ := validate_eq_ok.1 h
  refine ⟨of_fieldOr hw (fun _ => positive_eq_ok) (by decide),
    of_fieldOr hd (fun _ => notNegative_eq_ok) (by decide), fun f hf => ?_⟩
  rw [← hx] at hf
  exact not_known_of_mem_extrasOf hf

theorem valid_default : ({} : RuntimeSettings).Valid := by
  have h : validate [] = .ok {} := rfl
  exact valid_of_validate h

theorem lookup_fields (s : RuntimeSettings) :
    s.fields.lookup "log_level" = some (.str s.logLevel) ∧
    s.fields.lookup "store_path" = some (.str s.storePath) ∧
    s.fields.lookup "report_path" = some (optionalJson s.reportPath) ∧
    s.fields.lookup "metrics_path" = some (optionalJson s.metricsPath) ∧
    s.fields.lookup "watch_interval" = some (.real s.watchInterval) ∧
    s.fields.lookup "debounce_seconds" = some (.real s.debounce) :=
  ⟨rfl, rfl, rfl, rfl, rfl, rfl⟩

theorem isSome_lookup_fields (s : RuntimeSettings) {k : String} (h : k ∈ known) :
    (s.fields.lookup k).isSome = true := by
  obtain ⟨h₁, h₂, h₃, h₄, h₅, h₆⟩ := lookup_fields s
  simp only [known, List.mem_cons, List.not_mem_nil, or_false] at h
  rcases h with rfl | rfl | rfl | rfl | rfl | rfl
  · rw [h₁]; rfl
  · rw [h₂]; rfl
  · rw [h₃]; rfl
  · rw [h₄]; rfl
  · rw [h₅]; rfl
  · rw [h₆]; rfl

theorem Valid.extrasOf_fields (h : s.Valid) : extrasOf known s.fields = s.extras := by
  unfold fields extrasOf
  rw [List.filter_append]
  exact extrasOf_of_not_known h.extras

/-- Settings in their normal form are given back by validation. -/
theorem validate_fields (h : s.Valid) : validate s.fields = .ok s := by
  obtain ⟨h₁, h₂, h₃, h₄, h₅, h₆⟩ := lookup_fields s
  rw [validate_eq_ok, fieldOr_of_some h₁, fieldOr_of_some h₂, fieldOr_of_some h₃,
    fieldOr_of_some h₄, fieldOr_of_some h₅, fieldOr_of_some h₆]
  exact ⟨rfl, rfl, optionalString_optionalJson _ _, optionalString_optionalJson _ _,
    positive_real h.watchInterval, notNegative_real h.debounce, h.extrasOf_fields⟩

end RuntimeSettings

end ConsoleSweep
