/-
  What an override changes.

  An override puts fields on top of all that the settings have, and validates the whole
  again. Validation has nothing to change in what it has given before (`Canonical`), so the
  fields that an override does not name come through as they are
  (`canonical_and_named_fields_only`).

  The two groups are validated one after the other, and the first is kept by then. So an
  override that is refused may have changed what is swept, but only as it was asked to, and
  never the settings on the files of a run (`override_refused_iff`).
-/
import ConsoleSweep.Proofs.Config.Precedence
import ConsoleSweep.Proofs.Config.Save

namespace ConsoleSweep

namespace Text

variable {source names : List String} {n : String}

/-! ## Names in the order in which they come first -/

/-- The names are those of the source, in the order in which they come first there. -/
structure FirstUses (source names : List String) : Prop where
  mem : ∀ n, n ∈ names ↔ n ∈ source
  ordered : names.Pairwise fun a b => source.idxOf a < source.idxOf b

theorem firstUses_eraseDups (source : List String) : FirstUses source source.eraseDups := by
  refine ⟨fun n => List.mem_eraseDups, ?_⟩
  induction source using List.reverseRecOn with
  | nil => exact List.Pairwise.nil
  | append_singleton names n ih =>
    have hbefore : names.eraseDups.Pairwise
        fun a b => (names ++ [n]).idxOf a < (names ++ [n]).idxOf b := by
      refine ih.imp_of_mem fun ha hb hlt => ?_
      rw [List.idxOf_append_of_mem (List.mem_eraseDups.1 ha),
        List.idxOf_append_of_mem (List.mem_eraseDups.1 hb)]
      exact hlt
    rw [eraseDups_concat]
    split
    · exact hbefore
    · next hn =>
      refine List.pairwise_append.2 ⟨hbefore, List.pairwise_singleton _ _, fun a ha b hb => ?_⟩
      obtain rfl := List.mem_singleton.1 hb
      have hmem := List.mem_eraseDups.1 ha
      rw [List.idxOf_append_of_mem hmem, List.idxOf_append, if_neg hn]
      have := List.idxOf_lt_length_of_mem hmem
      omega

/-- Names that come twice may be left out before the names are changed or after it. -/
theorem eraseDups_map_eraseDups (f : String → String) (names : List String) :
    (names.eraseDups.map f).eraseDups = (names.map f).eraseDups := by
  induction names using List.reverseRecOn with
  | nil => rfl
  | append_singleton names n ih =>
    rw [eraseDups_concat, List.map_append, List.map_singleton, eraseDups_concat]
    by_cases hn : n ∈ names
    · rw [if_pos hn, if_pos (List.mem_map_of_mem hn), ih]
    · have hsame : f n ∈ names.eraseDups.map f ↔ f n ∈ names.map f := by
        simp only [List.mem_map, List.mem_eraseDups]
      rw [if_neg hn, List.map_append, List.map_singleton, eraseDups_concat, ih]
      simp only [hsame]

/-- The names that are given, trimmed, without blank ones. -/
def filled (given : List String) : List String :=
  (given.map trimmed).filter (· ≠ "")

theorem firstUses_normalizeNames (given : List String) :
    FirstUses (filled given) (normalizeNames given) :=
  firstUses_eraseDups (filled given)

/-- A text that was trimmed has no blanks to take off behind a character that is none. -/
theorem trim_cons_of_trim {c : Char} {cs : List Char} (hc : isBlank c = false)
    (h : trim cs = cs) : trim (c :: cs) = c :: cs := by
  have hend : trimRight cs = cs := by
    rw [← h]
    exact trimRight_trimRight _
  have hskip : skipBlank (c :: cs) = c :: cs :=
    skipBlank_of_head fun d hd => Option.some.inj hd ▸ hc
  unfold trim
  rw [hskip, trimRight_cons, if_neg (by simp [hc]), hend]

end Text

open Settings Text

/-! ## Lists as they are read -/

namespace Settings

variable {field key : String} {v : Json} {given names default : List String} {raw raw' : Raw}

theorem items_of_stringItems {items : List Json} {i : Nat}
    (h : stringItems field i items = .ok given) : items = given.map .str := by
  induction items generalizing i given with
  | nil => rw [← Except.ok.inj h]; rfl
  | cons v vs ih =>
    unfold stringItems at h
    split at h
    · next s rest hrest =>
      rw [← Except.ok.inj h, List.map_cons, ih hrest]
    all_goals cases h

/-- A list of strings is read as what it is. -/
theorem eq_of_stringList (h : stringList field v = .ok given) : v = listJson given := by
  unfold stringList at h
  split at h
  · exact congrArg Json.arr (items_of_stringItems h)
  · cases h

/-- What a field of names comes to: the default if it is absent, and else the names that are made
from those given, in the order in which they come first. -/
def ReadsAs (raw : Raw) (field : String) (default : List String)
    (source : List String → List String) (names : List String) : Prop :=
  (raw.lookup field = none ∧ names = default) ∨
    ∃ given, raw.lookup field = some (listJson given) ∧ FirstUses (source given) names

/-- File endings from those given. -/
def endingsOf (given : List String) : List String :=
  (filled given).map dotted

theorem trimmed_dotted {ending : String} (h : trimmed ending = ending) :
    trimmed (dotted ending) = dotted ending := by
  unfold dotted
  split
  · exact h
  · have htrim : trim ending.toList = ending.toList := by
      have hlist := congrArg String.toList h
      rwa [trimmed, String.toList_ofList] at hlist
    have hdot : ("." ++ ending).toList = '.' :: ending.toList := by simp
    unfold trimmed
    rw [hdot, trim_cons_of_trim (by decide) htrim, ← hdot, String.ofList_toList]

theorem normalizeNames_endings (given : List String) :
    normalizeNames ((normalizeNames given).map dotted) = (endingsOf given).eraseDups := by
  have hplain : ∀ e ∈ (normalizeNames given).map dotted, trimmed e = e ∧ e ≠ "" := by
    intro e he
    obtain ⟨n, hn, rfl⟩ := List.mem_map.1 he
    refine ⟨trimmed_dotted ((tidy_normalizeNames given).trimmed n hn), fun hempty => ?_⟩
    have hpoint := hasPoint_dotted n
    rw [hempty] at hpoint
    exact absurd hpoint (by decide)
  have hmap : ((normalizeNames given).map dotted).map trimmed = (normalizeNames given).map dotted :=
    (List.map_congr_left fun e he => (hplain e he).1).trans (List.map_id' _)
  rw [normalizeNames, hmap, List.filter_eq_self.2 fun e he => by simpa using (hplain e he).2]
  exact eraseDups_map_eraseDups dotted (filled given)

variable {rule : String → Json → Checked (List String)} {source : List String → List String}

/-- A rule for names that reads a list of strings reads a field so. -/
theorem readsAs_of_fieldOr (h : fieldOr raw field rule default = .ok names)
    (hrule : ∀ v, rule field v = .ok names →
      ∃ given, v = listJson given ∧ FirstUses (source given) names) :
    ReadsAs raw field default source names := by
  cases hl : raw.lookup field with
  | none =>
    rw [fieldOr_of_none hl] at h
    exact .inl ⟨hl, (Except.ok.inj h).symm⟩
  | some v =>
    rw [fieldOr_of_some hl] at h
    obtain ⟨given, rfl, hfirst⟩ := hrule v h
    exact .inr ⟨given, hl, hfirst⟩

theorem firstUses_of_methodNames (h : methodNames field v = .ok names) :
    ∃ given, v = listJson given ∧ FirstUses (filled given) names := by
  unfold methodNames at h
  cases hl : stringList field v with
  | error e => simp [hl, bind, Except.bind] at h
  | ok given =>
    simp only [hl, bind, Except.bind] at h
    split at h
    · cases h
    · obtain rfl := Except.ok.inj h
      exact ⟨given, eq_of_stringList hl, firstUses_normalizeNames given⟩

theorem firstUses_of_folderNames (h : folderNames field v = .ok names) :
    ∃ given, v = listJson given ∧ FirstUses (filled given) names := by
  obtain ⟨given, hl, rfl⟩ := Json.exists_of_map_eq_ok h
  exact ⟨given, eq_of_stringList hl, firstUses_normalizeNames given⟩

theorem firstUses_of_fileEndings (h : fileEndings field v = .ok names) :
    ∃ given, v = listJson given ∧ FirstUses (endingsOf given) names := by
  obtain ⟨given, hl, rfl⟩ := Json.exists_of_map_eq_ok h
  refine ⟨given, eq_of_stringList hl, ?_⟩
  rw [normalizeNames_endings]
  exact firstUses_eraseDups _

/-! ## Fields that are not named -/

/-- Fields that are left out by their keys are not found, and the others as before. -/
theorem lookup_filter_key (p : String → Bool) (raw : Raw) (hp : p key = true) :
    (raw.filter fun f => p f.1).lookup key = raw.lookup key := by
  induction raw with
  | nil => rfl
  | cons f raw ih =>
    obtain ⟨name, value⟩ := f
    by_cases hkey : key = name
    · subst hkey
      simp [hp]
    · cases hname : p name with
      | true => simp [hname, List.lookup_cons, beq_false_of_ne hkey, ih]
      | false => simp [hname, List.lookup_cons, beq_false_of_ne hkey, ih]

theorem lookup_extrasOf {known : List String} (h : key ∉ known) (raw : Raw) :
    (extrasOf known raw).lookup key = raw.lookup key :=
  lookup_filter_key (fun k => !known.contains k) raw (by simpa using h)

/-- A field that is found alike is read alike. -/
theorem eq_of_fieldOr {α : Type} {rule : String → Json → Checked α} {default a b : α}
    (ha : fieldOr raw field rule default = .ok a) (hb : fieldOr raw' field rule default = .ok b)
    (h : raw.lookup field = raw'.lookup field) : a = b := by
  rw [fieldOr_congr h, hb] at ha
  exact (Except.ok.inj ha).symm

/-- What is below is found where nothing is on top. -/
theorem lookup_overlay_of_not_named {base top : Raw} (ht : Json.KeyedOnce top)
    (hk : key ∉ top.map (·.1)) : (Json.overlay base top).lookup key = base.lookup key := by
  have hnone : top.lookup key = none := Json.lookup_eq_none_of_keys fun g hg he =>
    hk (List.mem_map.2 ⟨g, hg, he⟩)
  rw [Json.lookup_overlay ht, hnone]
  rfl

end Settings

/-! ## What is swept -/

namespace CleanerSettings

variable {raw top : Raw} {s s' : CleanerSettings} {key : String}

/-- Settings that were read from raw ones are in a form that validation does not change. The names
are those that were given, trimmed, none of them blank or given before. -/
structure Canonical (raw : Raw) (s : CleanerSettings) : Prop where
  again : validate s.fields = .ok s
  someMethod : s.methods ≠ []
  normal : normalizeNames s.methods = s.methods
  methods : Tidy s.methods ∧ ReadsAs raw "console_methods" defaultMethods filled s.methods
  ignored : Tidy s.ignored ∧ ReadsAs raw "ignore_folders" defaultIgnored filled s.ignored
  endings : Tidy s.endings ∧ ReadsAs raw "file_extensions" defaultEndings endingsOf s.endings
  points : ∀ e ∈ s.endings, HasPoint e

theorem canonical_of_validate (h : validate raw = .ok s) : s.Canonical raw := by
  have hv := valid_of_validate h
  obtain ⟨hm, hi, he, -, -, -⟩ := validate_eq_ok.1 h
  exact
    { again := validate_fields hv
      someMethod := hv.someMethod
      normal := normalizeNames_of_tidy hv.methods
      methods := ⟨hv.methods, readsAs_of_fieldOr hm fun _ => firstUses_of_methodNames⟩
      ignored := ⟨hv.ignored, readsAs_of_fieldOr hi fun _ => firstUses_of_folderNames⟩
      endings := ⟨hv.endings, readsAs_of_fieldOr he fun _ => firstUses_of_fileEndings⟩
      points := hv.points }

theorem lookup_fields_of_not_known (s : CleanerSettings) (h : key ∉ known) :
    s.fields.lookup key = s.extras.lookup key := by
  unfold fields
  rw [List.lookup_append, Json.lookup_eq_none_of_keys]
  · rfl
  · rintro g hg rfl
    exact h (List.mem_map_of_mem (f := (·.1)) hg)

/-- A field that is not named on top of settings is the same after validation. -/
theorem lookup_fields_of_overlay (hs : s.Valid)
    (h : validate (Json.overlay s.fields top) = .ok s') (ht : Json.KeyedOnce top)
    (hk : key ∉ top.map (·.1)) : s'.fields.lookup key = s.fields.lookup key := by
  have hsame : (Json.overlay s.fields top).lookup key = s.fields.lookup key :=
    lookup_overlay_of_not_named ht hk
  obtain ⟨m', i', e', a', b', x'⟩ := validate_eq_ok.1 h
  obtain ⟨m, i, e, a, b, -⟩ := validate_eq_ok.1 (validate_fields hs)
  by_cases hknown : key ∈ known
  · simp only [known, List.mem_cons, List.not_mem_nil, or_false] at hknown
    rcases hknown with rfl | rfl | rfl | rfl | rfl
    · exact congrArg (fun names => some (listJson names)) (eq_of_fieldOr m' m hsame)
    · exact congrArg (fun names => some (listJson names)) (eq_of_fieldOr i' i hsame)
    · exact congrArg (fun names => some (listJson names)) (eq_of_fieldOr e' e hsame)
    · exact congrArg (fun b => some (Json.bool b)) (eq_of_fieldOr a' a hsame)
    · exact congrArg (fun b => some (Json.bool b)) (eq_of_fieldOr b' b hsame)
  · rw [lookup_fields_of_not_known _ hknown, ← x', lookup_extrasOf hknown, hsame]

end CleanerSettings

/-! ## The files of a run -/

namespace RuntimeSettings

variable {raw top : Raw} {s s' : RuntimeSettings} {key : String}

theorem lookup_fields_of_not_known (s : RuntimeSettings) (h : key ∉ known) :
    s.fields.lookup key = s.extras.lookup key := by
  unfold fields
  rw [List.lookup_append, Json.lookup_eq_none_of_keys]
  · rfl
  · rintro g hg rfl
    exact h (List.mem_map_of_mem (f := (·.1)) hg)

/-- A field that is not named on top of settings is the same after validation. -/
theorem lookup_fields_of_overlay (hs : s.Valid)
    (h : validate (Json.overlay s.fields top) = .ok s') (ht : Json.KeyedOnce top)
    (hk : key ∉ top.map (·.1)) : s'.fields.lookup key = s.fields.lookup key := by
  have hsame : (Json.overlay s.fields top).lookup key = s.fields.lookup key :=
    lookup_overlay_of_not_named ht hk
  obtain ⟨l', p', r', m', w', d', x'⟩ := validate_eq_ok.1 h
  obtain ⟨l, p, r, m, w, d, -⟩ := validate_eq_ok.1 (validate_fields hs)
  by_cases hknown : key ∈ known
  · simp only [known, List.mem_cons, List.not_mem_nil, or_false] at hknown
    rcases hknown with rfl | rfl | rfl | rfl | rfl | rfl
    · exact congrArg (fun s => some (Json.str s)) (eq_of_fieldOr l' l hsame)
    · exact congrArg (fun s => some (Json.str s)) (eq_of_fieldOr p' p hsame)
    · exact congrArg (fun s => some (optionalJson s)) (eq_of_fieldOr r' r hsame)
    · exact congrArg (fun s => some (optionalJson s)) (eq_of_fieldOr m' m hsame)
    · exact congrArg (fun x => some (Json.real x)) (eq_of_fieldOr w' w hsame)
    · exact congrArg (fun x => some (Json.real x)) (eq_of_fieldOr d' d hsame)
  · rw [lookup_fields_of_not_known _ hknown, ← x', lookup_extrasOf hknown, hsame]

end RuntimeSettings

/-! ## Overrides -/

namespace Config

variable {root : Path} {c c' : Config} {cleaner runtime top : Raw} {f : Fault}

/-- Nothing on top is no special case. -/
theorem overrideCleaner_eq (hc : c.cleaner.Valid) (top : Raw) : c.overrideCleaner top =
    match CleanerSettings.validate (Json.overlay c.cleaner.fields top) with
    | .ok s => .ok { c with cleaner := s }
    | .error issues => .error (.invalid CleanerSettings.group issues) := by
  cases h : CleanerSettings.validate (Json.overlay c.cleaner.fields top) with
  | ok s => exact overrideCleaner_eq_ok hc h
  | error issues =>
    have hne : top ≠ [] := by
      rintro rfl
      cases (CleanerSettings.validate_fields hc).symm.trans h
    unfold overrideCleaner
    rw [if_neg (by simpa using hne), h]

theorem overrideRuntime_eq (hc : c.runtime.Valid) (top : Raw) : c.overrideRuntime top =
    match RuntimeSettings.validate (Json.overlay c.runtime.fields top) with
    | .ok s => .ok { c with runtime := s }
    | .error issues => .error (.invalid RuntimeSettings.group issues) := by
  cases h : RuntimeSettings.validate (Json.overlay c.runtime.fields top) with
  | ok s => exact overrideRuntime_eq_ok hc h
  | error issues =>
    have hne : top ≠ [] := by
      rintro rfl
      cases (RuntimeSettings.validate_fields hc).symm.trans h
    unfold overrideRuntime
    rw [if_neg (by simpa using hne), h]

/-- Validation of one group and then of the other. -/
theorem override_cases (hc : c.Regular) (cleaner runtime : Raw) :
    (∃ issues, CleanerSettings.validate (Json.overlay c.cleaner.fields cleaner) = .error issues ∧
      c.override cleaner runtime = (c, some (.invalid CleanerSettings.group issues))) ∨
    ∃ s, CleanerSettings.validate (Json.overlay c.cleaner.fields cleaner) = .ok s ∧
      ((∃ issues, RuntimeSettings.validate (Json.overlay c.runtime.fields runtime) = .error issues ∧
        c.override cleaner runtime =
          ({ c with cleaner := s }, some (.invalid RuntimeSettings.group issues))) ∨
      ∃ r, RuntimeSettings.validate (Json.overlay c.runtime.fields runtime) = .ok r ∧
        c.override cleaner runtime = ({ c with cleaner := s, runtime := r }, none)) := by
  unfold override
  rw [overrideCleaner_eq hc.cleaner]
  cases CleanerSettings.validate (Json.overlay c.cleaner.fields cleaner) with
  | error issues => exact .inl ⟨issues, rfl, rfl⟩
  | ok s =>
    refine .inr ⟨s, rfl, ?_⟩
    have hsecond := overrideRuntime_eq (c := { c with cleaner := s }) hc.runtime runtime
    dsimp only at hsecond ⊢
    rw [hsecond]
    cases RuntimeSettings.validate (Json.overlay c.runtime.fields runtime) with
    | error issues => exact .inl ⟨issues, rfl, rfl⟩
    | ok r => exact .inr ⟨r, rfl, rfl⟩

/-- An override is refused just in two cases. If what is on top of the first group is refused,
nothing has changed. If it is not, but what is on top of the second group is, the first group is
what was asked for, and all else has not changed. -/
theorem override_refused_iff (hc : Reachable root c) (cleaner runtime : Raw) (c' : Config)
    (f : Fault) : c.override cleaner runtime = (c', some f) ↔
    (∃ issues, CleanerSettings.validate (Json.overlay c.cleaner.fields cleaner) = .error issues ∧
      f = .invalid CleanerSettings.group issues ∧ c' = c) ∨
    ∃ s issues, CleanerSettings.validate (Json.overlay c.cleaner.fields cleaner) = .ok s ∧
      RuntimeSettings.validate (Json.overlay c.runtime.fields runtime) = .error issues ∧
      f = .invalid RuntimeSettings.group issues ∧ c' = { c with cleaner := s } := by
  rcases override_cases hc.regular.1 cleaner runtime with
    ⟨issues, hrefused, he⟩ | ⟨s, hs, ⟨issues, hrefused, he⟩ | ⟨r, hr, he⟩⟩
  · rw [he, hrefused]
    grind
  · rw [he, hs, hrefused]
    grind
  · rw [he, hs, hr]
    grind

/-- One method instead of all. -/
def oneMethod : Raw :=
  [("console_methods", listJson ["x"])]

/-- An interval that is none. -/
def noInterval : Raw :=
  [("watch_interval", .int 0)]

/-- The interval is refused, and the method is kept. -/
theorem override_refused_at_interval :
    ({ root := ⟨"/", []⟩ } : Config).override oneMethod noInterval =
      ({ root := ⟨"/", []⟩, cleaner := { methods := ["x"] } },
        some (.invalid RuntimeSettings.group [⟨"watch_interval", none, .notPositive⟩])) :=
  (override_refused_iff .new oneMethod noInterval _ _).2
    (.inr ⟨{ methods := ["x"] }, [⟨"watch_interval", none, .notPositive⟩],
      by with_unfolding_all rfl, by with_unfolding_all rfl, rfl, rfl⟩)

/-- A refused override does not leave both groups as they were. -/
theorem refused_override_leaves_method :
    ¬ ∀ (root : Path) (c c' : Config) (cleaner runtime : Raw) (f : Fault), Reachable root c →
      Json.KeyedOnce cleaner → Json.KeyedOnce runtime →
      c.override cleaner runtime = (c', some f) →
      c'.cleaner = c.cleaner ∧ c'.runtime = c.runtime := by
  intro h
  have hrun : ({ root := ⟨"/", []⟩ } : Config).override oneMethod noInterval =
      ({ root := ⟨"/", []⟩, cleaner := { methods := ["x"] } },
        some (.invalid RuntimeSettings.group [⟨"watch_interval", none, .notPositive⟩])) := by
    with_unfolding_all rfl
  obtain ⟨hsame, -⟩ := h _ _ _ _ _ _ .new (by decide) (by decide) hrun
  exact absurd (congrArg CleanerSettings.methods hsame) (by decide)

/-- Settings that were read from raw ones are in a form that validation does not change. So an
override changes the fields that it names and no other ones, be they known or not. -/
theorem canonical_and_named_fields_only :
    (∀ (raw : Raw) (s : CleanerSettings), CleanerSettings.validate raw = .ok s →
      s.Canonical raw) ∧
    (∀ (raw : Raw) (s : RuntimeSettings), RuntimeSettings.validate raw = .ok s →
      RuntimeSettings.validate s.fields = .ok s) ∧
    ∀ (root : Path) (c c' : Config) (cleaner runtime : Raw), Reachable root c →
      Json.KeyedOnce cleaner → Json.KeyedOnce runtime →
      c.override cleaner runtime = (c', none) →
      (∀ key ∉ cleaner.map (·.1), c'.cleaner.fields.lookup key = c.cleaner.fields.lookup key) ∧
      ∀ key ∉ runtime.map (·.1), c'.runtime.fields.lookup key = c.runtime.fields.lookup key := by
  refine ⟨fun raw s => CleanerSettings.canonical_of_validate, fun raw s h =>
    RuntimeSettings.validate_fields (RuntimeSettings.valid_of_validate h), ?_⟩
  intro root c c' cleaner runtime hc hcleaner hruntime h
  have hreg := hc.regular.1
  rcases override_cases hreg cleaner runtime with
    ⟨issues, -, he⟩ | ⟨s, hs, ⟨issues, -, he⟩ | ⟨r, hr, he⟩⟩
  · cases he.symm.trans h
  · cases he.symm.trans h
  · obtain ⟨rfl, -⟩ := Prod.mk.inj (he.symm.trans h)
    exact ⟨fun key => CleanerSettings.lookup_fields_of_overlay hreg.cleaner hs hcleaner,
      fun key => RuntimeSettings.lookup_fields_of_overlay hreg.runtime hr hruntime⟩

/-- Names with blanks, with others that come twice, and a field that is not known. -/
def spaced : Raw :=
  [("console_methods", listJson [" warn", "", "log", "warn "]),
    ("file_extensions", listJson ["js", ".ts", " js"]), ("note", .str "kept")]

/-- The configuration after the fields were put on top of the defaults. -/
def onTop : Config :=
  (({ root := ⟨"/", []⟩ } : Config).override spaced []).1

/-- The names are put in order, and come through an override of another field as they are. -/
theorem canonical_of_spaced :
    (∃ s : CleanerSettings, s.Canonical spaced ∧ s.methods = ["warn", "log"] ∧
      s.endings = [".js", ".ts"]) ∧
    ∃ c', onTop.override [("ignore_folders", listJson ["x"])] [] = (c', none) ∧
      c'.cleaner.fields.lookup "console_methods" = some (listJson ["warn", "log"]) ∧
      c'.cleaner.fields.lookup "note" = some (.str "kept") := by
  have hreach : Reachable ⟨"/", []⟩ onTop := .override .new
    ⟨by decide, Json.distinct_listJson _, Json.distinct_listJson _, trivial, trivial⟩
    Json.distinct_nil
  have hread : CleanerSettings.validate spaced = .ok
      { methods := ["warn", "log"]
        endings := [".js", ".ts"]
        extras := [("note", .str "kept")] } := by with_unfolding_all rfl
  refine ⟨⟨_, canonical_and_named_fields_only.1 spaced _ hread, rfl, rfl⟩, ?_⟩
  have hrun : onTop.override [("ignore_folders", listJson ["x"])] [] =
      ((onTop.override [("ignore_folders", listJson ["x"])] []).1, none) :=
    Prod.ext rfl (by with_unfolding_all rfl)
  obtain ⟨hcleaner, -⟩ := canonical_and_named_fields_only.2.2 _ _ _ _ _ hreach (by decide)
    (by decide) hrun
  refine ⟨_, hrun, ?_, ?_⟩
  · rw [hcleaner "console_methods" (by decide)]
    with_unfolding_all rfl
  · rw [hcleaner "note" (by decide)]
    with_unfolding_all rfl

end Config

end ConsoleSweep
