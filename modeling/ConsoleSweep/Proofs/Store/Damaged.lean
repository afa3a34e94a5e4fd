/-
  Loading a store from a file with any bytes in it.

  What a file cannot say is taken for nothing said: bytes that are no text, a text that is no
  JSON or has no mapping of files give an empty store, and of a mapping the entries count that
  can be read as a number above zero. Two kinds of files are not borne, and loading is given
  up (`Stops`): a text with too many levels, and an infinite count, which no whole number
  stands for.
-/
import ConsoleSweep.Proofs.Json.Fields
import ConsoleSweep.Proofs.Store.Files
import ConsoleSweep.Proofs.Store.Operations

namespace ConsoleSweep.Number

/-! ## Numbers that are not whole -/

theorem isNaN_iff (x : Float) : x.isNaN = true ↔ Decimal.Binary.ofFloat x = .nan := by
  have hexponent : @Float.Model.UnpackedFloat.unpackExponent .binary64
      x.toBits.toBitVec = -1#11 ↔ x.toBits.toNat / Nat.pow 2 52 % Nat.pow 2 11 = 2047 := by
    rw [← BitVec.toNat_inj]
    simp [Float.Model.UnpackedFloat.unpackExponent, Nat.shiftRight_eq_div_pow]
  have hfraction : @Float.Model.UnpackedFloat.unpackMantissa .binary64
      x.toBits.toBitVec = 0#52 ↔ x.toBits.toNat % Nat.pow 2 52 = 0 := by
    rw [← BitVec.toNat_inj]
    simp [Float.Model.UnpackedFloat.unpackMantissa]
  change (Float.Model.UnpackedFloat.unpack .binary64 x.toBits.toBitVec).isNaN = true ↔ _
  unfold Float.Model.UnpackedFloat.unpack Decimal.Binary.ofFloat Decimal.Binary.ofBits
  dsimp only
  -- The conditions are decided one by one: only the first two are about what is no number.
  by_cases hlarge : @Float.Model.UnpackedFloat.unpackExponent .binary64 x.toBits.toBitVec = -1#11
  · rw [if_pos hlarge, if_pos (hexponent.1 hlarge)]
    by_cases hzero : @Float.Model.UnpackedFloat.unpackMantissa .binary64 x.toBits.toBitVec = 0#52
    · rw [if_pos hzero, if_pos (hfraction.1 hzero)]
      exact iff_of_false Bool.false_ne_true (by simp)
    · rw [if_neg hzero, if_neg fun e => hzero (hfraction.2 e)]
      exact iff_of_true rfl rfl
  · rw [if_neg hlarge, if_neg fun e => hlarge (hexponent.2 e)]
    refine iff_of_false ?_ (by split <;> simp)
    by_cases hsmall : @Float.Model.UnpackedFloat.unpackExponent .binary64 x.toBits.toBitVec = 0#11
    · rw [if_pos hsmall]
      by_cases hzero : @Float.Model.UnpackedFloat.unpackMantissa .binary64 x.toBits.toBitVec = 0#52
      · rw [dif_pos hzero]
        exact Bool.false_ne_true
      · rw [dif_neg hzero]
        exact Bool.false_ne_true
    · rw [if_neg hsmall]
      exact Bool.false_ne_true

/-- No whole number stands for an infinite one, and only for these it is said to be too large. -/
theorem toInt_eq_tooLarge_iff {v : Json} : toInt v = .error .tooLarge ↔
    ∃ x negative, v = .real x ∧ Decimal.Binary.ofFloat x = .infinite negative := by
  cases v with
  | real x =>
    cases hb : Decimal.Binary.ofFloat x with
    | nan =>
      have hread : toInt (.real x) = .error (.badValue "not a number") := by
        simp only [toInt, hb, Decimal.Binary.truncate?, if_pos ((isNaN_iff x).2 hb)]
      simp [hread, hb]
    | infinite negative =>
      have hnot : ¬ x.isNaN = true := by
        rw [isNaN_iff, hb]
        simp
      have hread : toInt (.real x) = .error .tooLarge := by
        simp only [toInt, hb, Decimal.Binary.truncate?, if_neg hnot]
      simp [hread, hb]
    | finite => simp [toInt, hb, Decimal.Binary.truncate?]
  | str text => cases hr : readInt? text.toList <;> simp [toInt, hr]
  | null | bool | int | arr | obj => simp [toInt]

end ConsoleSweep.Number

namespace ConsoleSweep.Store

open ConsoleSweep.Sweep ConsoleSweep.Text

variable {s : Store} {p : Path} {w : World} {bytes : Bytes} {e : String × Int}
  {entries : List (String × Json)}

/-! ## What a file says -/

/-- The value in a file with these bytes. -/
def dataOf (bytes : Bytes) : Except Fault Json :=
  match decode bytes with
  | .error e => .error (.undecodable e)
  | .ok text =>
    match Json.parse (unifyBreaks text) with
    | .ok data => .ok data
    | .error e => .error (.ofParse e)

/-- The entries in a file with these bytes, if it has any. -/
def entriesOf? (bytes : Bytes) : Option (List (String × Json)) :=
  (dataOf bytes).toOption.bind filesOf?

/-- The bytes at which loading is given up. -/
inductive Stops (bytes : Bytes) : Prop where
  | deep (h : dataOf bytes = .error .tooDeep)
  | infinite {entries : List (String × Json)} {path : String} {x : Float} {negative : Bool}
      (h : entriesOf? bytes = some entries) (hx : (path, .real x) ∈ entries)
      (hi : Decimal.Binary.ofFloat x = .infinite negative)

/-- The entry is one of the file, with a count that can be read and is above zero. -/
def Counted (entries : List (String × Json)) (e : String × Int) : Prop :=
  ∃ v, (e.1, v) ∈ entries ∧ Number.toInt v = .ok e.2 ∧ 0 < e.2

/-- A file has one entry for each path. -/
theorem keyedOnce_of_entriesOf? (h : entriesOf? bytes = some entries) : Json.KeyedOnce entries := by
  obtain ⟨data, hd, hf⟩ := Option.bind_eq_some_iff.1 h
  have hdistinct : data.Distinct := by
    unfold dataOf at hd
    split at hd
    · cases hd
    · split at hd
      · next data' hp =>
        obtain rfl : data' = data := Option.some.inj hd
        exact Json.distinct_of_parse hp
      · cases hd
  obtain ⟨files, hget, hfields⟩ := Option.bind_eq_some_iff.1 hf
  obtain ⟨fs, hfs, hlookup⟩ := Option.bind_eq_some_iff.1 hget
  cases data with
  | obj fs' =>
    obtain rfl : fs' = fs := Option.some.inj hfs
    have hfiles := Json.distinctFields_iff.1 hdistinct.2 _ (Json.mem_of_lookup hlookup)
    cases files with
    | obj entries' =>
      obtain rfl : entries' = entries := Option.some.inj hfields
      exact hfiles.1
    | _ => cases hfields
  | _ => cases hfs

/-! ## Recording the entries -/

/-- A count above zero is recorded under a new path, and nothing else changes. -/
theorem mem_setCount_of_new (h : s.Ordered) {path : String} (hnew : ∀ e ∈ s.items, e.1 ≠ path)
    (n : Int) : e ∈ (s.setCount path n).items ↔ e = (path, n) ∧ 0 < n ∨ e ∈ s.items := by
  have hsame : e ∈ s.items ∧ e.1 ≠ path ↔ e ∈ s.items := and_iff_left_of_imp (hnew e)
  unfold setCount
  split
  · next hn =>
    have hput : e ∈ (s.put path n).items ↔ e = (path, n) ∨ e ∈ s.items ∧ e.1 ≠ path :=
      mem_insertItem h
    rw [hput, hsame]
    simp [hn]
  · next hn =>
    have hremove : e ∈ (s.remove path).items ↔ e ∈ s.items ∧ e.1 ≠ path := by
      simp [remove, List.mem_filter]
    rw [hremove, hsame]
    simp [hn]

theorem counted_cons {path : String} {v : Json} : Counted ((path, v) :: entries) e ↔
    (e.1 = path ∧ Number.toInt v = .ok e.2 ∧ 0 < e.2) ∨ Counted entries e := by
  simp only [Counted, List.mem_cons, Prod.mk.injEq]
  constructor
  · rintro ⟨v', ⟨hp, rfl⟩ | hv', hn⟩
    · exact .inl ⟨hp, hn⟩
    · exact .inr ⟨v', hv', hn⟩
  · rintro (⟨hp, hn⟩ | ⟨v', hv', hn⟩)
    · exact ⟨v, .inl ⟨hp, rfl⟩, hn⟩
    · exact ⟨v', .inr hv', hn⟩

/-- Entries for new paths are recorded if their counts can be read and are above zero. -/
theorem addEntries_eq_ok (h : s.Ordered) (hk : Json.KeyedOnce entries)
    (hnew : ∀ f ∈ entries, ∀ e ∈ s.items, e.1 ≠ f.1)
    (hi : ∀ f ∈ entries, Number.toInt f.2 ≠ .error .tooLarge) :
    ∃ t, (s.addEntries entries).2 = .ok t ∧ t.Ordered ∧
      ∀ e, e ∈ t.items ↔ Counted entries e ∨ e ∈ s.items := by
  induction entries generalizing s with
  | nil => exact ⟨s, rfl, h, fun e => by simp [Counted]⟩
  | cons f entries ih =>
    obtain ⟨path, v⟩ := f
    obtain ⟨hother, hk'⟩ := Json.keyedOnce_cons.1 hk
    obtain ⟨hpath, hnew'⟩ := List.forall_mem_cons.1 hnew
    obtain ⟨hv', hi'⟩ := List.forall_mem_cons.1 hi
    unfold addEntries
    cases hv : Number.toInt v with
    | ok n =>
      have hnew'' : ∀ f ∈ entries, ∀ e ∈ (s.setCount path n).items, e.1 ≠ f.1 := by
        intro f hf e he
        rcases (mem_setCount_of_new h hpath n).1 he with ⟨rfl, -⟩ | he
        · exact (hother f hf).symm
        · exact hnew' f hf e he
      obtain ⟨t, ht, hto, hmem⟩ := ih (h.setCount path n) hk' hnew'' hi'
      refine ⟨t, ht, hto, fun e => ?_⟩
      have hone : e.1 = path ∧ Number.toInt v = .ok e.2 ∧ 0 < e.2 ↔ e = (path, n) ∧ 0 < n := by
        rw [hv]
        constructor
        · rintro ⟨rfl, hn, hpos⟩
          obtain rfl := Except.ok.inj hn
          exact ⟨rfl, hpos⟩
        · rintro ⟨rfl, hpos⟩
          exact ⟨rfl, rfl, hpos⟩
      rw [hmem, mem_setCount_of_new h hpath, counted_cons, hone]
      tauto
    | error fault =>
      obtain ⟨t, ht, hto, hmem⟩ := ih h hk' hnew' hi'
      refine ⟨t, ?_, hto, fun e => ?_⟩
      · split
        · next heq => cases heq
        · next heq => exact absurd (hv.trans heq) hv'
        · exact ht
      · rw [hmem, counted_cons, hv]
        simp

/-- A count that is too large ends the recording. -/
theorem addEntries_eq_error {path : String} {v : Json} (hv : (path, v) ∈ entries)
    (hi : Number.toInt v = .error .tooLarge) : (s.addEntries entries).2 = .error .tooLarge := by
  induction entries generalizing s with
  | nil => cases hv
  | cons f entries ih =>
    obtain ⟨path', v'⟩ := f
    unfold addEntries
    rcases List.mem_cons.1 hv with heq | hv
    · obtain ⟨-, rfl⟩ := Prod.mk.inj heq
      rw [hi]
    · split
      · exact ih hv
      · rfl
      · exact ih hv

/-! ## Loading -/

theorem run_readJson {path : String} {f : Disk.File} (hn : '\x00' ∉ path.toList)
    (hf : w.disk.file? path = some f) : (readJson path).run.run w = (dataOf f.bytes, w) := by
  have hbytes : (readBytes path).run.run w = (.ok f.bytes, w) := by
    rw [run_readBytes hn, Disk.read_of_file? hf]
    rfl
  unfold readJson dataOf
  cases hd : decode f.bytes with
  | error e =>
    have htext : (readText path).run.run w = (.error (.undecodable e), w) := by
      unfold readText
      rw [run_bind_eq hbytes, hd]
      rfl
    exact run_bind_fault htext _
  | ok text =>
    have htext : (readText path).run.run w = (.ok text, w) := by
      unfold readText
      rw [run_bind_eq hbytes, hd]
      rfl
    rw [run_bind_eq htext]
    dsimp only
    cases Json.parse (unifyBreaks text) <;> rfl

/-- What is said about a file that is of no use, and the empty store in its place. -/
theorem run_log_empty (hs : w.Sound) (level : Log.Level) (message : String) :
    ∃ w', (do Sweep.log logger level message; return empty : Sweep Store).run.run w =
      (.ok empty, w') := by
  obtain ⟨u, w', hlog, -⟩ := calm_log logger level message w hs
  exact ⟨w', by rw [run_bind_eq hlog]; rfl⟩

/-- What loading comes to for a file with these bytes. -/
def storeOf (bytes : Bytes) : Except Fault Store :=
  match dataOf bytes with
  | .error .tooDeep => .error .tooDeep
  | .error _ => .ok empty
  | .ok data =>
    match filesOf? data with
    | none => .ok empty
    | some entries => (empty.addEntries entries).2

theorem run_load {f : Disk.File} (hs : w.Sound) (hn : '\x00' ∉ p.text.toList)
    (hf : w.disk.file? p.text = some f) :
    ∃ w', (load p).run.run w = (storeOf f.bytes, w') := by
  have hexists : (pathExists p).run.run w = (.ok true, w) :=
    run_pathExists_of_stat hn (stat_of_file? hf)
  unfold load storeOf
  rw [run_bind_eq hexists, Bool.not_true, if_neg Bool.false_ne_true, run_bind_eq (run_attempt _ w),
    run_readJson hn hf]
  generalize dataOf f.bytes = read
  cases read with
  | error fault =>
    by_cases hdeep : fault = .tooDeep
    · subst hdeep
      exact ⟨w, rfl⟩
    · simp only
      exact run_log_empty hs _ _
  | ok data =>
    dsimp only
    cases filesOf? data with
    | none => exact run_log_empty hs _ _
    | some entries =>
      obtain ⟨u, w', hlogs, -⟩ := calm_forM (empty.addEntries entries).1
        (f := fun e => Sweep.log logger Log.debug
          ("Skipping malformed count for " ++ e.1 ++ ": " ++ e.2.shown))
        (fun _ => calm_log _ _ _) w hs
      refine ⟨w', (run_bind_eq hlogs _).trans ?_⟩
      dsimp only
      cases (empty.addEntries entries).2 <;> rfl

theorem storeOf_of_entries (h : entriesOf? bytes = some entries) :
    storeOf bytes = (empty.addEntries entries).2 := by
  obtain ⟨data, hd, hfiles⟩ := Option.bind_eq_some_iff.1 h
  unfold storeOf
  cases hdata : dataOf bytes with
  | error fault =>
    rw [hdata] at hd
    cases hd
  | ok data' =>
    rw [hdata] at hd
    obtain rfl : data' = data := Option.some.inj hd
    simp only [hfiles]

theorem storeOf_of_no_entries (h : entriesOf? bytes = none) (hd : dataOf bytes ≠ .error .tooDeep) :
    storeOf bytes = .ok empty := by
  unfold storeOf
  cases hdata : dataOf bytes with
  | error fault =>
    split
    · next heq => exact absurd (hdata.trans heq) hd
    · rfl
    · next heq => cases heq
  | ok data =>
    unfold entriesOf? at h
    rw [hdata] at h
    have hfiles : filesOf? data = none := h
    simp only [hfiles]

theorem storeOf_of_stops (h : Stops bytes) : ∃ fault, storeOf bytes = .error fault := by
  cases h with
  | deep h =>
    refine ⟨.tooDeep, ?_⟩
    unfold storeOf
    rw [h]
  | infinite h hx hi =>
    have hlarge := Number.toInt_eq_tooLarge_iff.2 ⟨_, _, rfl, hi⟩
    exact ⟨.tooLarge, (storeOf_of_entries h).trans (addEntries_eq_error hx hlarge)⟩

theorem storeOf_of_not_stops (h : ¬ Stops bytes) :
    ∃ s, storeOf bytes = .ok s ∧ s.Ordered ∧
      ∀ e, e ∈ s.items ↔ Counted ((entriesOf? bytes).getD []) e := by
  cases he : entriesOf? bytes with
  | none =>
    refine ⟨empty, storeOf_of_no_entries he fun hd => h (.deep hd), ordered_empty, fun e => ?_⟩
    simp [empty, Counted]
  | some entries =>
    have hi : ∀ f ∈ entries, Number.toInt f.2 ≠ .error .tooLarge := by
      rintro ⟨path, v⟩ hf hlarge
      obtain ⟨x, negative, rfl, hx⟩ := Number.toInt_eq_tooLarge_iff.1 hlarge
      exact h (.infinite he hf hx)
    obtain ⟨s, hok, ho, hmem⟩ := addEntries_eq_ok ordered_empty (keyedOnce_of_entriesOf? he)
      (fun _ _ _ hmem => by cases hmem) hi
    refine ⟨s, (storeOf_of_entries he).trans hok, ho, fun e => ?_⟩
    rw [hmem]
    simp [empty]

/-- Any bytes in its file give a store with the entries of the file whose counts can be read and are
above zero, and the empty one if there are no entries to be had. Only the bytes that stop
loading give none. Paths with half a pair of units are told apart only as far as they are read
(`Json.codeChar`). -/
theorem load_of_any_file {f : Disk.File} (hs : w.Sound) (hn : '\x00' ∉ p.text.toList)
    (hf : w.disk.file? p.text = some f) :
    (Stops f.bytes → ∃ fault w', (load p).run.run w = (.error fault, w')) ∧
    (¬ Stops f.bytes → ∃ s w', (load p).run.run w = (.ok s, w') ∧ s.Ordered ∧
      ∀ e, e ∈ s.items ↔ Counted ((entriesOf? f.bytes).getD []) e) := by
  obtain ⟨w', hload⟩ := run_load hs hn hf
  constructor
  · intro hstop
    obtain ⟨fault, herror⟩ := storeOf_of_stops hstop
    exact ⟨fault, w', by rw [hload, herror]⟩
  · intro hgo
    obtain ⟨s, hok, ho, hmem⟩ := storeOf_of_not_stops hgo
    exact ⟨s, w', by rw [hload, hok], ho, hmem⟩

/-- The entries of a value that is printed and read back. -/
theorem entriesOf?_indented {fs : List (String × Json)}
    (hl : Json.Legible Json.depthLimit (.obj fs))
    (h : fs.lookup "files" = some (.obj entries)) :
    entriesOf? (encode (Json.obj fs).indented) = some entries := by
  unfold entriesOf? dataOf
  rw [decode_encode]
  dsimp only
  rw [Json.unifyBreaks_of_printed Json.printed_indented, Json.parse_indented hl]
  change filesOf? (.obj fs) = some entries
  simp [filesOf?, Json.get?, Json.fields?, h]

/-- A tree with one file, of a value with these entries. -/
def savedWorld (entries : List (String × Json)) : World :=
  { bareWorld with
    disk := ⟨[(["s.json"], .file (encode (Json.obj [("files", .obj entries)]).indented) (.at 0))],
      ⟨[], 0⟩, [], 0, {}⟩ }

theorem file?_savedWorld (entries : List (String × Json)) :
    (savedWorld entries).disk.file? "/s.json" =
      some ⟨["s.json"], encode (Json.obj [("files", .obj entries)]).indented, .at 0⟩ := by
  have hsteps : splitAt '/' "/s.json" = ["", "s.json"] := by decide +kernel
  rw [Disk.file?_eq_some, Disk.locate_of_rooted (by decide) (by decide +kernel), hsteps,
    Disk.locateFrom, if_pos (by decide)]
  exact Disk.locateFrom_file (by decide) (by decide +kernel) rfl

theorem sound_savedWorld (entries : List (String × Json)) : (savedWorld entries).Sound :=
  fun _ h => by simp [savedWorld, bareWorld] at h

/-- Four entries, of which two have counts that are no numbers and one has none above zero. -/
def mixedEntries : List (String × Json) :=
  [("a", .str "x"), ("b", .int 2), ("c", .null), ("d", .int (-1))]

theorem load_mixedEntries : ∃ w',
    (load ⟨"/", ["s.json"]⟩).run.run (savedWorld mixedEntries) = (.ok ⟨[("b", 2)]⟩, w') := by
  have hl : Json.Legible Json.depthLimit (.obj [("files", .obj mixedEntries)]) := by
    simp only [Json.Legible, Json.LegibleFields, mixedEntries]
    decide
  have hentries := entriesOf?_indented hl rfl
  have hgo : ¬ Stops (encode (Json.obj [("files", .obj mixedEntries)]).indented) := by
    rintro (h | ⟨h, hx, -⟩)
    · unfold entriesOf? at hentries
      rw [h] at hentries
      cases hentries
    · obtain rfl := Option.some.inj (hentries.symm.trans h)
      simp [mixedEntries] at hx
  obtain ⟨s, w', hload, ho, hmem⟩ := (load_of_any_file (p := ⟨"/", ["s.json"]⟩)
    (sound_savedWorld mixedEntries) (by decide +kernel) (file?_savedWorld mixedEntries)).2 hgo
  have hordered : (Store.mk [("b", 2)]).Ordered := by
    unfold Ordered
    decide
  refine ⟨w', ?_⟩
  rw [hload, ext_of_ordered ho hordered fun e => ?_]
  have hword : Number.toInt (.str "x") = .error (.badValue "not a whole number") := by
    with_unfolding_all rfl
  rw [hmem, hentries, Option.getD_some]
  simp only [mixedEntries, counted_cons, hword]
  simp only [Number.toInt, Counted, Except.ok.injEq, reduceCtorEq, List.not_mem_nil,
    List.mem_singleton, Prod.ext_iff]
  grind

/-- An infinite count stops loading. -/
theorem load_stops_at_infinite : ∃ w',
    (load ⟨"/", ["s.json"]⟩).run.run
        (savedWorld [("a.js", .real (1.0 / 0.0)), ("b.js", .int 2)]) = (.error .tooLarge, w') := by
  have hreturns : Json.Returns (1.0 / 0.0) := by
    unfold Json.Returns
    with_unfolding_all rfl
  have hl : Json.Legible Json.depthLimit
      (.obj [("files", .obj [("a.js", .real (1.0 / 0.0)), ("b.js", .int 2)])]) := by
    simp only [Json.Legible, Json.LegibleFields, hreturns]
    decide
  have hentries := entriesOf?_indented hl rfl
  have hinfinite : Decimal.Binary.ofFloat (1.0 / 0.0) = .infinite false := by decide +kernel
  obtain ⟨w', hload⟩ := run_load (p := ⟨"/", ["s.json"]⟩) (sound_savedWorld _) (by decide +kernel)
    (file?_savedWorld _)
  refine ⟨w', ?_⟩
  rw [hload, storeOf_of_entries hentries, addEntries_eq_error List.mem_cons_self
    (Number.toInt_eq_tooLarge_iff.2 ⟨_, _, rfl, hinfinite⟩)]

end ConsoleSweep.Store
