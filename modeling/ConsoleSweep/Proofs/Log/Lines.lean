/-
  The JSON lines of records.

  A message is written mark by mark and read code by code (`readBack`), so it comes back unless
  the second half of a pair of units stands right behind a first half that is a mark of its own
  (`readBack_of_unpaired`). The other fields have the texts of their values. A line is therefore
  the text of an object with a text of its own for the message (`jsonLine_eq`), which is read field
  by field (`parse_text`).

  A text here is one of characters, so no field but the message can hold half a pair of units, and
  of fields with texts nothing is asked (`tellable_of_noText`).
-/
import ConsoleSweep.Log
import ConsoleSweep.Proofs.Json.RoundTrip
import Mathlib.Algebra.Ring.Int.Defs

namespace ConsoleSweep

namespace Text.Template

/-- A half of a pair of units, if it is none of the characters. -/
def Mark.IsProper : Mark → Prop
  | .char _ => True
  | .half n => 0xD800 ≤ n ∧ n < 0xE000

theorem Mark.isProper_ofNat (n : Nat) : (Mark.ofNat n).IsProper := by
  unfold Mark.ofNat
  split
  · next h => simpa [Mark.IsProper] using h
  · exact trivial

/-- If there are marks, all are proper. -/
def Sound (x : Except Fault (List Mark)) : Prop :=
  ∀ ms, x = .ok ms → ∀ m ∈ ms, m.IsProper

theorem sound_error {e : Fault} : Sound (.error e) := by
  rintro ms ⟨⟩

theorem sound_ok {ms : List Mark} (h : ∀ m ∈ ms, m.IsProper) : Sound (.ok ms) := by
  rintro _ ⟨⟩
  exact h

theorem Sound.ite {p : Prop} [Decidable p] {x y : Except Fault (List Mark)} (hx : Sound x)
    (hy : Sound y) : Sound (if p then x else y) := by
  split
  · exact hx
  · exact hy

theorem Sound.bind {α : Type} {x : Except Fault α} {f : α → Except Fault (List Mark)}
    (h : ∀ a, x = .ok a → Sound (f a)) : Sound (x >>= f) := by
  cases x with
  | error e => exact sound_error
  | ok a => exact h a rfl

theorem Sound.cons {c : Char} {x : Except Fault (List Mark)} (h : Sound x) :
    Sound (x.map (.char c :: ·)) := by
  cases x with
  | error e => exact sound_error
  | ok ms =>
    rintro _ ⟨⟩ m hm
    rcases List.mem_cons.1 hm with rfl | hm
    · exact trivial
    · exact h ms rfl m hm

theorem sound_marks {x : Except Fault (List Char)} : Sound (x.map marks) := by
  cases x with
  | error e => exact sound_error
  | ok cs =>
    rintro _ ⟨⟩ m hm
    obtain ⟨c, -, rfl⟩ := List.mem_map.1 hm
    exact trivial

theorem isProper_of_markOf {v : Json} {m : Mark} (h : markOf v = .ok m) : m.IsProper := by
  unfold markOf at h
  split at h
  · split at h
    · obtain rfl := Except.ok.inj h
      exact trivial
    · contradiction
  · cases hn : wholeOf v with
    | error e =>
      rw [hn] at h
      contradiction
    | ok n =>
      rw [hn] at h
      simp only [bind, Except.bind] at h
      split at h
      · obtain rfl := Except.ok.inj h
        exact Mark.isProper_ofNat _
      · contradiction

theorem mem_pad {α : Type} {d : Directive} {blank a : α} {text : List α}
    (h : a ∈ d.pad blank text) : a = blank ∨ a ∈ text := by
  unfold Directive.pad at h
  split at h <;> rcases List.mem_append.1 h with h | h
  · exact .inr h
  · exact .inl (List.eq_of_mem_replicate h)
  · exact .inl (List.eq_of_mem_replicate h)
  · exact .inr h

theorem sound_convert (d : Directive) (letter : Char) (v : Json) :
    Sound (d.convert letter v) := by
  have hend : ∀ out : List Mark, (∀ m ∈ out, m.IsProper) →
      Sound (if memoryLimit < d.width then .error .noMemory else return out) :=
    fun out hout => .ite sound_error (sound_ok hout)
  unfold Directive.convert
  refine .ite (.bind fun out hout => hend out ?_) (.bind fun out hout => hend out ?_)
  · cases hm : markOf v with
    | error e =>
      rw [hm] at hout
      contradiction
    | ok m =>
      rw [hm] at hout
      obtain rfl := Except.ok.inj hout
      intro n hn
      rcases mem_pad hn with rfl | hn
      · exact trivial
      · obtain rfl := List.mem_singleton.1 hn
        exact isProper_of_markOf hm
  · exact sound_marks _ hout

/-- A directive that ends, and what follows it. -/
theorem sound_finish {d : Directive} {s : Supply} {c : Char}
    {next : Supply → Except Fault (List Mark)} (hnext : ∀ s, Sound (next s)) :
    Sound (do
      let (out, s) ← finish d s c
      return out ++ (← next s)) := by
  refine Sound.bind fun (out, s') hfinish => ?_
  have hout : ∀ m ∈ out, m.IsProper := by
    unfold finish at hfinish
    cases hv : s.next with
    | error e =>
      rw [hv] at hfinish
      contradiction
    | ok vs =>
      rw [hv] at hfinish
      cases hm : d.convert c vs.1 with
      | error e =>
        simp [bind, Except.bind, hm] at hfinish
      | ok ms =>
        simp only [bind, Except.bind, hm, pure, Except.pure, Except.ok.injEq,
          Prod.mk.injEq] at hfinish
        exact hfinish.1 ▸ sound_convert d c vs.1 ms hm
  refine Sound.bind fun ms hms => ?_
  rintro _ ⟨⟩ m hm
  rcases List.mem_append.1 hm with hm | hm
  · exact hout m hm
  · exact hnext s' ms hms m hm

theorem sound_expandFrom (stage : Stage) (d : Directive) (s : Supply) (text : List Char) :
    Sound (expandFrom stage d s text) := by
  induction text generalizing stage d s with
  | nil =>
    rw [expandFrom]
    exact .ite sound_error (.ite sound_error (sound_ok (List.forall_mem_nil _)))
  | cons c text ih =>
    have hlast := sound_finish (d := d) (s := s) (c := c) fun s => ih .text {} s
    have hdone : Sound (if c = 'h' || c = 'l' || c = 'L' then expandFrom .letter d s text
        else do
          let (out, s) ← finish d s c
          return out ++ (← expandFrom .text {} s text)) := by
      exact .ite (ih _ _ _) hlast
    unfold expandFrom
    -- Every branch reads on, ends a directive or gives up.
    cases stage with
    | text => exact .ite (ih _ _ _) (ih _ _ _).cons
    | name depth read =>
      refine .ite ?_ (ih _ _ _)
      cases depth with
      | zero => exact .bind fun _ _ => ih _ _ _
      | succ depth => exact ih _ _ _
    | start | flags =>
      refine .ite (ih _ _ _).cons (.ite (.ite sound_error (ih _ _ _)) ?_)
      iterate 5 refine .ite (ih _ _ _) ?_
      exact .ite (.bind fun _ _ => ih _ _ _) (.ite (ih _ _ _) (.ite (ih _ _ _) hdone))
    | width => exact .ite (.bind fun _ _ => ih _ _ _) (.ite (ih _ _ _) hdone)
    | point => exact .ite (ih _ _ _) hdone
    | precision => exact .ite (.bind fun _ _ => ih _ _ _) (.ite (ih _ _ _) hdone)
    | places => exact .ite (.bind fun _ _ => ih _ _ _) hdone
    | size => exact hdone
    | letter => exact hlast

/-- Half a pair in what a template expands to is none of the characters. -/
theorem sound_expand (template : List Char) (values : Values) :
    Sound (expand template values) :=
  sound_expandFrom _ _ _ _

end Text.Template

namespace Log

open Json Text.Template

variable {r : Record} {m : Mark} {ms : List Mark} {opened : Nat} {rest : List Char}

/-! ## The text of a message -/

theorem sound_marks (r : Record) : Sound r.marks := by
  unfold Record.marks
  refine .ite sound_error ?_
  split
  · refine sound_ok fun m hm => ?_
    obtain ⟨c, -, rfl⟩ := List.mem_map.1 hm
    exact trivial
  · exact sound_expand _ _

/-- The codes of a mark: those of its character, or the half that it is. -/
def codes : Mark → List Nat
  | .char c => codesOf c
  | .half n => [n]

/-- The text of a message. -/
def messageText (ms : List Mark) : List Char :=
  '"' :: ms.flatMap escapedMark ++ ['"']

/-- Two marks that are read as one character: the halves of a pair. -/
def isPair : Mark → Mark → Bool
  | .half n, .half m => isHighUnit n && isLowUnit m
  | _, _ => false

/-- No two marks next to each other are read as one. -/
def Unpaired (ms : List Mark) : Prop :=
  ms.IsChain fun a b => isPair a b = false

theorem readCodes_escapedMark (hm : m.IsProper) (hr : rest ≠ []) :
    readCodes opened (escapedMark m ++ rest) = consCodes (codes m) (readCodes opened rest) := by
  cases m with
  | char c => exact readCodes_escapedChar c hr
  | half n => exact readCodes_unitEscape (Nat.lt_trans hm.2 (by decide)) hr

/-- The text of a message is read as the codes of its marks. -/
theorem readCodes_messageText (hms : ∀ m ∈ ms, m.IsProper) :
    readCodes opened (ms.flatMap escapedMark ++ '"' :: rest) = .ok (ms.flatMap codes, rest) := by
  induction ms with
  | nil => rw [List.flatMap_nil, List.nil_append, readCodes] <;> simp
  | cons m ms ih =>
    obtain ⟨hm, hms⟩ := List.forall_mem_cons.1 hms
    rw [List.flatMap_cons, List.append_assoc, readCodes_escapedMark hm (by simp), ih hms,
      List.flatMap_cons, consCodes_ok]

/-- The message that is read from the codes of marks. -/
def readBack (ms : List Mark) : String :=
  String.ofList (joinCodes (ms.flatMap codes))

theorem joinCodes_flatMap_codes (hms : ∀ m ∈ ms, m.IsProper) (hpaired : Unpaired ms) :
    joinCodes (ms.flatMap codes) = ms.map Mark.shown := by
  induction ms with
  | nil => rfl
  | cons m ms ih =>
    obtain ⟨hm, hms⟩ := List.forall_mem_cons.1 hms
    rw [List.flatMap_cons, List.map_cons, ← ih hms (List.IsChain.of_cons hpaired)]
    cases m with
    | char c => exact joinCodes_codesOf c _
    | half n =>
      refine joinCodes_half hm fun k hk => ?_
      cases ms with
      | nil => contradiction
      | cons m' ms =>
        have hpair : isPair (.half n) m' = false := (List.isChain_cons_cons.1 hpaired).1
        cases m' with
        | char c => rw [isLowUnit_of_head?_codesOf c (ms.flatMap codes) k hk, Bool.and_false]
        | half n' =>
          obtain rfl : n' = k := Option.some.inj hk
          exact hpair

/-- What is shown for marks is read back, unless two of them make a pair. -/
theorem readBack_of_unpaired (hms : ∀ m ∈ ms, m.IsProper) (hpaired : Unpaired ms) :
    readBack ms = String.ofList (ms.map Mark.shown) :=
  congrArg String.ofList (joinCodes_flatMap_codes hms hpaired)

theorem readBack_of_chars (h : ∀ m ∈ ms, m = .char m.shown) :
    readBack ms = String.ofList (ms.map Mark.shown) := by
  have hcodes : ms.flatMap codes = (ms.map Mark.shown).flatMap codesOf := by
    rw [List.flatMap_map]
    refine List.flatMap_congr fun m hm => ?_
    rw [h m hm]
    rfl
  rw [readBack, hcodes, joinCodes_flatMap]

/-- The marks of a text are all characters, so no two of them make a pair. -/
theorem unpaired_marks (text : List Char) : Unpaired (marks text) := by
  induction text with
  | nil => exact .nil
  | cons c text ih =>
    cases text with
    | nil => exact .singleton _
    | cons d text => exact .cons_cons rfl ih

/-- The text of a message is read as far as its codes tell. -/
theorem readAs_messageText {depth : Nat} (hms : ∀ m ∈ ms, m.IsProper) :
    ReadAs depth (messageText ms) (.str (readBack ms)) := by
  intro fuel rest hf _
  have htext : messageText ms ++ rest = '"' :: (ms.flatMap escapedMark ++ '"' :: rest) := by
    simp [messageText]
  obtain ⟨fuel, rfl⟩ : ∃ n, fuel = n + 1 := ⟨fuel - 1, by simp [messageText] at hf; omega⟩
  rw [htext, readValue, readString, readCodes_messageText hms]
  rfl

theorem glyphs_messageText (ms : List Mark) : Glyphs (messageText ms) := by
  have hbody : Glyphs (ms.flatMap escapedMark) := by
    intro c hc
    obtain ⟨m, -, hm⟩ := List.mem_flatMap.1 hc
    cases m with
    | char d => exact glyphs_escapedChar d c hm
    | half n => exact glyphs_unitEscape n c hm
  simp [messageText, hbody]

theorem messageText_of_chars (h : ∀ m ∈ ms, m = .char m.shown) :
    messageText ms = Json.string (String.ofList (ms.map Mark.shown)) := by
  have hbody : ms.flatMap escapedMark = (ms.map Mark.shown).flatMap escapedChar := by
    rw [List.flatMap_map]
    refine List.flatMap_congr fun m hm => ?_
    rw [h m hm]
    rfl
  simp [messageText, Json.string, hbody]

/-! ## The text of a record -/

/-- The fields of a record between its moment and its message. -/
def Record.named (r : Record) : List (String × Json) :=
  [("level", r.attribute "levelname" (.str (levelName r.level))),
    ("logger", r.attribute "name" (.str r.logger))]

/-- The message of a record as a field with its own text. -/
def messageField (ms : List Mark) : Field :=
  ⟨"message", messageText ms, .str (readBack ms)⟩

/-- The moment of a record as a field. -/
def stampField (stamp : String) : Field :=
  .laid .oneLine 1 ("timestamp", .str stamp)

/-- The fields of a record behind its moment, each by its text. -/
def Record.behindStamp (r : Record) (ms : List Mark) : List Field :=
  r.named.map (.laid .oneLine 1) ++ messageField ms :: r.after.map (.laid .oneLine 1)

/-- The whole text of a record with the given moment and message. -/
def Record.text (r : Record) (stamp : String) (ms : List Mark) : List Char :=
  '\x7b' :: (stampField stamp).whole ++ moreTexts .oneLine 0 (r.behindStamp ms)

/-- The value of a record with the given moment and message. -/
def Record.value (r : Record) (stamp message : String) : List (String × Json) :=
  ("timestamp", .str stamp) :: r.named ++ ("message", .str message) :: r.after

theorem valuesOf_text (r : Record) (stamp : String) (ms : List Mark) :
    valuesOf (stampField stamp :: r.behindStamp ms) = r.value stamp (readBack ms) := by
  have hlaid : ∀ fs : List (String × Json),
      (fs.map (Field.laid .oneLine 1)).map (fun f => (f.key, f.value)) = fs :=
    valuesOf_laid .oneLine 1
  unfold valuesOf Record.behindStamp Record.value
  rw [List.map_cons, List.map_append, List.map_cons, hlaid, hlaid]
  rfl

/-- The comma, the name and the text of each field. -/
def commaTexts (fields : List Field) : List Char :=
  fields.flatMap fun f => ',' :: ' ' :: f.whole

theorem moreTexts_append (fields more : List Field) :
    moreTexts .oneLine 0 (fields ++ more) = commaTexts fields ++ moreTexts .oneLine 0 more := by
  induction fields with
  | nil => rfl
  | cons f fields ih =>
    rw [List.cons_append, moreTexts, ih]
    simp [commaTexts, Layout.oneLine]

theorem message_of_marks (h : r.marks = .ok ms) :
    r.message = .ok (String.ofList (ms.map Mark.shown)) := by
  rw [Record.message, h]
  rfl

theorem line_obj (f : String × Json) (fs : List (String × Json)) :
    (Json.obj (f :: fs)).line = '\x7b' :: (Field.laid .oneLine 1 f).whole ++
      moreTexts .oneLine 0 (fs.map (.laid .oneLine 1)) := by
  rw [line_eq 0, laidOut_object]
  rfl

/-- A template without values is its own message. -/
theorem message_of_template (hmsg : r.extras.lookup "msg" = none)
    (hargs : r.extras.lookup "args" = none) (hget : r.extras.lookup "getMessage" = none)
    (hvalues : r.values = []) : r.message = .ok r.template := by
  have hmarks : r.marks = .ok (marks r.template.toList) := by
    simp [Record.marks, Record.givenValues, Record.attribute, hmsg, hargs, hget, hvalues,
      Json.toText]
  rw [message_of_marks hmarks]
  simp [marks, Mark.shown, Function.comp_def]

theorem before_eq (moment : Number) {stamp : String}
    (hmoment : Number.ofJson (r.attribute "created" r.created.toJson) = .ok moment)
    (hstamp : Time.localIso moment = .ok stamp) :
    r.before = .ok (("timestamp", .str stamp) :: r.named) := by
  rw [Record.before, hmoment]
  simp only [bind, Except.bind, hstamp]
  rfl

theorem toJson_eq {stamp message : String}
    (hbefore : r.before = .ok (("timestamp", .str stamp) :: r.named))
    (hmessage : r.message = .ok message) : r.toJson = .ok (.obj (r.value stamp message)) := by
  rw [Record.toJson, hbefore, hmessage]
  rfl

/-- A record with a number that is too long has no line. -/
theorem jsonLine_of_long {v : Json} (hvalue : r.toJson = .ok v) (h : v.isWritable = false) :
    r.jsonLine = .error (.badValue "number with too many digits") := by
  simp [Record.jsonLine, hvalue, bind, Except.bind, h, throw, throwThe, MonadExceptOf.throw]

/-- A record that is too deep has no line. -/
theorem jsonLine_of_deep {v : Json} (hvalue : r.toJson = .ok v) (h : v.isWritable = true)
    (hdeep : depthLimit < v.depth) : r.jsonLine = .error .tooDeep := by
  simp [Record.jsonLine, hvalue, bind, Except.bind, h, hdeep, throw, throwThe, MonadExceptOf.throw]

/-- A record with a moment and a message that is neither too long nor too deep is written field by
field. -/
theorem jsonLine_eq {stamp : String}
    (hbefore : r.before = .ok (("timestamp", .str stamp) :: r.named))
    (hmarks : r.marks = .ok ms)
    (hshort : (Json.obj (r.value stamp (String.ofList (ms.map Mark.shown)))).isWritable = true)
    (hshallow : (Json.obj (r.value stamp (String.ofList (ms.map Mark.shown)))).depth ≤ depthLimit) :
    r.jsonLine = .ok (r.text stamp ms) := by
  have hvalue := toJson_eq hbefore (message_of_marks hmarks)
  have hshortLine : (Json.obj (("timestamp", .str stamp) :: r.named)).line =
      '\x7b' :: (stampField stamp).whole ++ commaTexts (r.named.map (.laid .oneLine 1)) ++
        ['\x7d'] := by
    have hmore := moreTexts_append (r.named.map (.laid .oneLine 1)) []
    rw [List.append_nil] at hmore
    rw [line_obj, hmore]
    simp [stampField, moreTexts, Layout.oneLine]
  unfold Record.jsonLine
  rw [hvalue, hmarks]
  simp only [bind, Except.bind, hshort, hbefore, Bool.not_true, Bool.false_eq_true, if_false,
    if_neg (Nat.not_lt.2 hshallow), pure, Except.pure]
  split
  · next hchars =>
    have hmessage : messageField ms =
        .laid .oneLine 1 ("message", .str (String.ofList (ms.map Mark.shown))) := by
      have hchars : ∀ m ∈ ms, m = .char m.shown := by simpa using hchars
      simp [messageField, Field.laid, messageText_of_chars hchars, readBack_of_chars hchars,
        laidOut, scalar]
    unfold Record.value Record.text Record.behindStamp
    rw [List.cons_append, line_obj, hmessage, List.map_append, List.map_cons]
    rfl
  · have hname : ", \"message\": ".toList =
        ',' :: ' ' :: (Json.string "message" ++ [':', ' ']) := by decide
    rw [hshortLine, List.dropLast_concat, hname, lineFields_eq 0, laidFields_eq_moreTexts]
    unfold Record.text Record.behindStamp
    rw [moreTexts_append, moreTexts]
    simp [messageField, messageText, Field.whole, Layout.oneLine]

/-! ## Reading it back -/

/-- What a JSON text can tell: each key once, whole numbers that are not too long, less depth than
is read, and floating-point numbers that come back from their digits. -/
structure Tellable (v : Json) : Prop where
  distinct : Distinct v
  short : isWritable v = true
  shallow : v.depth < depthLimit
  returns : ∀ x ∈ v.reals, Returns x

theorem tellable_str (s : String) : Tellable (.str s) :=
  ⟨trivial, rfl, by simp [Json.depth, depthLimit], by simp [reals]⟩

theorem tellable_of_noText {v : Json} (h : v.str? = none → Tellable v) : Tellable v := by
  cases v with
  | str s => exact tellable_str s
  | _ => exact h rfl

/-- The fields of a record that are told as they are. -/
def Record.told (r : Record) : List (String × Json) :=
  r.named ++ r.after

theorem keys_structured (r : Record) :
    r.structured.map (·.1) = structuredFields.filter fun k => (r.extras.lookup k).isSome := by
  unfold Record.structured
  induction structuredFields with
  | nil => rfl
  | cons k ks ih =>
    cases hk : r.extras.lookup k with
    | none =>
      rw [List.filterMap_cons_none (by simp [hk]), ih, List.filter_cons_of_neg (by simp [hk])]
    | some v =>
      rw [List.filterMap_cons_some (by simp [hk]; rfl), List.map_cons, ih,
        List.filter_cons_of_pos (by simp [hk])]

theorem lookup_of_mem_structured {f : String × Json} (h : f ∈ r.structured) :
    r.extras.lookup f.1 = some f.2 := by
  obtain ⟨k, -, hk⟩ := List.mem_filterMap.1 h
  obtain ⟨v, hv, rfl⟩ := Option.map_eq_some_iff.1 hk
  exact hv

theorem keyedOnce_value (r : Record) (stamp message : String) :
    KeyedOnce (r.value stamp message) := by
  have hkeys : (r.value stamp message).map (·.1) =
      ["timestamp", "level", "logger", "message", "module", "function", "line"] ++
        structuredFields.filter fun k => (r.extras.lookup k).isSome := by
    rw [← keys_structured]
    rfl
  unfold KeyedOnce
  rw [hkeys]
  have hall : (["timestamp", "level", "logger", "message", "module", "function", "line"] ++
      structuredFields).Nodup := by decide
  exact hall.sublist (List.filter_sublist.append_left _)

theorem tellable_value (stamp message : String) (h : ∀ f ∈ r.told, Tellable f.2) :
    ∀ f ∈ r.value stamp message, Tellable f.2 := by
  unfold Record.told at h
  obtain ⟨hnamed, hafter⟩ := List.forall_mem_append.1 h
  unfold Record.value
  simp only [List.cons_append, List.forall_mem_cons, List.forall_mem_append]
  exact ⟨tellable_str stamp, hnamed, tellable_str message, hafter⟩

/-- The value of a record is neither too long nor too deep to be written. -/
theorem within_limits (stamp message : String) (h : ∀ f ∈ r.told, Tellable f.2) :
    (Json.obj (r.value stamp message)).isWritable = true ∧
      (Json.obj (r.value stamp message)).depth ≤ depthLimit := by
  have hvalue := tellable_value stamp message h
  refine ⟨haveWritable_iff.2 fun f hf => (hvalue f hf).short, ?_⟩
  have hfields : fieldsDepth (r.value stamp message) ≤ depthLimit - 1 :=
    fieldsDepth_le_iff.2 fun f hf => Nat.le_sub_one_of_lt (hvalue f hf).shallow
  rw [Json.depth]
  exact Nat.add_le_of_le_sub (by decide) hfields

theorem isRead_laid {f : String × Json} (h : Tellable f.2) :
    (Field.laid .oneLine 1 f).IsRead (depthLimit - 1) := by
  have hlegible : Legible (depthLimit - 1) f.2 :=
    legible_of_isWritable h.distinct h.short (by have := h.shallow; omega) h.returns
  exact ⟨fun rest => noSpace_laidOut hlegible, reads_of_legible hlegible 1⟩

theorem isRead_behindStamp (hms : ∀ m ∈ ms, m.IsProper) (h : ∀ f ∈ r.told, Tellable f.2) :
    ∀ f ∈ r.behindStamp ms, f.IsRead (depthLimit - 1) := by
  have hlaid : ∀ fs : List (String × Json), (∀ f ∈ fs, Tellable f.2) →
      ∀ f ∈ fs.map (Field.laid .oneLine 1), f.IsRead (depthLimit - 1) := by
    intro fs hfs f hf
    obtain ⟨g, hg, rfl⟩ := List.mem_map.1 hf
    exact isRead_laid (hfs g hg)
  obtain ⟨hnamed, hafter⟩ := List.forall_mem_append.1 h
  unfold Record.behindStamp
  rw [List.forall_mem_append, List.forall_mem_cons]
  refine ⟨hlaid _ hnamed, ⟨fun rest => ?_, readAs_messageText hms⟩, hlaid _ hafter⟩
  simp [messageField, messageText, NoSpace, isSpace]

theorem parse_text {stamp : String} (hms : ∀ m ∈ ms, m.IsProper)
    (h : ∀ f ∈ r.told, Tellable f.2) :
    parse (r.text stamp ms) = .ok (.obj (r.value stamp (readBack ms))) := by
  have hkeys : KeyedOnce (valuesOf (stampField stamp :: r.behindStamp ms)) := by
    rw [valuesOf_text]
    exact keyedOnce_value r _ _
  have hread : ReadAs depthLimit (r.text stamp ms)
      (.obj (valuesOf (stampField stamp :: r.behindStamp ms))) :=
    readAs_object (L := .oneLine) (k := 0) hkeys
      (List.forall_mem_cons.2 ⟨isRead_laid (tellable_str stamp), isRead_behindStamp hms h⟩)
  rw [valuesOf_text] at hread
  exact parse_of_readAs (by simp [Record.text]) (by simp [Record.text, NoSpace, isSpace]) hread

theorem glyphs_text (r : Record) (stamp : String) (ms : List Mark) :
    Glyphs (r.text stamp ms) := by
  refine forall_mem_object (L := .oneLine) (k := 0) Layout.oneLine_within fun f hf => ?_
  have hlaid : ∀ fs : List (String × Json), ∀ f ∈ fs.map (Field.laid .oneLine 1),
      Glyphs f.text := by
    intro fs f hf
    obtain ⟨g, -, rfl⟩ := List.mem_map.1 hf
    exact forall_mem_laidOut Layout.oneLine_within g.2 1
  rcases List.mem_cons.1 hf with rfl | hf
  · exact hlaid [("timestamp", .str stamp)] _ (List.mem_singleton.2 rfl)
  rcases List.mem_append.1 hf with hf | hf
  · exact hlaid _ f hf
  rcases List.mem_cons.1 hf with rfl | hf
  · exact glyphs_messageText ms
  · exact hlaid _ f hf

/-- At the place of the message, a reader finds the codes of the marks. -/
def TellsCodes (line : List Char) (ms : List Mark) : Prop :=
  ∃ front back, line = front ++ ", \"message\": \"".toList ++ back ∧
    ∀ opened, ∃ rest, readCodes opened back = .ok (ms.flatMap codes, rest)

theorem tellsCodes_text (r : Record) (stamp : String) (hms : ∀ m ∈ ms, m.IsProper) :
    TellsCodes (r.text stamp ms) ms := by
  have hname : ", \"message\": \"".toList =
      ',' :: ' ' :: (Json.string "message" ++ [':', ' ', '"']) := by decide
  let more := moreTexts .oneLine 0 (r.after.map (.laid .oneLine 1))
  refine ⟨'\x7b' :: (stampField stamp).whole ++ commaTexts (r.named.map (.laid .oneLine 1)),
    ms.flatMap escapedMark ++ '"' :: more, ?_, fun opened => ⟨more, readCodes_messageText hms⟩⟩
  unfold Record.text Record.behindStamp
  rw [moreTexts_append, moreTexts, hname]
  simp [more, messageField, messageText, Field.whole, Layout.oneLine]

/-- The line of a record that has a moment and a message, and whose other fields can be told if they
are no texts, has printable ASCII characters only, and is parsed as the record: its seven fields, and
after them the structured ones that it was given. Half a pair in the message is shown as the
replacement character, but told as the half that it is. -/
theorem parse_jsonLine {moment : Number} {stamp : String}
    (hmoment : Number.ofJson (r.attribute "created" r.created.toJson) = .ok moment)
    (hstamp : Time.localIso moment = .ok stamp) (hmarks : r.marks = .ok ms)
    (hpaired : Unpaired ms) (htold : ∀ f ∈ r.told, f.2.str? = none → Tellable f.2) :
    ∃ line message, r.jsonLine = .ok line ∧ r.message = .ok message ∧
      (∀ c ∈ line, ' ' ≤ c ∧ c ≤ '~') ∧
      parse line = .ok (.obj
        ([("timestamp", .str stamp),
          ("level", r.attribute "levelname" (.str (levelName r.level))),
          ("logger", r.attribute "name" (.str r.logger)),
          ("message", .str message),
          ("module", r.attribute "module" (.str r.module)),
          ("function", r.attribute "funcName" r.source.functionJson),
          ("line", r.attribute "lineno" (.int r.source.line))] ++ r.structured)) ∧
      TellsCodes line ms ∧
      r.structured.map (·.1) =
        ["action", "details", "path", "metric_snapshot"].filter
          (fun k => (r.extras.lookup k).isSome) ∧
      ∀ f ∈ r.structured, r.extras.lookup f.1 = some f.2 := by
  have hbefore := before_eq moment hmoment hstamp
  have hms := sound_marks r ms hmarks
  have htold : ∀ f ∈ r.told, Tellable f.2 := fun f hf => tellable_of_noText (htold f hf)
  obtain ⟨hshort, hshallow⟩ := within_limits stamp (String.ofList (ms.map Mark.shown)) htold
  refine ⟨r.text stamp ms, String.ofList (ms.map Mark.shown),
    jsonLine_eq hbefore hmarks hshort hshallow, message_of_marks hmarks, glyphs_text r stamp ms, ?_,
    tellsCodes_text r stamp hms, keys_structured r, fun f => lookup_of_mem_structured⟩
  rw [parse_text hms htold, readBack_of_unpaired hms hpaired]
  rfl

/-- A record of a message with two values, with structured fields among others. -/
def someRecord : Record where
  logger := "sweep"
  level := info
  template := "moved %d of\n%s"
  values := [.int 3, .str "a\"b"]
  source := ⟨"src/run.py", some "move", 12⟩
  created := .int 1700000000
  extras := [("details", .obj [("text", .str "\t\x07 \\ 😀"), ("list", .arr [.int (-1), .null])]),
    ("note", .bool true), ("action", .str "line\r\n")]
  isInternal := false

theorem parse_jsonLine_someRecord : ∃ line, someRecord.jsonLine = .ok line ∧
    (∀ c ∈ line, ' ' ≤ c ∧ c ≤ '~') ∧
    parse line = .ok (.obj
      [("timestamp", .str "2023-11-14T22:13:20"), ("level", .str "INFO"), ("logger", .str "sweep"),
        ("message", .str "moved 3 of\na\"b"), ("module", .str "run"), ("function", .str "move"),
        ("line", .int 12), ("action", .str "line\r\n"),
        ("details", .obj [("text", .str "\t\x07 \\ 😀"), ("list", .arr [.int (-1), .null])])]) := by
  have hmarks : someRecord.marks = .ok (marks "moved 3 of\na\"b".toList) := by rfl
  have htold : ∀ f ∈ someRecord.told, f.2.str? = none → Tellable f.2 := by
    have hlist : someRecord.told =
        [("level", .str "INFO"), ("logger", .str "sweep"), ("module", .str "run"),
          ("function", .str "move"), ("line", .int 12), ("action", .str "line\r\n"),
          ("details",
            .obj [("text", .str "\t\x07 \\ 😀"), ("list", .arr [.int (-1), .null])])] := by rfl
    rw [hlist]
    simp only [List.forall_mem_cons, tellable_str, implies_true, true_and]
    refine ⟨fun _ => ⟨trivial, by decide, by decide, by simp [reals]⟩,
      fun _ => ⟨⟨by decide, trivial, ⟨trivial, trivial, trivial⟩, trivial⟩, by decide, by decide, ?_⟩,
      List.forall_mem_nil _⟩
    simp [reals, fieldsReals, itemsReals]
  obtain ⟨line, message, hline, hmessage, hglyphs, hparse, -⟩ :=
    parse_jsonLine (r := someRecord) (by rfl) (by rfl) hmarks (unpaired_marks _) htold
  have hown : someRecord.message = .ok "moved 3 of\na\"b" := by rfl
  obtain rfl := Except.ok.inj (hown.symm.trans hmessage)
  exact ⟨line, hline, hglyphs, hparse⟩

/-- A record of a short message, with nothing else. -/
def shortRecord : Record :=
  ⟨"x", info, "m", [], ⟨"a.py", none, 1⟩, .int 0, [], false⟩

/-- A record of the first second of the year 10000. -/
def lateRecord : Record :=
  { shortRecord with created := .int 253402300800 }

/-- A number with one digit more than can be written. -/
def longNumber : Int := 10 ^ digitLimit

theorem isWritable_longNumber : isWritable (.int longNumber) = false := by
  have hlong : ¬ (Nat.toDigits 10 (10 ^ digitLimit)).length ≤ digitLimit := by
    rw [Nat.length_toDigits_le_iff (by decide) (by decide)]
    exact Nat.lt_irrefl _
  have hten : (10 : Int).natAbs = 10 := rfl
  rw [isWritable, longNumber, Int.natAbs_pow, hten]
  exact decide_eq_false hlong

/-- Arrays inside each other. -/
def nest : Nat → Json
  | 0 => .null
  | n + 1 => .arr [nest n]

theorem depth_nest (n : Nat) : (nest n).depth = n := by
  induction n with
  | zero => rfl
  | succ n ih => simp [nest, Json.depth, itemsDepth, ih]

theorem isWritable_nest (n : Nat) : isWritable (nest n) = true := by
  induction n with
  | zero => rfl
  | succ n ih => simp [nest, isWritable, areWritable, ih]

/-- A record with the given details. -/
def detailed (v : Json) : Record :=
  { shortRecord with extras := [("details", v)] }

/-- A record whose message is made of the two halves of a pair. -/
def halvesRecord : Record :=
  { shortRecord with template := "%c%c", values := [.int 0xD83D, .int 0xDE00] }

theorem message_detailed (v : Json) : (detailed v).message = .ok "m" :=
  message_of_template (by rfl) (by rfl) (by rfl) rfl

theorem toJson_detailed (v : Json) : (detailed v).toJson = .ok (.obj
    [("timestamp", .str "1970-01-01T00:00:00"), ("level", .str "INFO"), ("logger", .str "x"),
      ("message", .str "m"), ("module", .str "a"), ("function", .null), ("line", .int 1),
      ("details", v)]) := by
  have hbefore : (detailed v).before =
      .ok (("timestamp", .str "1970-01-01T00:00:00") :: (detailed v).named) :=
    before_eq (.int 0) (by rfl) (by rfl)
  rw [toJson_eq hbefore (message_detailed v)]
  have hmodule : (detailed v).module = "a" := show Path.stemOf "a.py" = "a" by rfl
  have hnamed : (detailed v).named = [("level", .str "INFO"), ("logger", .str "x")] := by rfl
  have hafter : (detailed v).after =
      [("module", .str (detailed v).module), ("function", .null), ("line", .int 1),
        ("details", v)] := by rfl
  rw [Record.value, hnamed, hafter, hmodule]
  rfl

/-- Records whose message is formatted and whose extras are JSON values. Three of them have no line,
since the moment, a whole number or the depth is beyond what can be written. The line of the last
one is read with another message, in which two marks have become one character. -/
theorem lines_of_odd_records :
    (lateRecord.message = .ok "m" ∧ lateRecord.jsonLine = .error (.badValue "year out of range")) ∧
    ((detailed (.int longNumber)).message = .ok "m" ∧
      (detailed (.int longNumber)).jsonLine = .error (.badValue "number with too many digits")) ∧
    ((detailed (nest 1000)).message = .ok "m" ∧
      (detailed (nest 1000)).jsonLine = .error .tooDeep) ∧
    halvesRecord.marks = .ok [.half 0xD83D, .half 0xDE00] ∧
    ∃ line, halvesRecord.jsonLine = .ok line ∧
      parse line = .ok (.obj
        [("timestamp", .str "1970-01-01T00:00:00"), ("level", .str "INFO"), ("logger", .str "x"),
          ("message", .str "😀"), ("module", .str "a"), ("function", .null), ("line", .int 1)]) := by
  have hmarks : halvesRecord.marks = .ok [.half 0xD83D, .half 0xDE00] := by rfl
  have htold : ∀ f ∈ halvesRecord.told, Tellable f.2 := by
    have hlist : halvesRecord.told = [("level", .str "INFO"), ("logger", .str "x"),
        ("module", .str "a"), ("function", .null), ("line", .int 1)] := by rfl
    rw [hlist]
    simp only [List.forall_mem_cons, tellable_str, true_and]
    exact ⟨⟨trivial, by decide, by decide, by simp [reals]⟩,
      ⟨trivial, by decide, by decide, by simp [reals]⟩, List.forall_mem_nil _⟩
  refine ⟨⟨by rfl, by rfl⟩, ⟨message_detailed _, ?_⟩, ⟨message_detailed _, ?_⟩, hmarks, ?_⟩
  · refine jsonLine_of_long (toJson_detailed _) ?_
    refine Bool.eq_false_iff.2 fun h => ?_
    have hlong := haveWritable_iff.1 h ("details", .int longNumber) (by simp)
    exact Bool.false_ne_true (isWritable_longNumber.symm.trans hlong)
  · refine jsonLine_of_deep (toJson_detailed _) ?_ ?_
    · simp [isWritable, haveWritable, isWritable_nest]
      decide
    · simp [Json.depth, fieldsDepth, depth_nest, depthLimit]
  · have hbefore : halvesRecord.before =
        .ok (("timestamp", .str "1970-01-01T00:00:00") :: halvesRecord.named) :=
      before_eq (.int 0) (by rfl) (by rfl)
    obtain ⟨hshort, hshallow⟩ := within_limits "1970-01-01T00:00:00" _ htold
    refine ⟨_, jsonLine_eq hbefore hmarks hshort hshallow, ?_⟩
    rw [parse_text (sound_marks halvesRecord _ hmarks) htold]
    rfl

end Log

end ConsoleSweep
