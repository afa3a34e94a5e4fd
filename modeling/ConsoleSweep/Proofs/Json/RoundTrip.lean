/-
  Values come back from their JSON texts.

  The texts of a value differ in the gaps between its parts only (`Layout`), and a reader
  skips gaps, so all of them are read alike (`reads_of_legible`). What can be read back is a
  value whose floating-point numbers come back one by one, whose whole numbers are short
  enough, whose objects have each key once, and which is not too deep (`Legible`).

  The values of an object may have texts that are not those of a layout, as long as they are
  read (`Field`).
-/
import ConsoleSweep.Proofs.Json.Fields
import ConsoleSweep.Proofs.Json.Floats
import ConsoleSweep.Proofs.Json.Scalars
import ConsoleSweep.Proofs.Text.Names
import ConsoleSweep.Text.Basic

namespace ConsoleSweep.Json

/-- Induction over a value, its items and the values of its fields. -/
@[elab_as_elim]
theorem partsInduction {motive : Json → Prop} (null : motive .null) (bool : ∀ b, motive (.bool b))
    (int : ∀ n, motive (.int n)) (real : ∀ x, motive (.real x)) (str : ∀ s, motive (.str s))
    (arr : ∀ vs, (∀ v ∈ vs, motive v) → motive (.arr vs))
    (obj : ∀ fs, (∀ f ∈ fs, motive f.2) → motive (.obj fs)) (v : Json) : motive v := by
  match v with
  | .null => exact null
  | .bool b => exact bool b
  | .int n => exact int n
  | .real x => exact real x
  | .str s => exact str s
  | .arr vs => exact arr vs fun v _ => partsInduction null bool int real str arr obj v
  | .obj fs => exact obj fs fun f _ => partsInduction null bool int real str arr obj f.2
termination_by sizeOf v
decreasing_by
  · have hsize := List.sizeOf_lt_of_mem ‹v ∈ vs›
    simp only [Json.arr.sizeOf_spec]
    omega
  · obtain ⟨key, w⟩ := f
    have hsize := List.sizeOf_lt_of_mem ‹(key, w) ∈ fs›
    simp only [Prod.mk.sizeOf_spec] at hsize
    simp only [Json.obj.sizeOf_spec]
    omega

/-! ## Layouts -/

/-- The gaps between the parts of a text, by the depth of what they stand in: behind an opening
bracket, behind a comma, and before a closing bracket. -/
structure Layout where
  first : Nat → List Char
  next : Nat → List Char
  last : Nat → List Char
  blank : ∀ depth, ∀ gap ∈ [first depth, next depth, last depth], ∀ c ∈ gap, c = ' ' ∨ c = '\n'

mutual

/-- The text of a value with the gaps of a layout. -/
def laidOut (L : Layout) (depth : Nat) : Json → List Char
  | .arr (v :: vs) => '[' :: L.first depth ++ laidOut L (depth + 1) v ++ laidItems L depth vs
  | .obj ((k, v) :: fs) =>
    '\x7b' :: L.first depth ++ string k ++ ':' :: ' ' :: laidOut L (depth + 1) v ++
      laidFields L depth fs
  | v => scalar v

/-- The items after the first, and the end of the array. -/
def laidItems (L : Layout) (depth : Nat) : List Json → List Char
  | [] => L.last depth ++ [']']
  | v :: vs => ',' :: L.next depth ++ laidOut L (depth + 1) v ++ laidItems L depth vs

/-- The fields after the first, and the end of the object. -/
def laidFields (L : Layout) (depth : Nat) : List (String × Json) → List Char
  | [] => L.last depth ++ ['\x7d']
  | (k, v) :: fs =>
    ',' :: L.next depth ++ string k ++ ':' :: ' ' :: laidOut L (depth + 1) v ++
      laidFields L depth fs

end

/-- A line for each part, indented by its depth. -/
def Layout.lines : Layout where
  first depth := newline (depth + 1)
  next depth := newline (depth + 1)
  last depth := newline depth
  blank depth gap hgap c hc := by
    have hnewline : ∀ depth, c ∈ newline depth → c = ' ' ∨ c = '\n' := by
      intro depth hc
      rcases List.mem_cons.1 hc with rfl | hc
      · exact .inr rfl
      · exact .inl (List.eq_of_mem_replicate hc)
    simp only [List.mem_cons, List.not_mem_nil, or_false] at hgap
    rcases hgap with rfl | rfl | rfl <;> exact hnewline _ hc

mutual

theorem indentedAt_eq (depth : Nat) (v : Json) : indentedAt depth v = laidOut .lines depth v := by
  match v with
  | .arr (v :: vs) =>
    rw [indentedAt, laidOut, indentedAt_eq (depth + 1) v, moreItems_eq depth vs]
    rfl
  | .obj ((k, v) :: fs) =>
    rw [indentedAt, laidOut, indentedAt_eq (depth + 1) v, moreFields_eq depth fs]
    rfl
  | .arr [] | .obj [] | .null | .bool _ | .int _ | .real _ | .str _ => simp [indentedAt, laidOut]

theorem moreItems_eq (depth : Nat) (vs : List Json) :
    moreItems depth vs = laidItems .lines depth vs := by
  match vs with
  | [] => rfl
  | v :: vs =>
    rw [moreItems, laidItems, indentedAt_eq (depth + 1) v, moreItems_eq depth vs]
    rfl

theorem moreFields_eq (depth : Nat) (fs : List (String × Json)) :
    moreFields depth fs = laidFields .lines depth fs := by
  match fs with
  | [] => rfl
  | (k, v) :: fs =>
    rw [moreFields, laidFields, indentedAt_eq (depth + 1) v, moreFields_eq depth fs]
    rfl

end

/-- All on one line, with a blank behind a comma. -/
def Layout.oneLine : Layout where
  first _ := []
  next _ := [' ']
  last _ := []
  blank depth gap hgap c hc := by
    simp only [List.mem_cons, List.not_mem_nil, or_false] at hgap
    rcases hgap with rfl | rfl | rfl
    · exact absurd hc List.not_mem_nil
    · exact .inl (List.mem_singleton.1 hc)
    · exact absurd hc List.not_mem_nil

mutual

theorem line_eq (depth : Nat) (v : Json) : line v = laidOut .oneLine depth v := by
  match v with
  | .arr (v :: vs) =>
    rw [line, laidOut, line_eq (depth + 1) v, lineItems_eq depth vs]
    rfl
  | .obj ((k, v) :: fs) =>
    rw [line, laidOut, line_eq (depth + 1) v, lineFields_eq depth fs]
    rfl
  | .arr [] | .obj [] | .null | .bool _ | .int _ | .real _ | .str _ => simp [line, laidOut]

theorem lineItems_eq (depth : Nat) (vs : List Json) :
    lineItems vs = laidItems .oneLine depth vs := by
  match vs with
  | [] => rfl
  | v :: vs =>
    rw [lineItems, laidItems, line_eq (depth + 1) v, lineItems_eq depth vs]
    rfl

theorem lineFields_eq (depth : Nat) (fs : List (String × Json)) :
    lineFields fs = laidFields .oneLine depth fs := by
  match fs with
  | [] => rfl
  | (k, v) :: fs =>
    rw [lineFields, laidFields, line_eq (depth + 1) v, lineFields_eq depth fs]
    rfl

end

/-! ## What can be read back -/

mutual

/-- The value can be read back by a reader that goes down `depth` levels. -/
def Legible (depth : Nat) : Json → Prop
  | .int n => (Nat.toDigits 10 n.natAbs).length ≤ digitLimit
  | .real x => Returns x
  | .arr items => 0 < depth ∧ LegibleItems (depth - 1) items
  | .obj fields => 0 < depth ∧ (fields.map (·.1)).Nodup ∧ LegibleFields (depth - 1) fields
  | _ => True

/-- Each item can be read back. -/
def LegibleItems (depth : Nat) : List Json → Prop
  | [] => True
  | v :: vs => Legible depth v ∧ LegibleItems depth vs

/-- The value of each field can be read back. -/
def LegibleFields (depth : Nat) : List (String × Json) → Prop
  | [] => True
  | (_, v) :: fs => Legible depth v ∧ LegibleFields depth fs

end

mutual

/-- The floating-point numbers in a value. -/
def reals : Json → List Float
  | .real x => [x]
  | .arr items => itemsReals items
  | .obj fields => fieldsReals fields
  | _ => []

/-- The floating-point numbers in the items. -/
def itemsReals : List Json → List Float
  | [] => []
  | v :: vs => reals v ++ itemsReals vs

/-- The floating-point numbers in the values of the fields. -/
def fieldsReals : List (String × Json) → List Float
  | [] => []
  | (_, v) :: fs => reals v ++ fieldsReals fs

end

variable {L : Layout} {k depth fuel : Nat} {v : Json} {vs : List Json} {key : String}
  {fs : List (String × Json)} {c : Char} {text rest : List Char}

theorem legibleItems_iff : LegibleItems depth vs ↔ ∀ v ∈ vs, Legible depth v := by
  induction vs with
  | nil => simp [LegibleItems]
  | cons v vs ih => simp [LegibleItems, ih]

theorem legibleFields_iff : LegibleFields depth fs ↔ ∀ f ∈ fs, Legible depth f.2 := by
  induction fs with
  | nil => simp [LegibleFields]
  | cons f fs ih => simp [LegibleFields, ih]

theorem areWritable_iff : areWritable vs = true ↔ ∀ v ∈ vs, isWritable v = true := by
  induction vs with
  | nil => simp [areWritable]
  | cons v vs ih => simp [areWritable, ih]

theorem haveWritable_iff : haveWritable fs = true ↔ ∀ f ∈ fs, isWritable f.2 = true := by
  induction fs with
  | nil => simp [haveWritable]
  | cons f fs ih => simp [haveWritable, ih]

theorem itemsDepth_le_iff : itemsDepth vs ≤ k ↔ ∀ v ∈ vs, v.depth ≤ k := by
  induction vs with
  | nil => simp [itemsDepth]
  | cons v vs ih => rw [itemsDepth, Nat.max_le, ih, List.forall_mem_cons]

theorem fieldsDepth_le_iff : fieldsDepth fs ≤ k ↔ ∀ f ∈ fs, f.2.depth ≤ k := by
  induction fs with
  | nil => simp [fieldsDepth]
  | cons f fs ih => rw [fieldsDepth, Nat.max_le, ih, List.forall_mem_cons]

theorem mem_itemsReals {x : Float} : x ∈ itemsReals vs ↔ ∃ v ∈ vs, x ∈ v.reals := by
  induction vs with
  | nil => simp [itemsReals]
  | cons v vs ih => simp [itemsReals, ih]

theorem mem_fieldsReals {x : Float} : x ∈ fieldsReals fs ↔ ∃ f ∈ fs, x ∈ f.2.reals := by
  induction fs with
  | nil => simp [fieldsReals]
  | cons f fs ih => simp [fieldsReals, ih]

/-- A value with distinct keys that can be written can be read back, as far as its floating-point
numbers can. -/
theorem legible_of_isWritable (hd : Distinct v) (hw : isWritable v = true) (hk : v.depth ≤ depth)
    (hr : ∀ x ∈ v.reals, Returns x) : Legible depth v := by
  induction v using partsInduction generalizing depth with
  | null | bool _ | str _ => exact trivial
  | int n => simpa [isWritable, Legible] using hw
  | real x => exact hr x (by simp [reals])
  | arr vs ih =>
    rw [Json.depth] at hk
    refine ⟨by omega, legibleItems_iff.2 fun v hv => ?_⟩
    exact ih v hv (distinctItems_iff.1 hd v hv) (areWritable_iff.1 hw v hv)
      (itemsDepth_le_iff.1 (by omega) v hv) fun x hx => hr x (mem_itemsReals.2 ⟨v, hv, hx⟩)
  | obj fs ih =>
    rw [Json.depth] at hk
    refine ⟨by omega, hd.1, legibleFields_iff.2 fun f hf => ?_⟩
    exact ih f hf (distinctFields_iff.1 hd.2 f hf) (haveWritable_iff.1 hw f hf)
      (fieldsDepth_le_iff.1 (by omega) f hf) fun x hx => hr x (mem_fieldsReals.2 ⟨f, hf, hx⟩)

/-! ## Gaps and what comes behind them -/

/-- The text does not start with a space. -/
def NoSpace (text : List Char) : Prop :=
  ∀ c ∈ text.head?, isSpace c = false

theorem skipSpace_of_noSpace (h : NoSpace text) : skipSpace text = text := by
  cases text with
  | nil => rfl
  | cons c text => exact List.dropWhile_cons_of_neg (by simp [h c rfl])

theorem skipSpace_append (gap : List Char) (hg : ∀ c ∈ gap, c = ' ' ∨ c = '\n')
    (h : NoSpace text) : skipSpace (gap ++ text) = text := by
  have hspace : ∀ c ∈ gap, isSpace c = true := by
    intro c hc
    rcases hg c hc with rfl | rfl <;> rfl
  unfold skipSpace
  rw [List.dropWhile_append_of_pos hspace]
  exact skipSpace_of_noSpace h

theorem Layout.skipSpace_first (h : NoSpace text) : skipSpace (L.first k ++ text) = text :=
  skipSpace_append _ (L.blank k _ (by simp)) h

theorem Layout.skipSpace_next (h : NoSpace text) : skipSpace (L.next k ++ text) = text :=
  skipSpace_append _ (L.blank k _ (by simp)) h

theorem Layout.skipSpace_last (h : NoSpace text) : skipSpace (L.last k ++ text) = text :=
  skipSpace_append _ (L.blank k _ (by simp)) h

/-- A gap before a closing bracket ends a number, as does the bracket. -/
theorem Layout.endsNumber_last (hc : goesOn c = false) : EndsNumber (L.last k ++ c :: rest) := by
  intro d hd
  cases hgap : L.last k with
  | nil =>
    rw [hgap] at hd
    obtain rfl : c = d := by simpa using hd
    exact hc
  | cons e gap =>
    rw [hgap] at hd
    obtain rfl : e = d := by simpa using hd
    rcases L.blank k _ (by simp) e (hgap ▸ List.mem_cons_self) with rfl | rfl <;> rfl

theorem endsNumber_laidItems : EndsNumber (laidItems L k vs ++ rest) := by
  cases vs with
  | nil =>
    rw [laidItems, List.append_assoc]
    exact Layout.endsNumber_last rfl
  | cons v vs => simp [laidItems, EndsNumber, goesOn, isDigit]

/-- The text of a value starts with a character that is no space and closes no array. -/
theorem exists_head_laidOut (h : Legible depth v) :
    ∃ c ∈ (laidOut L k v).head?, isSpace c = false ∧ c ≠ ']' := by
  match v with
  | .null | .bool true | .bool false | .str s | .arr [] | .arr (v :: vs) | .obj [] |
    .obj ((_, v) :: fs) => simp [laidOut, scalar, string, isSpace]
  | .real x =>
    have htext : laidOut L k (.real x) = scalar (.real x) := by simp [laidOut]
    obtain ⟨c, ds, hscalar, hc⟩ := head_scalar_real x
    rw [htext, hscalar]
    refine ⟨c, rfl, ?_⟩
    rcases hc with rfl | rfl | rfl | hc
    · decide
    · decide
    · decide
    · exact ⟨isSpace_of_isDigit hc, ne_bracket_of_isDigit hc⟩
  | .int n =>
    have htext : laidOut L k (.int n) = (Text.ofInt n).toList := by simp [laidOut, scalar]
    rw [htext, toList_ofInt]
    split
    · simp [isSpace]
    · cases hd : Nat.toDigits 10 n.natAbs with
      | nil => exact absurd hd Nat.toDigits_ne_nil
      | cons c ds =>
        have hc := isDigit_of_mem_toDigits (hd ▸ List.mem_cons_self : c ∈ Nat.toDigits 10 n.natAbs)
        exact ⟨c, rfl, isSpace_of_isDigit hc, ne_bracket_of_isDigit hc⟩

theorem exists_laidOut_eq (h : Legible depth v) :
    ∃ c text, laidOut L k v = c :: text ∧ isSpace c = false ∧ c ≠ ']' := by
  obtain ⟨c, hc, hs, hne⟩ := exists_head_laidOut (L := L) (k := k) h
  obtain ⟨text, htext⟩ := List.head?_eq_some_iff.1 hc
  exact ⟨c, text, htext, hs, hne⟩

theorem noSpace_laidOut (h : Legible depth v) : NoSpace (laidOut L k v ++ rest) := by
  obtain ⟨c, text, heq, hc, -⟩ := exists_laidOut_eq (L := L) (k := k) h
  rw [heq]
  intro d hd
  obtain rfl : c = d := by simpa using hd
  exact hc

theorem noSpace_string : NoSpace (string key ++ rest) := by
  intro c hc
  obtain rfl : '"' = c := by simpa [string] using hc
  rfl

/-! ## Reading -/

theorem readValue_string :
    readValue (fuel + 1) depth (string key ++ rest) = .ok (.str key, rest) := by
  have htext : string key ++ rest = '"' :: (key.toList.flatMap escapedChar ++ '"' :: rest) := by
    simp [string]
  rw [htext, readValue, readString_string]
  rfl

theorem readValue_ofInt {n : Int} (hs : (Nat.toDigits 10 n.natAbs).length ≤ digitLimit)
    (hr : EndsNumber rest) :
    readValue (fuel + 1) depth ((Text.ofInt n).toList ++ rest) = .ok (.int n, rest) := by
  have hnumber := readNumber_ofInt hs hr
  rw [toList_ofInt] at hnumber ⊢
  cases hd : Nat.toDigits 10 n.natAbs with
  | nil => exact absurd hd Nat.toDigits_ne_nil
  | cons c ds =>
    have hc := isDigit_of_mem_toDigits (hd ▸ List.mem_cons_self : c ∈ Nat.toDigits 10 n.natAbs)
    obtain ⟨hword, hword'⟩ := readWord?_of_isDigit hc (ds ++ rest)
    rw [hd] at hnumber
    split at hnumber
    · rw [if_pos ‹_›]
      simp only [List.cons_append] at hnumber ⊢
      rw [readValue_plain (by decide) (by decide) (by decide), hword']
      exact hnumber
    · rw [if_neg ‹_›]
      simp only [List.cons_append] at hnumber ⊢
      rw [readValue_plain, hword]
      · exact hnumber
      all_goals
        rintro rfl
        simp [isDigit] at hc

theorem readValue_openArray (hs : NoSpace text) (hc : text.head? ≠ some ']') :
    readValue (fuel + 1) (depth + 1) ('[' :: (L.first k ++ text)) =
      (readItems fuel depth text).map fun (vs, rest) => (.arr vs, rest) := by
  rw [readValue.eq_def]
  simp only [L.skipSpace_first hs]
  split
  · contradiction
  · simp at hc
  · simp_all

theorem readValue_openObject (hs : NoSpace text) (hc : text.head? ≠ some '\x7d') :
    readValue (fuel + 1) (depth + 1) ('\x7b' :: (L.first k ++ text)) =
      (readFields fuel depth text).map fun (fs, rest) => (.obj (overlay [] fs), rest) := by
  rw [readValue.eq_def]
  simp only [L.skipSpace_first hs]
  split
  · contradiction
  · simp at hc
  · simp_all

/-- The text is read as the value, whatever follows that does not go on with a number. -/
def ReadAs (depth : Nat) (text : List Char) (v : Json) : Prop :=
  ∀ fuel rest, 2 * text.length ≤ fuel → EndsNumber rest →
    readValue fuel depth (text ++ rest) = .ok (v, rest)

/-- The value is read back from each of its texts with the given layout. -/
def Reads (L : Layout) (depth : Nat) (v : Json) : Prop :=
  ∀ k, ReadAs depth (laidOut L k v) v

theorem readItems_item {more : List Char} (hv : Reads L depth v) (hm : EndsNumber more)
    (hf : 2 * (laidOut L k v).length ≤ fuel) :
    readItems (fuel + 1) depth (laidOut L k v ++ more) =
      match skipSpace more with
      | ']' :: rest => .ok ([v], rest)
      | ',' :: rest =>
        (readItems fuel depth (skipSpace rest)).map fun (vs, rest) => (v :: vs, rest)
      | rest => stuck .comma rest := by
  rw [readItems, hv k fuel more hf hm]
  rfl

theorem readItems_laidItems (h : ∀ w ∈ v :: vs, Legible depth w ∧ Reads L depth w)
    (hf : 2 * (laidOut L (k + 1) v ++ laidItems L k vs).length < fuel) :
    readItems fuel depth (laidOut L (k + 1) v ++ (laidItems L k vs ++ rest)) =
      .ok (v :: vs, rest) := by
  induction vs generalizing v fuel with
  | nil =>
    obtain ⟨fuel, rfl⟩ : ∃ n, fuel = n + 1 := ⟨fuel - 1, by omega⟩
    have hskip : skipSpace (laidItems L k [] ++ rest) = ']' :: rest := by
      rw [laidItems, List.append_assoc]
      exact L.skipSpace_last (by simp [NoSpace, isSpace])
    rw [readItems_item (h v (by simp)).2 endsNumber_laidItems (by simp at hf; omega), hskip]
    rfl
  | cons w vs ih =>
    obtain ⟨fuel, rfl⟩ : ∃ n, fuel = n + 1 := ⟨fuel - 1, by omega⟩
    obtain ⟨hv, hvs⟩ := List.forall_mem_cons.1 h
    have hskip : skipSpace (laidItems L k (w :: vs) ++ rest) =
        ',' :: (L.next k ++ (laidOut L (k + 1) w ++ (laidItems L k vs ++ rest))) := by
      simp only [laidItems, List.cons_append, List.append_assoc]
      exact skipSpace_of_noSpace (by simp [NoSpace, isSpace])
    rw [readItems_item hv.2 endsNumber_laidItems (by simp at hf; omega), hskip]
    simp only [L.skipSpace_next (noSpace_laidOut (hvs w (by simp)).1)]
    rw [ih hvs (by simp [laidItems] at hf ⊢; omega)]
    rfl

/-! ### Fields by their texts -/

/-- A field with a text for its value. -/
structure Field where
  key : String
  text : List Char
  value : Json

/-- A field with the text of its value in a layout. -/
def Field.laid (L : Layout) (k : Nat) (f : String × Json) : Field :=
  ⟨f.1, laidOut L k f.2, f.2⟩

/-- The text of a field. -/
def Field.whole (f : Field) : List Char :=
  string f.key ++ ':' :: ' ' :: f.text

/-- The text of the value starts with no space and is read as the value. -/
structure Field.IsRead (depth : Nat) (f : Field) : Prop where
  starts : ∀ rest, NoSpace (f.text ++ rest)
  read : ReadAs depth f.text f.value

/-- The fields after the first by their texts, and the end of the object. -/
def moreTexts (L : Layout) (k : Nat) : List Field → List Char
  | [] => L.last k ++ ['\x7d']
  | f :: fs => ',' :: L.next k ++ f.whole ++ moreTexts L k fs

/-- The keys and values of fields. -/
def valuesOf (fs : List Field) : List (String × Json) :=
  fs.map fun f => (f.key, f.value)

theorem laidFields_eq_moreTexts :
    laidFields L k fs = moreTexts L k (fs.map (Field.laid L (k + 1))) := by
  induction fs with
  | nil => rfl
  | cons f fs ih => simp [laidFields, moreTexts, Field.whole, Field.laid, ih]

theorem laidOut_object (f : String × Json) (fs : List (String × Json)) :
    laidOut L k (.obj (f :: fs)) = '\x7b' :: L.first k ++ (Field.laid L (k + 1) f).whole ++
      moreTexts L k (fs.map (Field.laid L (k + 1))) := by
  rw [laidOut, laidFields_eq_moreTexts]
  simp [Field.whole, Field.laid]

theorem valuesOf_laid (L : Layout) (k : Nat) (fs : List (String × Json)) :
    valuesOf (fs.map (Field.laid L k)) = fs := by
  rw [valuesOf, List.map_map]
  exact List.map_id fs

theorem endsNumber_moreTexts {fields : List Field} : EndsNumber (moreTexts L k fields ++ rest) := by
  cases fields with
  | nil =>
    rw [moreTexts, List.append_assoc]
    exact Layout.endsNumber_last rfl
  | cons f fields => simp [moreTexts, EndsNumber, goesOn, isDigit]

theorem readFields_field {f : Field} {more : List Char} (h : f.IsRead depth)
    (hm : EndsNumber more) (hf : 2 * f.text.length ≤ fuel) :
    readFields (fuel + 1) depth (f.whole ++ more) =
      match skipSpace more with
      | '\x7d' :: rest => .ok ([(f.key, f.value)], rest)
      | ',' :: rest =>
        (readFields fuel depth (skipSpace rest)).map fun (fs, rest) =>
          ((f.key, f.value) :: fs, rest)
      | rest => stuck .comma rest := by
  have hcolon : skipSpace (':' :: ' ' :: (f.text ++ more)) = ':' :: ' ' :: (f.text ++ more) :=
    skipSpace_of_noSpace (by simp [NoSpace, isSpace])
  have hspace : skipSpace (' ' :: (f.text ++ more)) = f.text ++ more :=
    skipSpace_append [' '] (by simp) (h.starts more)
  simp only [Field.whole, string, List.cons_append, List.append_assoc, List.nil_append]
  rw [readFields, readString_string]
  simp only [bind, Except.bind, hcolon, hspace]
  rewrite [h.read fuel more hf hm]
  rfl

theorem noSpace_whole {f : Field} : NoSpace (f.whole ++ rest) := by
  rw [Field.whole, List.append_assoc]
  exact noSpace_string

theorem length_text_le (f : Field) : f.text.length ≤ f.whole.length := by
  rw [Field.whole, List.length_append, List.length_cons, List.length_cons]
  omega

theorem readFields_texts {f : Field} {fields : List Field}
    (h : ∀ g ∈ f :: fields, g.IsRead depth)
    (hf : 2 * (f.whole ++ moreTexts L k fields).length < fuel) :
    readFields fuel depth (f.whole ++ (moreTexts L k fields ++ rest)) =
      .ok (valuesOf (f :: fields), rest) := by
  induction fields generalizing f fuel with
  | nil =>
    obtain ⟨fuel, rfl⟩ : ∃ n, fuel = n + 1 := ⟨fuel - 1, by omega⟩
    have hskip : skipSpace (moreTexts L k [] ++ rest) = '\x7d' :: rest := by
      rw [moreTexts, List.append_assoc]
      exact L.skipSpace_last (by simp [NoSpace, isSpace])
    have hle := length_text_le f
    rw [readFields_field (h f (by simp)) endsNumber_moreTexts (by simp at hf; omega), hskip]
    rfl
  | cons g fields ih =>
    obtain ⟨fuel, rfl⟩ : ∃ n, fuel = n + 1 := ⟨fuel - 1, by omega⟩
    obtain ⟨hfirst, hmore⟩ := List.forall_mem_cons.1 h
    have hskip : skipSpace (moreTexts L k (g :: fields) ++ rest) =
        ',' :: (L.next k ++ (g.whole ++ (moreTexts L k fields ++ rest))) := by
      simp only [moreTexts, List.cons_append, List.append_assoc]
      exact skipSpace_of_noSpace (by simp [NoSpace, isSpace])
    have hle := length_text_le f
    rw [readFields_field hfirst endsNumber_moreTexts (by simp at hf; omega), hskip]
    simp only [L.skipSpace_next noSpace_whole]
    rw [ih hmore (by simp [moreTexts] at hf ⊢; omega)]
    rfl

/-- An object is read from its fields, each by its text. -/
theorem readAs_object {f : Field} {fields : List Field} (hk : KeyedOnce (valuesOf (f :: fields)))
    (h : ∀ g ∈ f :: fields, g.IsRead depth) :
    ReadAs (depth + 1) ('\x7b' :: L.first k ++ f.whole ++ moreTexts L k fields)
      (.obj (valuesOf (f :: fields))) := by
  intro fuel rest hf hr
  simp only [List.cons_append, List.append_assoc, List.length_cons, List.length_append] at hf ⊢
  obtain ⟨fuel, rfl⟩ : ∃ n, fuel = n + 1 := ⟨fuel - 1, by omega⟩
  have hset : overlay [] (valuesOf (f :: fields)) = valuesOf (f :: fields) :=
    overlay_eq_append hk (by simp)
  rw [readValue_openObject noSpace_whole (by simp [Field.whole, string]),
    readFields_texts h (by rw [List.length_append]; omega)]
  simp only [Except.map, hset]

/-! ### Values -/

theorem reads_arr (h : ∀ w ∈ vs, Legible depth w ∧ Reads L depth w) :
    Reads L (depth + 1) (.arr vs) := by
  intro k fuel rest hf hr
  cases vs with
  | nil =>
    obtain ⟨fuel, rfl⟩ : ∃ n, fuel = n + 1 := ⟨fuel - 1, by simp [laidOut, scalar] at hf; omega⟩
    simp [laidOut, scalar, readValue, skipSpace, isSpace]
  | cons v vs =>
    simp only [laidOut, List.cons_append, List.append_assoc, List.length_cons,
      List.length_append] at hf ⊢
    obtain ⟨fuel, rfl⟩ : ∃ n, fuel = n + 1 := ⟨fuel - 1, by omega⟩
    obtain ⟨c, text, heq, -, hne⟩ := exists_laidOut_eq (L := L) (k := k + 1) (h v (by simp)).1
    rw [readValue_openArray (noSpace_laidOut (h v (by simp)).1) (by simpa [heq] using hne),
      readItems_laidItems h (by rw [List.length_append]; omega)]
    rfl

theorem reads_obj (hk : KeyedOnce fs)
    (h : ∀ f ∈ fs, Legible depth f.2 ∧ Reads L depth f.2) : Reads L (depth + 1) (.obj fs) := by
  intro k fuel rest hf hr
  cases fs with
  | nil =>
    obtain ⟨fuel, rfl⟩ : ∃ n, fuel = n + 1 := ⟨fuel - 1, by simp [laidOut, scalar] at hf; omega⟩
    simp [laidOut, scalar, readValue, skipSpace, isSpace]
  | cons f fs =>
    have hvalues : valuesOf (Field.laid L (k + 1) f :: fs.map (Field.laid L (k + 1))) = f :: fs :=
      valuesOf_laid L (k + 1) (f :: fs)
    have hread : ∀ g ∈ (f :: fs).map (Field.laid L (k + 1)), g.IsRead depth := by
      intro g hg
      obtain ⟨e, he, rfl⟩ := List.mem_map.1 hg
      exact ⟨fun rest => noSpace_laidOut (h e he).1, (h e he).2 (k + 1)⟩
    have hobject := readAs_object (L := L) (k := k) (by rwa [hvalues]) hread
    rw [hvalues, ← laidOut_object] at hobject
    exact hobject fuel rest hf hr

/-- No text of a value is empty, so its reading has at least one step. -/
theorem reads_of_forall_succ (h : Legible depth v)
    (hread : ∀ k fuel rest, EndsNumber rest →
      readValue (fuel + 1) depth (laidOut L k v ++ rest) = .ok (v, rest)) : Reads L depth v := by
  intro k fuel rest hf hr
  obtain ⟨c, text, heq, -, -⟩ := exists_laidOut_eq (L := L) (k := k) h
  obtain ⟨fuel, rfl⟩ : ∃ n, fuel = n + 1 := ⟨fuel - 1, by rw [heq, List.length_cons] at hf; omega⟩
  exact hread k fuel rest hr

/-- What can be read back is read back, from a text of any layout. -/
theorem reads_of_legible (h : Legible depth v) : Reads L depth v := by
  induction v using partsInduction generalizing depth with
  | null =>
    refine reads_of_forall_succ h fun k fuel rest hr => ?_
    simp [laidOut, scalar, readValue, readWord?, wordValues, List.isPrefixOf?]
  | bool b =>
    refine reads_of_forall_succ h fun k fuel rest hr => ?_
    cases b <;>
      simp [laidOut, scalar, readValue, readWord?, wordValues, List.findSome?, List.isPrefixOf?]
  | real x =>
    refine reads_of_forall_succ h fun k fuel rest hr => ?_
    have htext : laidOut L k (.real x) = scalar (.real x) := by simp [laidOut]
    rw [htext]
    exact readValue_real h hr
  | int n =>
    refine reads_of_forall_succ h fun k fuel rest hr => ?_
    rw [laidOut, scalar]
    · exact readValue_ofInt h hr
    all_goals simp
  | str s =>
    refine reads_of_forall_succ h fun k fuel rest hr => ?_
    rw [laidOut, scalar]
    · exact readValue_string
    all_goals simp
  | arr vs ih =>
    obtain ⟨hd, hvs⟩ := h
    obtain ⟨depth, rfl⟩ : ∃ n, depth = n + 1 := ⟨depth - 1, by omega⟩
    have hvs := legibleItems_iff.1 hvs
    exact reads_arr fun v hv => ⟨hvs v hv, ih v hv (hvs v hv)⟩
  | obj fs ih =>
    obtain ⟨hd, hk, hfs⟩ := h
    obtain ⟨depth, rfl⟩ : ∃ n, depth = n + 1 := ⟨depth - 1, by omega⟩
    have hfs := legibleFields_iff.1 hfs
    exact reads_obj hk fun f hf => ⟨hfs f hf, ih f hf (hfs f hf)⟩

/-! ## Whole texts -/

/-- Printable ASCII characters only. -/
def Glyphs (text : List Char) : Prop :=
  ∀ c ∈ text, ' ' ≤ c ∧ c ≤ '~'

instance (text : List Char) : Decidable (Glyphs text) :=
  List.decidableBAll _ text

@[simp] theorem glyphs_nil : Glyphs [] := by
  simp [Glyphs]

@[simp] theorem glyphs_cons : Glyphs (c :: text) ↔ (' ' ≤ c ∧ c ≤ '~') ∧ Glyphs text :=
  List.forall_mem_cons

@[simp] theorem glyphs_append : Glyphs (text ++ rest) ↔ Glyphs text ∧ Glyphs rest :=
  List.forall_mem_append

theorem glyphs_of_isDigit (h : ∀ c ∈ text, isDigit c = true) : Glyphs text := by
  intro c hc
  have hd := h c hc
  simp only [isDigit, Bool.and_eq_true, decide_eq_true_eq] at hd
  exact ⟨Char.le_trans (by decide) hd.1, Char.le_trans hd.2 (by decide)⟩

theorem glyphs_scalar_real (x : Float) : Glyphs (scalar (.real x)) := by
  rcases scalar_real_cases x with ⟨word, hword, htext⟩ | ⟨hall, -⟩
  · simp only [List.mem_cons, List.not_mem_nil, or_false] at hword
    rw [htext]
    rcases hword with rfl | rfl | rfl <;> decide
  · intro c hc
    have hc := hall c hc
    simp only [inNumber, Bool.or_eq_true, beq_iff_eq] at hc
    rcases hc with (((hc | rfl) | rfl) | rfl) | rfl
    · exact glyphs_of_isDigit (fun d hd => (List.mem_singleton.1 hd) ▸ hc) c
        (List.mem_singleton.2 rfl)
    all_goals decide

theorem glyphs_unitEscape (n : Nat) : Glyphs (unitEscape n) := by
  have hdigit : ∀ d < 16, ' ' ≤ Nat.digitChar d ∧ Nat.digitChar d ≤ '~' := by decide
  have hmod : ∀ n, n % 16 < 16 := fun n => Nat.mod_lt n (by decide)
  simp [unitEscape, Text.hex, hdigit, hmod]

theorem glyphs_escapedChar (c : Char) : Glyphs (escapedChar c) := by
  unfold escapedChar
  split
  · next h =>
    have h : c = '"' ∨ c = '\\' := by simpa using h
    rcases h with rfl | rfl <;> decide
  iterate 5
    split
    · decide
  split
  · next h => exact glyphs_cons.2 ⟨by simpa using h, glyphs_nil⟩
  split
  · exact glyphs_unitEscape _
  · exact glyphs_append.2 ⟨glyphs_unitEscape _, glyphs_unitEscape _⟩

theorem glyphs_string : Glyphs (string key) := by
  have hbody : Glyphs (key.toList.flatMap escapedChar) := by
    intro c hc
    obtain ⟨d, -, hd⟩ := List.mem_flatMap.1 hc
    exact glyphs_escapedChar d c hd
  simp [string, hbody]

/-- A value without parts is written in one layout as in another. -/
theorem glyphs_scalar (v : Json) : Glyphs (scalar v) := by
  match v with
  | .null | .bool true | .bool false => decide
  | .arr _ | .obj _ => simp [scalar]
  | .real x => exact glyphs_scalar_real x
  | .str s => exact glyphs_string
  | .int n =>
    have hdigits : Glyphs (Nat.toDigits 10 n.natAbs) :=
      glyphs_of_isDigit fun c => isDigit_of_mem_toDigits
    rw [scalar, toList_ofInt]
    split <;> simp [hdigits]

/-- Among some characters are all printable ones, and those of the gaps of the layout. -/
structure Layout.Within (L : Layout) (P : Char → Prop) : Prop where
  glyph : ∀ c, ' ' ≤ c → c ≤ '~' → P c
  first : ∀ k, ∀ c ∈ L.first k, P c
  next : ∀ k, ∀ c ∈ L.next k, P c
  last : ∀ k, ∀ c ∈ L.last k, P c

section within

variable {P : Char → Prop} (hL : L.Within P)

include hL

theorem Layout.Within.of_glyphs (h : Glyphs text) : ∀ c ∈ text, P c :=
  fun c hc => hL.glyph c (h c hc).1 (h c hc).2

theorem forall_mem_laidItems (h : ∀ v ∈ vs, ∀ c ∈ laidOut L (k + 1) v, P c) :
    ∀ c ∈ laidItems L k vs, P c := by
  induction vs with
  | nil =>
    rw [laidItems, List.forall_mem_append]
    exact ⟨hL.last k, hL.of_glyphs (by decide)⟩
  | cons v vs ih =>
    obtain ⟨hv, hvs⟩ := List.forall_mem_cons.1 h
    simp only [laidItems, List.cons_append, List.forall_mem_cons, List.forall_mem_append]
    exact ⟨hL.glyph ',' (by decide) (by decide), ⟨hL.next k, hv⟩, ih hvs⟩

/-- The character of all texts of fields are among them if those of their values are. -/
theorem forall_mem_moreTexts {fields : List Field} (h : ∀ f ∈ fields, ∀ c ∈ f.text, P c) :
    ∀ c ∈ moreTexts L k fields, P c := by
  induction fields with
  | nil =>
    rw [moreTexts, List.forall_mem_append]
    exact ⟨hL.last k, hL.of_glyphs (by decide)⟩
  | cons f fields ih =>
    obtain ⟨hf, hfields⟩ := List.forall_mem_cons.1 h
    simp only [moreTexts, Field.whole, List.cons_append, List.forall_mem_cons,
      List.forall_mem_append]
    exact ⟨hL.glyph ',' (by decide) (by decide),
      ⟨hL.next k, hL.of_glyphs glyphs_string, hL.glyph ':' (by decide) (by decide),
        hL.glyph ' ' (by decide) (by decide), hf⟩, ih hfields⟩

theorem forall_mem_object {f : Field} {fields : List Field}
    (h : ∀ g ∈ f :: fields, ∀ c ∈ g.text, P c) :
    ∀ c ∈ '\x7b' :: L.first k ++ f.whole ++ moreTexts L k fields, P c := by
  obtain ⟨hf, hfields⟩ := List.forall_mem_cons.1 h
  simp only [Field.whole, List.cons_append, List.forall_mem_cons, List.forall_mem_append]
  exact ⟨hL.glyph '\x7b' (by decide) (by decide),
    ⟨hL.first k, hL.of_glyphs glyphs_string, hL.glyph ':' (by decide) (by decide),
      hL.glyph ' ' (by decide) (by decide), hf⟩, forall_mem_moreTexts hL hfields⟩

theorem forall_mem_laidOut (v : Json) (k : Nat) : ∀ c ∈ laidOut L k v, P c := by
  induction v using partsInduction generalizing k with
  | null | bool _ | int _ | real _ | str _ =>
    simp only [laidOut]
    exact hL.of_glyphs (glyphs_scalar _)
  | arr vs ih =>
    cases vs with
    | nil =>
      simp only [laidOut]
      exact hL.of_glyphs (glyphs_scalar _)
    | cons v vs =>
      obtain ⟨hv, hvs⟩ := List.forall_mem_cons.1 fun w hw => ih w hw (k + 1)
      simp only [laidOut, List.cons_append, List.forall_mem_cons, List.forall_mem_append]
      exact ⟨hL.glyph '[' (by decide) (by decide), ⟨hL.first k, hv⟩, forall_mem_laidItems hL hvs⟩
  | obj fs ih =>
    cases fs with
    | nil =>
      simp only [laidOut]
      exact hL.of_glyphs (glyphs_scalar _)
    | cons f fs =>
      rw [laidOut_object]
      refine forall_mem_object hL fun g hg => ?_
      obtain ⟨e, he, rfl⟩ := List.mem_map.1 (List.map_cons ▸ hg :
        g ∈ (f :: fs).map (Field.laid L (k + 1)))
      exact ih e he (k + 1)

end within

/-- Line breaks and printable ASCII characters only. -/
def Printed (text : List Char) : Prop :=
  ∀ c ∈ text, c = '\n' ∨ ' ' ≤ c ∧ c ≤ '~'

theorem printed_cons :
    Printed (c :: text) ↔ (c = '\n' ∨ ' ' ≤ c ∧ c ≤ '~') ∧ Printed text :=
  List.forall_mem_cons

theorem printed_indented : Printed v.indented := by
  have htext : v.indented = laidOut .lines 0 v := indentedAt_eq 0 v
  have hgap : ∀ k, ∀ gap ∈ [Layout.lines.first k, Layout.lines.next k, Layout.lines.last k],
      ∀ c ∈ gap, c = '\n' ∨ ' ' ≤ c ∧ c ≤ '~' := by
    intro k gap hgap c hc
    rcases Layout.lines.blank k gap hgap c hc with rfl | rfl <;> decide
  rw [htext]
  exact forall_mem_laidOut ⟨fun c h h' => .inr ⟨h, h'⟩, fun k => hgap k _ (by simp),
    fun k => hgap k _ (by simp), fun k => hgap k _ (by simp)⟩ v 0

theorem Layout.oneLine_within : Layout.oneLine.Within fun c => ' ' ≤ c ∧ c ≤ '~' where
  glyph _ h h' := ⟨h, h'⟩
  first _ := List.forall_mem_nil _
  next _ := by simp [Layout.oneLine]
  last _ := List.forall_mem_nil _

theorem unifyBreaks_of_printed (h : Printed text) : Text.unifyBreaks text = text := by
  induction text with
  | nil => rfl
  | cons c text ih =>
    obtain ⟨hc, htext⟩ := printed_cons.1 h
    have hne : c ≠ '\r' := by
      rintro rfl
      exact absurd hc (by decide)
    rw [Text.unifyBreaks, if_neg hne, ih htext]
    rintro cs rfl
    exact absurd rfl hne

/-- A text that starts with neither a blank nor a byte order mark is parsed as it is read. -/
theorem parse_of_readAs (hmark : text.head? ≠ some '\uFEFF') (hs : NoSpace text)
    (h : ReadAs depthLimit text v) : parse text = .ok v := by
  have hvalue : readValue (2 * text.length + 2) depthLimit text = .ok (v, []) := by
    simpa only [List.append_nil] using
      h (2 * text.length + 2) [] (by omega) (by simp [EndsNumber])
  unfold parse readDocument
  rw [if_neg hmark, skipSpace_of_noSpace hs, hvalue]
  rfl

/-- Every value that can be read back is parsed from its text over several lines. -/
theorem parse_indented (h : Legible depthLimit v) : parse v.indented = .ok v := by
  have hmark : v.indented.head? ≠ some '\uFEFF' := by
    intro hhead
    exact absurd (printed_indented _ (List.mem_of_head? hhead)) (by decide)
  have htext : v.indented = laidOut .lines 0 v := indentedAt_eq 0 v
  rw [htext] at hmark ⊢
  exact parse_of_readAs hmark (List.append_nil (laidOut .lines 0 v) ▸ noSpace_laidOut h)
    (reads_of_legible h 0)

theorem getLast?_laidFields (L : Layout) (k : Nat) (fs : List (String × Json)) :
    (laidFields L k fs).getLast? = some '\x7d' := by
  induction fs with
  | nil => simp [laidFields]
  | cons f fs ih =>
    rw [laidFields, List.getLast?_append, ih]
    rfl

/-- The text of an object has no blanks around it that could be trimmed. -/
theorem trim_indented (fs : List (String × Json)) :
    Text.trim (Text.unifyBreaks (Json.obj fs).indented) = (Json.obj fs).indented := by
  rw [unifyBreaks_of_printed printed_indented]
  cases fs with
  | nil => rfl
  | cons f fs =>
    have htext : (Json.obj (f :: fs)).indented = laidOut .lines 0 (.obj (f :: fs)) :=
      indentedAt_eq 0 _
    have hhead : (Json.obj (f :: fs)).indented.head? = some '\x7b' := by
      rw [htext]
      simp [laidOut]
    have hlast : (Json.obj (f :: fs)).indented.getLast? = some '\x7d' := by
      rw [htext, laidOut, List.getLast?_append, getLast?_laidFields]
      rfl
    refine Text.trim_of_ends (fun c hc => ?_) (fun c hc => ?_)
    · rw [hhead] at hc
      obtain rfl := Option.some.inj hc
      decide
    · rw [hlast] at hc
      obtain rfl := Option.some.inj hc
      decide

end ConsoleSweep.Json
