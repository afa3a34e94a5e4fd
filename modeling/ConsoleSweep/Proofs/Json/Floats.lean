/-
  Floating-point numbers in front of what follows them.

  Whether a floating-point number comes back from its digits is a matter of rounding, which is
  taken as given here: `Returns x` says that the text of `x` is parsed as `x`. What is shown
  is that nothing more is needed inside a longer text: the text of a number is read the same
  in front of anything that does not go on with a number (`readValue_real`).
-/
import ConsoleSweep.Proofs.Json.Fields
import ConsoleSweep.Proofs.Json.Scalars

namespace ConsoleSweep.Json

variable {c : Char} {text rest tail ds : List Char} {negative : Bool} {v : Json} {x : Float}
  {fuel depth : Nat}

/-- The number is parsed from its own text. -/
def Returns (x : Float) : Prop :=
  parse (scalar (.real x)) = .ok (.real x)

/-! ## Reading in front of a rest -/

theorem isDigit_of_goesOn (h : goesOn c = false) : isDigit c = false := by
  simp only [goesOn, Bool.or_eq_false_iff] at h
  exact h.1.1.1

theorem EndsNumber.not_digit (hr : EndsNumber rest) : ∀ c ∈ rest.head?, isDigit c = false :=
  fun c hc => isDigit_of_goesOn (hr c hc)

theorem takeWhile_append (h : ∀ c ∈ rest.head?, isDigit c = false) (text : List Char) :
    (text ++ rest).takeWhile isDigit = text.takeWhile isDigit := by
  induction text with
  | nil =>
    cases rest with
    | nil => rfl
    | cons c rest => exact List.takeWhile_cons_of_neg (by simp [h c rfl])
  | cons c text ih =>
    rw [List.cons_append, List.takeWhile_cons, List.takeWhile_cons, ih]

theorem length_takeWhile_le (text : List Char) :
    (text.takeWhile isDigit).length ≤ text.length :=
  (List.takeWhile_prefix isDigit).length_le

/-- The digits of an exponent, and what follows them. -/
def exponentDigits (negative : Bool) (text : List Char) : Option (Int × List Char) :=
  match text.takeWhile isDigit with
  | [] => none
  | ds => some (if negative then -(digitsValue ds) else digitsValue ds, text.drop ds.length)

theorem exponent?_eq (text : List Char) : exponent? text = match text with
    | e :: '-' :: rest => if e = 'e' || e = 'E' then exponentDigits true rest else none
    | e :: '+' :: rest => if e = 'e' || e = 'E' then exponentDigits false rest else none
    | e :: rest => if e = 'e' || e = 'E' then exponentDigits false rest else none
    | [] => none := rfl

theorem exponentDigits_append {e : Int} (hr : EndsNumber rest)
    (h : exponentDigits negative text = some (e, [])) :
    exponentDigits negative (text ++ rest) = some (e, rest) := by
  unfold exponentDigits at h ⊢
  rw [takeWhile_append hr.not_digit]
  have hle := length_takeWhile_le text
  cases hds : text.takeWhile isDigit with
  | nil =>
    rw [hds] at h
    simp at h
  | cons d ds =>
    rw [hds] at h hle
    obtain ⟨he, hdrop⟩ := Prod.mk.inj (Option.some.inj h)
    have hlen : (d :: ds).length = text.length :=
      Nat.le_antisymm hle (List.drop_eq_nil_iff.1 hdrop)
    dsimp only
    rw [he, hlen, List.drop_left]

theorem exponent?_append {e : Int} (hr : EndsNumber rest) (h : exponent? text = some (e, [])) :
    exponent? (text ++ rest) = some (e, rest) := by
  rw [exponent?_eq] at h
  split at h
  · next m tail =>
    split at h
    · next hm =>
      rw [List.cons_append, List.cons_append, exponent?_eq]
      simp only [hm, if_true]
      exact exponentDigits_append hr h
    · simp at h
  · next m tail =>
    split at h
    · next hm =>
      rw [List.cons_append, List.cons_append, exponent?_eq]
      simp only [hm, if_true]
      exact exponentDigits_append hr h
    · simp at h
  · next m tail hminus hplus =>
    split at h
    · next hm =>
      -- There is a digit behind the mark, so no sign stands there.
      obtain ⟨d, tail, rfl⟩ : ∃ d more, tail = d :: more := by
        cases tail with
        | nil => simp [exponentDigits] at h
        | cons d more => exact ⟨d, more, rfl⟩
      have hd₁ : d ≠ '-' := fun hd => hminus tail (by rw [hd])
      have hd₂ : d ≠ '+' := fun hd => hplus tail (by rw [hd])
      have hread := exponentDigits_append hr h
      rw [List.cons_append, List.cons_append, exponent?_eq]
      split
      · next heq => exact absurd (List.cons.inj (List.cons.inj heq).2).1 hd₁
      · next heq => exact absurd (List.cons.inj (List.cons.inj heq).2).1 hd₂
      · next heq =>
        obtain ⟨rfl, rfl⟩ := List.cons.inj heq
        rw [if_pos hm]
        exact hread
      · next heq => simp at heq
    · simp at h
  · simp at h

theorem wholeDigits_of_ne (h : c ≠ '0') (text : List Char) :
    wholeDigits (c :: text) = (c :: text).takeWhile isDigit := by
  unfold wholeDigits
  split
  · next heq => exact absurd (List.cons.inj heq).1 h
  · rfl

theorem wholeDigits_append (hr : EndsNumber rest) (h : text ≠ []) :
    wholeDigits (text ++ rest) = wholeDigits text := by
  cases text with
  | nil => exact absurd rfl h
  | cons c text =>
    by_cases hc : c = '0'
    · subst hc
      rfl
    · rw [List.cons_append, wholeDigits_of_ne hc, wholeDigits_of_ne hc, ← List.cons_append,
        takeWhile_append hr.not_digit]

theorem length_wholeDigits_le (text : List Char) : (wholeDigits text).length ≤ text.length := by
  unfold wholeDigits
  split
  · simp
  · exact length_takeWhile_le text

theorem fractionDigits_append (hr : EndsNumber rest) (text : List Char) :
    fractionDigits (text ++ rest) = fractionDigits text := by
  cases text with
  | nil => exact fractionDigits_of_endsNumber hr
  | cons c text =>
    rw [List.cons_append]
    unfold fractionDigits
    split
    · next tail heq =>
      obtain ⟨rfl, rfl⟩ := List.cons.inj heq
      exact takeWhile_append hr.not_digit text
    · next hpoint =>
      split
      · next tail heq =>
        obtain ⟨rfl, rfl⟩ := List.cons.inj heq
        exact absurd rfl (hpoint _)
      · rfl

/-- Behind its fraction, if there is one, a number goes on with the same. -/
theorem length_fractionDigits_lt (h : (fractionDigits text).isEmpty = false) :
    (fractionDigits text).length + 1 ≤ text.length := by
  unfold fractionDigits at h ⊢
  split
  · next tail =>
    have hle := length_takeWhile_le tail
    simp only [List.length_cons]
    omega
  · simp at h

theorem readUnsigned_append {read : Except Problem Json} (hr : EndsNumber rest)
    (h : readUnsigned negative text = some (read, [])) :
    readUnsigned negative (text ++ rest) = some (read, rest) := by
  have hne : text ≠ [] := by
    rintro rfl
    simp [readUnsigned, wholeDigits] at h
  unfold readUnsigned at h ⊢
  rw [wholeDigits_append hr hne]
  split at h
  · simp at h
  · dsimp only at h ⊢
    rw [List.drop_append_of_le_length (length_wholeDigits_le text)]
    generalize text.drop (wholeDigits text).length = behind at h ⊢
    rw [fractionDigits_append hr]
    have hcut : (if (fractionDigits behind).isEmpty then behind ++ rest
        else (behind ++ rest).drop ((fractionDigits behind).length + 1)) =
        (if (fractionDigits behind).isEmpty then behind
          else behind.drop ((fractionDigits behind).length + 1)) ++ rest := by
      split
      · rfl
      · next hf =>
        exact List.drop_append_of_le_length (length_fractionDigits_lt (by simpa using hf))
    rw [hcut]
    generalize (if (fractionDigits behind).isEmpty then behind
      else behind.drop ((fractionDigits behind).length + 1)) = last at h ⊢
    cases hexp : exponent? last with
    | some r =>
      obtain ⟨e, tail⟩ := r
      rw [hexp] at h
      obtain ⟨hread, rfl⟩ := Prod.mk.inj (Option.some.inj h)
      rw [exponent?_append hr hexp]
      exact congrArg (fun y => some (y, rest)) hread
    | none =>
      rw [hexp] at h
      have hlast : last = [] := by
        dsimp only at h
        split at h
        · exact (Prod.mk.inj (Option.some.inj h)).2
        · exact (Prod.mk.inj (Option.some.inj h)).2
      subst hlast
      rw [List.nil_append, exponent?_of_endsNumber hr]
      dsimp only at h ⊢
      split at h
      · next hf =>
        rw [if_pos hf]
        exact congrArg (fun y => some (y, rest)) (Prod.mk.inj (Option.some.inj h)).1
      · next hf =>
        rw [if_neg hf]
        exact congrArg (fun y => some (y, rest)) (Prod.mk.inj (Option.some.inj h)).1

/-- A number with a sign or without. -/
def readSigned : List Char → Option (Except Problem Json × List Char)
  | '-' :: text => readUnsigned true text
  | text => readUnsigned false text

theorem readNumber_eq (text : List Char) : readNumber text = match readSigned text with
    | none => stuck .value text
    | some (.ok v, rest) => .ok (v, rest)
    | some (.error p, _) => stuck p text := by
  fun_cases readSigned text with
  | case1 text => rfl
  | case2 text hsign =>
    unfold readNumber
    split
    · next rest => exact absurd rfl (hsign rest)
    · rfl

theorem readNumber_eq_ok :
    readNumber text = .ok (v, rest) ↔ readSigned text = some (.ok v, rest) := by
  rw [readNumber_eq]
  cases h : readSigned text with
  | none => simp [stuck]
  | some r =>
    obtain ⟨read, tail⟩ := r
    cases read with
    | error p => simp [stuck]
    | ok w => simp

theorem readSigned_of_ne (h : c ≠ '-') (text : List Char) :
    readSigned (c :: text) = readUnsigned false (c :: text) := by
  unfold readSigned
  split
  · next heq => exact absurd (List.cons.inj heq).1 h
  · rfl

/-- A number that is read to the end of its text. -/
theorem readNumber_append (hr : EndsNumber rest) (h : readNumber text = .ok (v, [])) :
    readNumber (text ++ rest) = .ok (v, rest) := by
  rw [readNumber_eq_ok] at h ⊢
  cases text with
  | nil => simp [readSigned, readUnsigned, wholeDigits] at h
  | cons c text =>
    by_cases hc : c = '-'
    · subst hc
      exact readUnsigned_append hr h
    · rw [readSigned_of_ne hc] at h
      rw [List.cons_append, readSigned_of_ne hc, ← List.cons_append]
      exact readUnsigned_append hr h

/-- What is left of a number is part of its text. -/
theorem subset_of_readUnsigned {read : Except Problem Json}
    (h : readUnsigned negative text = some (read, rest)) :
    rest ⊆ text := by
  have hexp : ∀ {text rest : List Char} {e : Int},
      exponent? text = some (e, rest) → rest ⊆ text := by
    intro text rest e h
    have hdigits : ∀ {negative : Bool} {text : List Char},
        exponentDigits negative text = some (e, rest) → rest ⊆ text := by
      intro negative text h
      unfold exponentDigits at h
      split at h
      · simp at h
      · rw [← (Prod.mk.inj (Option.some.inj h)).2]
        exact List.drop_subset _ _
    rw [exponent?_eq] at h
    split at h
    · split at h
      · exact List.subset_cons_of_subset _ (List.subset_cons_of_subset _ (hdigits h))
      · simp at h
    · split at h
      · exact List.subset_cons_of_subset _ (List.subset_cons_of_subset _ (hdigits h))
      · simp at h
    · split at h
      · exact List.subset_cons_of_subset _ (hdigits h)
      · simp at h
    · simp at h
  unfold readUnsigned at h
  split at h
  · simp at h
  · dsimp only at h
    have hlast : ∀ n, (if (fractionDigits (text.drop n)).isEmpty then text.drop n
        else (text.drop n).drop ((fractionDigits (text.drop n)).length + 1)) ⊆ text := by
      intro n
      split
      · exact List.drop_subset _ _
      · exact fun c hc => List.drop_subset _ _ (List.drop_subset _ _ hc)
    split at h
    · next he =>
      rw [← (Prod.mk.inj (Option.some.inj h)).2]
      exact fun c hc => hlast _ (hexp he hc)
    · split at h
      · rw [← (Prod.mk.inj (Option.some.inj h)).2]
        exact List.drop_subset _ _
      · rw [← (Prod.mk.inj (Option.some.inj h)).2]
        exact fun c hc => List.drop_subset _ _ (List.drop_subset _ _ hc)

/-! ## The text of a number -/

/-- A character of a number. -/
def inNumber (c : Char) : Bool :=
  isDigit c || c == '.' || c == 'e' || c == '+' || c == '-'

theorem digits_of_toDigits (n : Nat) : ∃ c ds, Nat.toDigits 10 n = c :: ds ∧ isDigit c = true := by
  cases h : Nat.toDigits 10 n with
  | nil => exact absurd h Nat.toDigits_ne_nil
  | cons c ds =>
    exact ⟨c, ds, rfl, isDigit_of_mem_toDigits (h ▸ List.mem_cons_self : c ∈ Nat.toDigits 10 n)⟩

theorem head_layout (digits : Nat) (exponent : Int) :
    ∃ c ds, (Decimal.layout digits exponent).toList = c :: ds ∧ isDigit c = true := by
  obtain ⟨c, ds, hds, hc⟩ := digits_of_toDigits digits
  unfold Decimal.layout
  rw [hds]
  dsimp only
  split
  · split
    · exact ⟨'0', _, String.toList_ofList, by decide⟩
    · next hpoint =>
      split
      · exact ⟨c, _, String.toList_ofList, hc⟩
      · obtain ⟨k, hk⟩ : ∃ k, (exponent + ((c :: ds).length : Int)).toNat = k + 1 :=
          ⟨(exponent + ((c :: ds).length : Int)).toNat - 1, by omega⟩
        rw [hk, String.toList_ofList, List.take_succ_cons]
        exact ⟨c, _, rfl, hc⟩
  · simp only [String.toList_append, String.toList_ofList, List.take_succ_cons, List.take_zero,
      List.cons_append]
    exact ⟨c, _, rfl, hc⟩

theorem inNumber_of_isDigit (h : isDigit c = true) : inNumber c = true := by
  simp [inNumber, h]

theorem inNumber_toDigits (n : Nat) : ∀ c ∈ Nat.toDigits 10 n, inNumber c = true :=
  fun _ hc => inNumber_of_isDigit (isDigit_of_mem_toDigits hc)

theorem inNumber_layout (digits : Nat) (exponent : Int) :
    ∀ c ∈ (Decimal.layout digits exponent).toList, inNumber c = true := by
  have hds := inNumber_toDigits digits
  have htake : ∀ n, ∀ c ∈ (Nat.toDigits 10 digits).take n, inNumber c = true :=
    fun n c hc => hds c (List.mem_of_mem_take hc)
  have hdrop : ∀ n, ∀ c ∈ (Nat.toDigits 10 digits).drop n, inNumber c = true :=
    fun n c hc => hds c (List.mem_of_mem_drop hc)
  have hzeros : ∀ n, ∀ c ∈ List.replicate n '0', inNumber c = true := by
    intro n c hc
    rw [List.eq_of_mem_replicate hc]
    decide
  have hpoint : inNumber '.' = true := by decide
  intro c
  unfold Decimal.layout
  dsimp only
  split
  · split
    · rw [String.toList_ofList]
      simp only [List.cons_append, List.mem_cons, List.mem_append]
      rintro (rfl | rfl | hc | hc)
      · decide
      · exact hpoint
      · exact hzeros _ c hc
      · exact hds c hc
    · split
      · rw [String.toList_ofList]
        simp only [List.mem_append, List.mem_cons, List.not_mem_nil, or_false]
        rintro ((hc | hc) | rfl | rfl)
        · exact hds c hc
        · exact hzeros _ c hc
        · exact hpoint
        · decide
      · rw [String.toList_ofList]
        simp only [List.mem_append, List.mem_cons]
        rintro (hc | rfl | hc)
        · exact htake _ c hc
        · exact hpoint
        · exact hdrop _ c hc
  · simp only [String.toList_append, String.toList_ofList, List.mem_append, Text.padLeft,
      Text.ofNat]
    rintro ((((hc | hc) | hc) | hc) | hc | hc)
    · exact htake _ c hc
    · split at hc
      · simp at hc
      · rcases List.mem_cons.1 hc with rfl | hc
        · exact hpoint
        · exact hdrop _ c hc
    · obtain rfl : c = 'e' := by simpa using hc
      decide
    · split at hc
      · obtain rfl : c = '-' := by simpa using hc
        decide
      · obtain rfl : c = '+' := by simpa using hc
        decide
    · exact hzeros _ c hc
    · exact inNumber_toDigits _ c hc

/-- The text of a number is a word, or digits and signs behind a minus sign or not. -/
theorem scalar_real_cases (x : Float) :
    (∃ word ∈ ["NaN", "Infinity", "-Infinity"], scalar (.real x) = word.toList) ∨
      (∀ c ∈ scalar (.real x), inNumber c = true) ∧ ∃ c ds, isDigit c = true ∧
        (scalar (.real x) = c :: ds ∨ scalar (.real x) = '-' :: c :: ds) := by
  have htext : scalar (.real x) = (Decimal.textWith words x).toList := rfl
  rw [htext]
  unfold Decimal.textWith
  cases Decimal.Binary.ofFloat x with
  | nan => exact .inl ⟨"NaN", by decide, rfl⟩
  | infinite negative =>
    cases negative
    · exact .inl ⟨"Infinity", by decide, rfl⟩
    · exact .inl ⟨"-Infinity", by decide, rfl⟩
  | finite negative m e =>
    refine .inr ?_
    dsimp only
    generalize (if m = 0 then (0, 0) else Decimal.shortest m e : Nat × Int) = r
    obtain ⟨digits, exponent⟩ := r
    obtain ⟨c, ds, htext, hc⟩ := head_layout digits exponent
    have hall := inNumber_layout digits exponent
    rw [htext] at hall
    dsimp only
    rw [String.toList_append, htext]
    cases negative
    · exact ⟨hall, c, ds, hc, .inl rfl⟩
    · refine ⟨?_, c, ds, hc, .inr rfl⟩
      intro d hd
      rcases List.mem_cons.1 hd with rfl | hd
      · decide
      · exact hall d hd

theorem subset_of_readNumber (h : readNumber text = .ok (v, rest)) : rest ⊆ text := by
  have hsigned := readNumber_eq_ok.1 h
  unfold readSigned at hsigned
  split at hsigned
  · exact List.subset_cons_of_subset _ (subset_of_readUnsigned hsigned)
  · exact subset_of_readUnsigned hsigned

theorem isSpace_of_inNumber (h : inNumber c = true) : isSpace c = false := by
  rw [Bool.eq_false_iff]
  intro hspace
  simp only [isSpace, Bool.or_eq_true, beq_iff_eq] at hspace
  rcases hspace with ((rfl | rfl) | rfl) | rfl <;> exact absurd h (by decide)

theorem isSpace_of_isDigit (h : isDigit c = true) : isSpace c = false :=
  isSpace_of_inNumber (inNumber_of_isDigit h)

theorem ne_bracket_of_isDigit (h : isDigit c = true) : c ≠ ']' := by
  rintro rfl
  exact absurd h (by decide)

theorem readWord?_word {word : String} (h : word ∈ ["NaN", "Infinity", "-Infinity"]) :
    ∃ v, ∀ rest, readWord? (word.toList ++ rest) = some (v, rest) := by
  simp only [List.mem_cons, List.not_mem_nil, or_false] at h
  rcases h with rfl | rfl | rfl
  · exact ⟨.real (0.0 / 0.0), fun rest => rfl⟩
  · exact ⟨.real (1.0 / 0.0), fun rest => rfl⟩
  · exact ⟨.real (-1.0 / 0.0), fun rest => rfl⟩

/-- The text of a number starts like a word or a number. -/
theorem head_scalar_real (x : Float) :
    ∃ c ds, scalar (.real x) = c :: ds ∧ (c = 'N' ∨ c = 'I' ∨ c = '-' ∨ isDigit c = true) := by
  rcases scalar_real_cases x with ⟨word, hword, htext⟩ | ⟨-, c, ds, hc, htext | htext⟩
  · simp only [List.mem_cons, List.not_mem_nil, or_false] at hword
    rcases hword with rfl | rfl | rfl
    · exact ⟨'N', _, htext, .inl rfl⟩
    · exact ⟨'I', _, htext, .inr (.inl rfl)⟩
    · exact ⟨'-', _, htext, .inr (.inr (.inl rfl))⟩
  · exact ⟨c, ds, htext, .inr (.inr (.inr hc))⟩
  · exact ⟨'-', c :: ds, htext, .inr (.inr (.inl rfl))⟩

theorem readValue_scalar_real (x : Float) (fuel depth : Nat) (rest : List Char) :
    readValue (fuel + 1) depth (scalar (.real x) ++ rest) =
      match readWord? (scalar (.real x) ++ rest) with
      | some (v, rest) => .ok (v, rest)
      | none => readNumber (scalar (.real x) ++ rest) := by
  obtain ⟨c, ds, htext, hc⟩ := head_scalar_real x
  rw [htext, List.cons_append]
  rcases hc with rfl | rfl | rfl | hc
  · exact readValue_plain (by decide) (by decide) (by decide)
  · exact readValue_plain (by decide) (by decide) (by decide)
  · exact readValue_plain (by decide) (by decide) (by decide)
  · refine readValue_plain ?_ ?_ ?_ <;>
      (rintro rfl; exact absurd hc (by decide))

theorem skipSpace_scalar_real (x : Float) : skipSpace (scalar (.real x)) = scalar (.real x) := by
  obtain ⟨c, ds, htext, hc⟩ := head_scalar_real x
  rw [htext]
  refine List.dropWhile_cons_of_neg ?_
  rcases hc with rfl | rfl | rfl | hc
  · decide
  · decide
  · decide
  · rw [isSpace_of_isDigit hc]
    decide

theorem exists_readValue_of_returns (h : Returns x) :
    ∃ fuel rest, readValue (fuel + 1) depthLimit (scalar (.real x) ++ []) = .ok (.real x, rest) ∧
      skipSpace rest = [] := by
  have hd := readDocument_of_parse h
  unfold readDocument at hd
  split at hd
  · simp [stuck] at hd
  · obtain ⟨⟨v, rest⟩, hv, hd⟩ := exists_of_bind_eq_ok hd
    rw [skipSpace_scalar_real] at hv
    dsimp only at hd
    split at hd
    · next hrest =>
      obtain rfl := Except.ok.inj hd
      exact ⟨_, rest, by rw [List.append_nil]; exact hv, hrest⟩
    · simp [stuck] at hd

/-- A number that is parsed from its own text is read from it in front of anything that does not
go on with a number. -/
theorem readValue_real (h : Returns x) (hr : EndsNumber rest) :
    readValue (fuel + 1) depth (scalar (.real x) ++ rest) = .ok (.real x, rest) := by
  obtain ⟨n, left, hread, hleft⟩ := exists_readValue_of_returns h
  rw [readValue_scalar_real] at hread ⊢
  rcases scalar_real_cases x with ⟨word, hword, htext⟩ | ⟨hall, c, ds, hc, htext⟩
  · obtain ⟨v, hv⟩ := readWord?_word hword
    rw [htext, hv] at hread ⊢
    obtain ⟨rfl, -⟩ := Prod.mk.inj (Except.ok.inj hread)
    rfl
  · have hword : ∀ rest, readWord? (scalar (.real x) ++ rest) = none := by
      intro rest
      rcases htext with htext | htext
      · rw [htext]
        exact (readWord?_of_isDigit hc (ds ++ rest)).1
      · rw [htext]
        exact (readWord?_of_isDigit hc (ds ++ rest)).2
    rw [hword] at hread ⊢
    rw [List.append_nil] at hread
    -- All of the text was read: it has no space that could be left.
    have hnil : left = [] := by
      cases left with
      | nil => rfl
      | cons d left =>
        have hd : isSpace d = false :=
          isSpace_of_inNumber (hall d (subset_of_readNumber hread List.mem_cons_self))
        rw [skipSpace, List.dropWhile_cons_of_neg (by simp [hd])] at hleft
        simp at hleft
    subst hnil
    exact readNumber_append hr hread

end ConsoleSweep.Json
