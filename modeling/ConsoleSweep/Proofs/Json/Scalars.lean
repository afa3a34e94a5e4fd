/-
  Strings and whole numbers come back from their JSON texts.

  A string is read as a row of codes, where a character beyond the basic plane has two
  (`codesOf`). Each escape is read as the codes of its character (`readCodes_escapedChar`),
  and the codes are joined to the characters they came from (`joinCodes_flatMap`). A number
  ends where nothing follows that could go on with it (`EndsNumber`).
-/
import ConsoleSweep.Json.Parser
import Mathlib.Data.List.Infix

namespace ConsoleSweep.Json

open ConsoleSweep.Text

variable {c : Char} {n opened : Nat} {rest : List Char}

/-! ## Strings -/

/-- The codes of a character: its own, or the two halves of its pair. -/
def codesOf (c : Char) : List Nat :=
  if c.toNat < 0x10000 then [c.toNat]
  else [0xD800 + (c.toNat - 0x10000) / 0x400, 0xDC00 + (c.toNat - 0x10000) % 0x400]

/-- Puts some codes before those that were read. -/
def consCodes (ns : List Nat) (read : Except Stuck (List Nat × List Char)) :
    Except Stuck (List Nat × List Char) :=
  ns.foldr consCode read

theorem consCodes_ok (ns ms : List Nat) (rest : List Char) :
    consCodes ns (.ok (ms, rest)) = .ok (ns ++ ms, rest) := by
  induction ns with
  | nil => rfl
  | cons n ns ih =>
    rw [consCodes] at ih ⊢
    rw [List.foldr_cons, ih]
    rfl

theorem hexValue?_digitChar : ∀ d < 16, hexValue? (Nat.digitChar d) = some d := by
  decide

/-- Four hexadecimal digits have the value that they were written for. -/
theorem unitEscape_eq (h : n < 0x10000) :
    ∃ a b c d, unitEscape n = ['\\', 'u', a, b, c, d] ∧ unitValue? a b c d = some n := by
  refine ⟨_, _, _, _, rfl, ?_⟩
  unfold unitValue?
  rw [hexValue?_digitChar _ (Nat.mod_lt _ (by decide)),
    hexValue?_digitChar _ (Nat.mod_lt _ (by decide)),
    hexValue?_digitChar _ (Nat.mod_lt _ (by decide)),
    hexValue?_digitChar _ (Nat.mod_lt _ (by decide))]
  simp only [Option.some.injEq]
  omega

theorem readCodes_unitEscape (h : n < 0x10000) (hr : rest ≠ []) :
    readCodes opened (unitEscape n ++ rest) = consCode n (readCodes opened rest) := by
  obtain ⟨a, b, c, d, he, hv⟩ := unitEscape_eq h
  rw [he]
  simp only [List.cons_append, List.nil_append]
  rw [readCodes, hv]
  simp [hr]

theorem readCodes_shortEscape {e : Char} (he : e ≠ 'u') (hs : shortEscape? e = some c) :
    readCodes opened ('\\' :: e :: rest) = consCode c.toNat (readCodes opened rest) := by
  rw [readCodes]
  · rw [if_neg he, hs]
  · rintro a b c d rest rfl
    exact absurd rfl he

/-- A character that is written as itself. -/
theorem readCodes_plain (hq : c ≠ '"') (hb : c ≠ '\\') (hc : 0x1F < c.toNat) :
    readCodes opened (c :: rest) = consCode c.toNat (readCodes opened rest) := by
  rw [readCodes]
  · rw [if_neg hq, if_neg (by omega)]
  all_goals simp [hb]

/-- The codes of an escape are those of its character. -/
theorem readCodes_escapedChar (c : Char) (hr : rest ≠ []) :
    readCodes opened (escapedChar c ++ rest) = consCodes (codesOf c) (readCodes opened rest) := by
  have basic : c.toNat < 0x10000 → codesOf c = [c.toNat] := fun h => if_pos h
  unfold escapedChar
  split
  · next h =>
    have h : c = '"' ∨ c = '\\' := by simpa using h
    rcases h with rfl | rfl
    · exact readCodes_shortEscape (by decide) rfl
    · exact readCodes_shortEscape (by decide) rfl
  split
  · next h => subst h; exact readCodes_shortEscape (by decide) rfl
  split
  · next h => subst h; exact readCodes_shortEscape (by decide) rfl
  split
  · next h => subst h; exact readCodes_shortEscape (by decide) rfl
  split
  · next h => subst h; exact readCodes_shortEscape (by decide) rfl
  split
  · next h => subst h; exact readCodes_shortEscape (by decide) rfl
  next hspecial _ _ _ _ _ =>
  split
  · next h =>
    have hspecial : c ≠ '"' ∧ c ≠ '\\' := by simpa using hspecial
    have h : ' ' ≤ c ∧ c ≤ '~' := by simpa using h
    have hlo : ' '.toNat ≤ c.toNat := h.1
    have hhi : c.toNat ≤ '~'.toNat := h.2
    have hlo' : 32 ≤ c.toNat := hlo
    have hhi' : c.toNat ≤ 126 := hhi
    rw [basic (by omega)]
    exact readCodes_plain hspecial.1 hspecial.2 (by omega)
  split
  · next h =>
    rw [basic h]
    exact readCodes_unitEscape h hr
  · next h =>
    have hvalid : c.toNat < 0x110000 := by
      rcases c.valid with hv | ⟨-, hv⟩
      · exact Nat.lt_trans hv (by decide)
      · exact hv
    rw [codesOf, if_neg h, List.append_assoc,
      readCodes_unitEscape (by omega) (by simp [unitEscape]), readCodes_unitEscape (by omega) hr]
    rfl

theorem readCodes_flatMap (text rest : List Char) :
    readCodes opened (text.flatMap escapedChar ++ '"' :: rest) =
      .ok (text.flatMap codesOf, rest) := by
  induction text with
  | nil => rw [List.flatMap_nil, List.nil_append, readCodes] <;> simp
  | cons c text ih =>
    rw [List.flatMap_cons, List.append_assoc, readCodes_escapedChar c (by simp), ih,
      List.flatMap_cons, consCodes_ok]

/-- The codes of a character are joined to that character, whatever follows. -/
theorem joinCodes_codesOf (c : Char) (ns : List Nat) :
    joinCodes (codesOf c ++ ns) = c :: joinCodes ns := by
  have hvalid : c.toNat < 0xD800 ∨ 0xDFFF < c.toNat ∧ c.toNat < 0x110000 := c.valid
  unfold codesOf
  split
  · next h =>
    have hhigh : isHighUnit c.toNat = false := by
      simp only [isHighUnit, Bool.and_eq_false_iff, decide_eq_false_iff_not]
      omega
    have hlow : isLowUnit c.toNat = false := by
      simp only [isLowUnit, Bool.and_eq_false_iff, decide_eq_false_iff_not]
      omega
    have hcode : codeChar c.toNat = c := by
      rw [codeChar, hhigh, hlow, if_neg (by simp), Char.ofNat_toNat]
    cases ns with
    | nil => simp [joinCodes, hcode]
    | cons m ns => simp [joinCodes, hhigh, hcode]
  · next h =>
    have hhigh : isHighUnit (0xD800 + (c.toNat - 0x10000) / 0x400) = true := by
      simp only [isHighUnit, Bool.and_eq_true, decide_eq_true_iff]
      omega
    have hlow : isLowUnit (0xDC00 + (c.toNat - 0x10000) % 0x400) = true := by
      simp only [isLowUnit, Bool.and_eq_true, decide_eq_true_iff]
      omega
    have hpair : pairChar (0xD800 + (c.toNat - 0x10000) / 0x400)
        (0xDC00 + (c.toNat - 0x10000) % 0x400) = c := by
      have hn : 0x10000 + (0xD800 + (c.toNat - 0x10000) / 0x400 - 0xD800) * 0x400 +
          (0xDC00 + (c.toNat - 0x10000) % 0x400 - 0xDC00) = c.toNat := by omega
      rw [pairChar, hn, Char.ofNat_toNat]
    simp [joinCodes, hhigh, hlow, hpair]

/-- No character has a second half of a pair for its first code. -/
theorem isLowUnit_of_head?_codesOf (c : Char) (ns : List Nat) :
    ∀ n ∈ (codesOf c ++ ns).head?, isLowUnit n = false := by
  have hvalid : c.toNat < 0xD800 ∨ 0xDFFF < c.toNat ∧ c.toNat < 0x110000 := c.valid
  intro n hn
  simp only [isLowUnit, Bool.and_eq_false_iff, decide_eq_false_iff_not]
  unfold codesOf at hn
  split at hn
  · obtain rfl := Option.some.inj hn
    omega
  · obtain rfl := Option.some.inj hn
    omega

/-- Half a pair without the other half becomes the replacement character. -/
theorem joinCodes_half {ns : List Nat} (hn : 0xD800 ≤ n ∧ n < 0xE000)
    (h : ∀ m ∈ ns.head?, (isHighUnit n && isLowUnit m) = false) :
    joinCodes (n :: ns) = '\uFFFD' :: joinCodes ns := by
  have hcode : codeChar n = '\uFFFD' := by
    refine if_pos ?_
    simp only [isHighUnit, isLowUnit, Bool.or_eq_true, Bool.and_eq_true, decide_eq_true_eq]
    omega
  cases ns with
  | nil => simp [joinCodes, hcode]
  | cons m ns => rw [joinCodes, if_neg (by simp [h m rfl]), hcode]

theorem joinCodes_flatMap (text : List Char) : joinCodes (text.flatMap codesOf) = text := by
  induction text with
  | nil => rfl
  | cons c text ih => rw [List.flatMap_cons, joinCodes_codesOf, ih]

/-- A string is read back from its text. -/
theorem readString_string (s : String) (rest : List Char) :
    readString (s.toList.flatMap escapedChar ++ '"' :: rest) = .ok (s, rest) := by
  unfold readString
  rw [readCodes_flatMap]
  simp [joinCodes_flatMap]

/-! ## Whole numbers -/

/-- A character that goes on with a number. -/
def goesOn (c : Char) : Bool :=
  isDigit c || c == '.' || c == 'e' || c == 'E'

/-- What follows does not go on with a number. -/
def EndsNumber (rest : List Char) : Prop :=
  ∀ c ∈ rest.head?, goesOn c = false

theorem isDigit_of_mem_toDigits (h : c ∈ Nat.toDigits 10 n) : isDigit c = true := by
  have hd := Nat.isDigit_of_mem_toDigits (by decide) (by decide) h
  simpa [isDigit, Char.isDigit, Char.le_def] using hd

theorem digitsValue_toDigits (n : Nat) : digitsValue (Nat.toDigits 10 n) = n := by
  have hv := Nat.ofDigitChars_ten_toDigits (n := n)
  rw [Nat.ofDigitChars_eq_foldl] at hv
  unfold digitsValue
  simpa only [Nat.mul_comm] using hv

theorem head?_toDigits_append (n : Nat) (rest : List Char) :
    (Nat.toDigits 10 n ++ rest).head? = (Nat.toDigits 10 n).head? := by
  cases h : Nat.toDigits 10 n with
  | nil => exact absurd h Nat.toDigits_ne_nil
  | cons c ds => rfl

/-- Only zero is written with a zero at its start. -/
theorem eq_zero_of_head? (h : (Nat.toDigits 10 n).head? = some '0') : n = 0 := by
  induction n using Nat.strongRecOn with
  | _ n ih =>
    by_cases hn : n < 10
    · rw [Nat.toDigits_of_lt_base hn] at h
      have hzero : ∀ d < 10, Nat.digitChar d = '0' → d = 0 := by decide
      exact hzero n hn (by simpa using h)
    · rw [Nat.toDigits_of_base_le (by decide) (by omega), head?_toDigits_append] at h
      have hz := ih (n / 10) (by omega) h
      omega

theorem takeWhile_isDigit {ds : List Char} (hd : ∀ c ∈ ds, isDigit c = true)
    (hr : EndsNumber rest) : (ds ++ rest).takeWhile isDigit = ds := by
  rw [List.takeWhile_append_of_pos hd]
  cases rest with
  | nil => simp
  | cons c rest =>
    have hc : goesOn c = false := hr c rfl
    have hc : isDigit c = false := by
      simp only [goesOn, Bool.or_eq_false_iff] at hc
      exact hc.1.1.1
    simp [hc]

theorem wholeDigits_toDigits (n : Nat) (hr : EndsNumber rest) :
    wholeDigits (Nat.toDigits 10 n ++ rest) = Nat.toDigits 10 n := by
  unfold wholeDigits
  split
  · next cs heq =>
    have hhead : (Nat.toDigits 10 n).head? = some '0' := by
      rw [← head?_toDigits_append n rest, heq]
      rfl
    rw [eq_zero_of_head? hhead]
    rfl
  · exact takeWhile_isDigit (fun c => isDigit_of_mem_toDigits) hr

theorem fractionDigits_of_endsNumber (hr : EndsNumber rest) : fractionDigits rest = [] := by
  unfold fractionDigits
  split
  · exact absurd (hr '.' rfl) (by decide)
  · rfl

theorem exponent?_of_endsNumber (hr : EndsNumber rest) : exponent? rest = none := by
  cases rest with
  | nil => rfl
  | cons c rest =>
    have hc : goesOn c = false := hr c rfl
    simp only [goesOn, Bool.or_eq_false_iff, beq_eq_false_iff_ne] at hc
    unfold exponent?
    split <;> simp_all

theorem readUnsigned_toDigits (negative : Bool) (hs : (Nat.toDigits 10 n).length ≤ digitLimit)
    (hr : EndsNumber rest) : readUnsigned negative (Nat.toDigits 10 n ++ rest) =
      some (.ok (.int (if negative then -n else n)), rest) := by
  have hdrop : (Nat.toDigits 10 n ++ rest).drop (Nat.toDigits 10 n).length = rest :=
    List.drop_left
  unfold readUnsigned
  rw [wholeDigits_toDigits n hr]
  split
  · next h => exact absurd h Nat.toDigits_ne_nil
  · simp only [hdrop, fractionDigits_of_endsNumber hr, List.isEmpty_nil, if_true,
      exponent?_of_endsNumber hr, if_neg (Nat.not_lt.2 hs), digitsValue_toDigits]

/-- The text of a whole number is its digits, behind a minus sign if it is negative. -/
theorem toList_ofInt (n : Int) : (Text.ofInt n).toList =
    if n < 0 then '-' :: Nat.toDigits 10 n.natAbs else Nat.toDigits 10 n.natAbs := by
  cases n with
  | ofNat n => simp [Text.ofInt, Text.ofNat]
  | negSucc n => simp [Text.ofInt, Text.ofNat, Int.negSucc_lt_zero]

theorem readNumber_ofInt {n : Int} (hs : (Nat.toDigits 10 n.natAbs).length ≤ digitLimit)
    (hr : EndsNumber rest) : readNumber ((Text.ofInt n).toList ++ rest) = .ok (.int n, rest) := by
  unfold readNumber
  rw [toList_ofInt]
  by_cases hn : n < 0
  · rw [if_pos hn]
    simp only [List.cons_append, readUnsigned_toDigits true hs hr, if_true]
    have habs : -(n.natAbs : Int) = n := by omega
    rw [habs]
  · rw [if_neg hn]
    have habs : (n.natAbs : Int) = n := by omega
    -- The digits do not start with a sign.
    have hsign : ∀ tail, Nat.toDigits 10 n.natAbs ++ rest ≠ '-' :: tail := by
      intro tail heq
      have hhead := head?_toDigits_append n.natAbs rest
      rw [heq] at hhead
      have hmem := List.mem_of_head? hhead.symm
      exact absurd (isDigit_of_mem_toDigits hmem) (by decide)
    split
    · next tail heq => exact absurd heq (hsign tail)
    · simp only [readUnsigned_toDigits false hs hr, Bool.false_eq_true, if_false, habs]

theorem readWord?_of_isDigit (hc : isDigit c = true) (rest : List Char) :
    readWord? (c :: rest) = none ∧ readWord? ('-' :: c :: rest) = none := by
  have hne : ∀ x : Char, isDigit x = false → (x == c) = false := by
    rintro x hx
    rw [beq_eq_false_iff_ne]
    rintro rfl
    simp [hc] at hx
  constructor <;>
    simp [readWord?, wordValues, List.findSome?, List.isPrefixOf?, hne, isDigit]

/-- A text that opens neither a string nor an array nor an object is a word or a number. -/
theorem readValue_plain {fuel depth : Nat} (hq : c ≠ '"') (ha : c ≠ '[') (ho : c ≠ '\x7b') :
    readValue (fuel + 1) depth (c :: rest) =
      match readWord? (c :: rest) with
      | some (v, rest) => .ok (v, rest)
      | none => readNumber (c :: rest) := by
  unfold readValue
  split
  · next h => exact absurd (List.cons.inj h).1 hq
  · next h => exact absurd (List.cons.inj h).1 ha
  · next h => exact absurd (List.cons.inj h).1 ho
  · rfl

end ConsoleSweep.Json
