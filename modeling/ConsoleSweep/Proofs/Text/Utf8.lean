/-
  A row of bytes that is a text is the UTF-8 form of that text: each character is read from
  the bytes that it is written as. So a file whose text does not change has the bytes that
  writing the text would give it, and a text that was written is read back.
-/
import ConsoleSweep.Text.Utf8

namespace ConsoleSweep.Text

theorem toNat_ofNat_of_isValidChar {n : Nat} (h : n.isValidChar) : (Char.ofNat n).toNat = n := by
  unfold Char.ofNat
  rw [dif_pos h]
  rfl

theorem ofNat_eq_of_toNat {b : UInt8} {n : Nat} (h : n = b.toNat) : UInt8.ofNat n = b := by
  rw [h]
  exact UInt8.ofNat_toNat

/-! ## One character, by the number of its bytes -/

section

variable {a b c d : UInt8}

theorem isTail_iff : isTail b = true ↔ 0x80 ≤ b.toNat ∧ b.toNat ≤ 0xBF := by
  simp [isTail]

theorem isTail_of_fitsSecond (h : fitsSecond a b = true) : isTail b = true := by
  rw [fitsSecond, Bool.and_eq_true] at h
  exact h.1

theorem encodeChar_one (ha : sizeOf? a = some 1) : encodeChar (Char.ofNat a.toNat) = [a] := by
  have hlt : a.toNat < 0x80 := by
    unfold sizeOf? at ha
    grind
  have hn : (Char.ofNat a.toNat).toNat = a.toNat :=
    toNat_ofNat_of_isValidChar (.inl (by omega))
  simp [encodeChar, hn, hlt]

theorem encodeChar_two (ha : sizeOf? a = some 2) (hb : isTail b = true) :
    encodeChar (Char.ofNat ((a.toNat - 0xC0) * 0x40 + (b.toNat - 0x80))) = [a, b] := by
  have hlo : 0xC2 ≤ a.toNat ∧ a.toNat < 0xE0 := by
    unfold sizeOf? at ha
    grind
  rw [isTail_iff] at hb
  have hn := toNat_ofNat_of_isValidChar
    (n := (a.toNat - 0xC0) * 0x40 + (b.toNat - 0x80)) (.inl (by omega))
  unfold encodeChar
  simp only [hn]
  rw [if_neg (by omega), if_pos (by omega), ofNat_eq_of_toNat (b := a) (by omega),
    ofNat_eq_of_toNat (b := b) (by omega)]

theorem encodeChar_three (ha : sizeOf? a = some 3) (hb : fitsSecond a b = true)
    (hc : isTail c = true) :
    encodeChar (Char.ofNat ((a.toNat - 0xE0) * 0x1000 + (b.toNat - 0x80) * 0x40 +
      (c.toNat - 0x80))) = [a, b, c] := by
  have hlo : 0xE0 ≤ a.toNat ∧ a.toNat < 0xF0 := by
    unfold sizeOf? at ha
    grind
  rw [fitsSecond, Bool.and_eq_true, isTail_iff] at hb
  rw [isTail_iff] at hc
  obtain ⟨hb, hfit⟩ := hb
  -- The second byte keeps clear of shorter forms and of the halves of pairs.
  have hfirst : a.toNat = 0xE0 → 0xA0 ≤ b.toNat := by
    intro h
    simpa [h] using hfit
  have hpair : a.toNat = 0xED → b.toNat < 0xA0 := by
    intro h
    simpa [h] using hfit
  have hn := toNat_ofNat_of_isValidChar
    (n := (a.toNat - 0xE0) * 0x1000 + (b.toNat - 0x80) * 0x40 + (c.toNat - 0x80))
    (by unfold Nat.isValidChar; omega)
  unfold encodeChar
  simp only [hn]
  rw [if_neg (by omega), if_neg (by omega), if_pos (by omega),
    ofNat_eq_of_toNat (b := a) (by omega), ofNat_eq_of_toNat (b := b) (by omega),
    ofNat_eq_of_toNat (b := c) (by omega)]

theorem encodeChar_four (ha : 0xF0 ≤ a.toNat ∧ a.toNat < 0xF5) (hb : fitsSecond a b = true)
    (hc : isTail c = true) (hd : isTail d = true) :
    encodeChar (Char.ofNat ((a.toNat - 0xF0) * 0x40000 + (b.toNat - 0x80) * 0x1000 +
      (c.toNat - 0x80) * 0x40 + (d.toNat - 0x80))) = [a, b, c, d] := by
  rw [fitsSecond, Bool.and_eq_true, isTail_iff] at hb
  rw [isTail_iff] at hc hd
  obtain ⟨hb, hfit⟩ := hb
  have hfirst : a.toNat = 0xF0 → 0x90 ≤ b.toNat := by
    intro h
    simpa [h] using hfit
  have hlast : a.toNat = 0xF4 → b.toNat < 0x90 := by
    intro h
    simpa [h] using hfit
  have hn := toNat_ofNat_of_isValidChar
    (n := (a.toNat - 0xF0) * 0x40000 + (b.toNat - 0x80) * 0x1000 + (c.toNat - 0x80) * 0x40 +
      (d.toNat - 0x80))
    (by unfold Nat.isValidChar; omega)
  unfold encodeChar
  simp only [hn]
  rw [if_neg (by omega), if_neg (by omega), if_neg (by omega),
    ofNat_eq_of_toNat (b := a) (by omega), ofNat_eq_of_toNat (b := b) (by omega),
    ofNat_eq_of_toNat (b := c) (by omega), ofNat_eq_of_toNat (b := d) (by omega)]

end

/-! ## Texts -/

theorem encode_cons (c : Char) (cs : List Char) : encode (c :: cs) = encodeChar c ++ encode cs :=
  List.flatMap_cons

theorem encode_append (cs ds : List Char) : encode (cs ++ ds) = encode cs ++ encode ds :=
  List.flatMap_append

theorem consDecoded_eq_ok {n : Nat} {r : Except Utf8Error (List Char)} {text : List Char}
    (h : consDecoded n r = .ok text) : ∃ cs, r = .ok cs ∧ text = Char.ofNat n :: cs := by
  cases r with
  | error e => simp [consDecoded] at h
  | ok cs => exact ⟨cs, rfl, (Except.ok.inj h).symm⟩

theorem encode_of_decodeAt {place : Nat} {bytes : Bytes} {text : List Char}
    (h : decodeAt place bytes = .ok text) : encode text = bytes := by
  -- The induction is on the characters that are read; each case is one size of a character.
  fun_induction decodeAt place bytes generalizing text with
  | case1 =>
    obtain rfl := Except.ok.inj h
    rfl
  | case3 place a rest ha ih =>
    obtain ⟨cs, hr, rfl⟩ := consDecoded_eq_ok h
    rw [encode_cons, encodeChar_one ha, ih hr]
    rfl
  | case6 place a b rest hb _ ha ih =>
    obtain ⟨cs, hr, rfl⟩ := consDecoded_eq_ok h
    have hb : fitsSecond a b = true := by simpa using hb
    rw [encode_cons, encodeChar_two ha (isTail_of_fitsSecond hb), ih hr]
    rfl
  | case9 place a b hb c rest hc _ ha _ ih =>
    obtain ⟨cs, hr, rfl⟩ := consDecoded_eq_ok h
    rw [encode_cons, encodeChar_three ha (by simpa using hb) (by simpa using hc), ih hr]
    rfl
  | case12 place a size h₁ ha b hb h₂ c hc h₃ d rest hd ih =>
    obtain ⟨cs, hr, rfl⟩ := consDecoded_eq_ok h
    have hlo : 0xF0 ≤ a.toNat ∧ a.toNat < 0xF5 := by
      unfold sizeOf? at ha
      grind
    rw [encode_cons, encodeChar_four hlo (by simpa using hb) (by simpa using hc)
      (by simpa using hd), ih hr]
    rfl
  | case2 | case4 | case5 | case7 | case8 | case10 | case11 => simp at h

/-- The bytes of a file are those of its text. -/
theorem encode_of_decode {bytes : Bytes} {text : List Char} (h : decode bytes = .ok text) :
    encode text = bytes :=
  encode_of_decodeAt h

/-! ## Back again -/

section

variable {place : Nat} {a b c d : UInt8} {rest : Bytes} {n : Nat}

theorem decodeAt_one (ha : sizeOf? a = some 1) (hn : a.toNat = n) :
    decodeAt place (a :: rest) = consDecoded n (decodeAt (place + 1) rest) := by
  rw [decodeAt, ha]
  simp only [hn]

theorem decodeAt_two (ha : sizeOf? a = some 2) (hb : fitsSecond a b = true)
    (hn : (a.toNat - 0xC0) * 0x40 + (b.toNat - 0x80) = n) :
    decodeAt place (a :: b :: rest) = consDecoded n (decodeAt (place + 2) rest) := by
  rw [decodeAt, ha]
  simp [hb, hn]

theorem decodeAt_three (ha : sizeOf? a = some 3) (hb : fitsSecond a b = true)
    (hc : isTail c = true)
    (hn : (a.toNat - 0xE0) * 0x1000 + (b.toNat - 0x80) * 0x40 + (c.toNat - 0x80) = n) :
    decodeAt place (a :: b :: c :: rest) = consDecoded n (decodeAt (place + 3) rest) := by
  rw [decodeAt, ha]
  simp [hb, hc, hn]

theorem decodeAt_four (ha : sizeOf? a = some 4) (hb : fitsSecond a b = true)
    (hc : isTail c = true) (hd : isTail d = true)
    (hn : (a.toNat - 0xF0) * 0x40000 + (b.toNat - 0x80) * 0x1000 + (c.toNat - 0x80) * 0x40 +
      (d.toNat - 0x80) = n) :
    decodeAt place (a :: b :: c :: d :: rest) = consDecoded n (decodeAt (place + 4) rest) := by
  rw [decodeAt, ha]
  simp [hb, hc, hd, hn]

end

/-- A character is read from its bytes, whatever follows. -/
theorem decodeAt_encodeChar (c : Char) (place : Nat) (bytes : Bytes) :
    ∃ place', decodeAt place (encodeChar c ++ bytes) =
      consDecoded c.toNat (decodeAt place' bytes) := by
  have hvalid : c.toNat < 0xD800 ∨ 0xDFFF < c.toNat ∧ c.toNat < 0x110000 := c.valid
  have hbyte : ∀ {n}, n < 256 → (UInt8.ofNat n).toNat = n := UInt8.toNat_ofNat_of_lt'
  have htail : ∀ n, isTail (UInt8.ofNat (0x80 + n % 0x40)) = true := by
    intro n
    rw [isTail_iff, hbyte (by omega)]
    omega
  unfold encodeChar
  dsimp only
  split
  · next h =>
    exact ⟨_, decodeAt_one (by rw [sizeOf?, hbyte (by omega), if_pos h]) (hbyte (by omega))⟩
  split
  · next h =>
    have ha := hbyte (n := 0xC0 + c.toNat / 0x40) (by omega)
    have hb := hbyte (n := 0x80 + c.toNat % 0x40) (by omega)
    refine ⟨_, decodeAt_two ?_ ?_ (by rw [ha, hb]; omega)⟩
    · rw [sizeOf?, ha]
      grind
    · rw [fitsSecond, htail, ha, hb]
      grind
  split
  · next h =>
    have ha := hbyte (n := 0xE0 + c.toNat / 0x1000) (by omega)
    have hb := hbyte (n := 0x80 + c.toNat / 0x40 % 0x40) (by omega)
    have hc := hbyte (n := 0x80 + c.toNat % 0x40) (by omega)
    refine ⟨_, decodeAt_three ?_ ?_ (htail _) (by rw [ha, hb, hc]; omega)⟩
    · rw [sizeOf?, ha]
      grind
    · rw [fitsSecond, htail, ha, hb]
      grind
  · next h =>
    have ha := hbyte (n := 0xF0 + c.toNat / 0x40000) (by omega)
    have hb := hbyte (n := 0x80 + c.toNat / 0x1000 % 0x40) (by omega)
    have hc := hbyte (n := 0x80 + c.toNat / 0x40 % 0x40) (by omega)
    have hd := hbyte (n := 0x80 + c.toNat % 0x40) (by omega)
    refine ⟨_, decodeAt_four ?_ ?_ (htail _) (htail _) (by rw [ha, hb, hc, hd]; omega)⟩
    · rw [sizeOf?, ha]
      grind
    · rw [fitsSecond, htail, ha, hb]
      grind

theorem decodeAt_encode (text : List Char) (place : Nat) :
    decodeAt place (encode text) = .ok text := by
  induction text generalizing place with
  | nil => rfl
  | cons c text ih =>
    obtain ⟨place', hc⟩ := decodeAt_encodeChar c place (encode text)
    rw [encode_cons, hc, ih, consDecoded, Char.ofNat_toNat]

/-- A text is read back from its bytes. -/
theorem decode_encode (text : List Char) : decode (encode text) = .ok text :=
  decodeAt_encode text 0

end ConsoleSweep.Text
