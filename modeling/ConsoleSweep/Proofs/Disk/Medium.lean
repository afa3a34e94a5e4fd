/-
  What a medium can hold.

  Only a name that is no UTF-8 has characters that cannot be written (`Medium.strays`), and
  these are no ASCII. Numbers, dates and the wordings of errors are ASCII; quotes, escapes and
  the marks of a row are too. So a row can be held if and only if its fields can
  (`canHold_row`), and the message of a fault if the path that it is about can
  (`Fault.Blocks.canHold`).
-/
import Mathlib.Data.List.Basic
import ConsoleSweep.Csv
import ConsoleSweep.Fault
import ConsoleSweep.Time

namespace ConsoleSweep

namespace Text

/-- Characters below 0x80 only. -/
def IsAscii (text : List Char) : Prop :=
  ∀ c ∈ text, c.val < 0x80

-- By the text: an instance that goes through all characters there are would be found first.
instance (text : List Char) : Decidable (IsAscii text) :=
  List.decidableBAll _ text

@[simp] theorem isAscii_append {a b : List Char} : IsAscii (a ++ b) ↔ IsAscii a ∧ IsAscii b :=
  List.forall_mem_append

theorem isAscii_of_isDigit {text : List Char} (h : ∀ c ∈ text, c.isDigit = true) :
    IsAscii text := by
  intro c hc
  have hdigit := h c hc
  simp only [Char.isDigit, Bool.and_eq_true, decide_eq_true_eq] at hdigit
  exact UInt32.lt_of_le_of_lt hdigit.2 (by decide)

theorem isAscii_ofNat (n : Nat) : IsAscii (ofNat n).toList := by
  unfold ofNat
  rw [String.toList_ofList]
  exact isAscii_of_isDigit fun c hc => Nat.isDigit_of_mem_toDigits (by decide) (by decide) hc

theorem isAscii_ofInt (n : Int) : IsAscii (ofInt n).toList := by
  cases n with
  | ofNat n => exact isAscii_ofNat n
  | negSucc n =>
    unfold ofInt
    rw [String.toList_append]
    exact isAscii_append.2 ⟨by decide, isAscii_ofNat _⟩

theorem isAscii_padLeft {s : String} (h : IsAscii s.toList) (width : Nat) :
    IsAscii (padLeft width '0' s).toList := by
  unfold padLeft
  rw [String.toList_ofList]
  refine isAscii_append.2 ⟨fun c hc => ?_, h⟩
  rw [List.eq_of_mem_replicate hc]
  decide

theorem isAscii_hex (width n : Nat) : IsAscii (hex width n) := by
  have digit : ∀ d < 16, (Nat.digitChar d).val < 0x80 := by decide
  induction width generalizing n with
  | zero => exact fun c hc => absurd hc List.not_mem_nil
  | succ width ih =>
    refine isAscii_append.2 ⟨ih _, fun c hc => ?_⟩
    rw [List.mem_singleton.1 hc]
    exact digit _ (Nat.mod_lt _ (by decide))

theorem Utf8Error.isAscii_message (e : Utf8Error) : IsAscii e.message.toList := by
  have reason : IsAscii e.reason.message.toList := by
    cases e.reason <;> decide
  unfold message
  dsimp only
  split <;> simp only [String.toList_append, String.toList_ofList, isAscii_append, isAscii_hex,
    isAscii_ofNat, reason, and_true] <;> decide

theorem mem_quotedChar {quote x c : Char} (h : c ∈ quotedChar quote x) :
    c = x ∨ c.val < 0x80 := by
  have escape : ∀ {mark : Char} {digits : List Char}, mark.val < 0x80 → IsAscii digits →
      c ∈ '\\' :: mark :: digits → c.val < 0x80 := by
    intro mark digits hm hd hc
    rcases List.mem_cons.1 hc with rfl | hc
    · decide
    · rcases List.mem_cons.1 hc with rfl | hc
      · exact hm
      · exact hd c hc
  have plain : ∀ {mark : Char}, mark.val < 0x80 → c ∈ ['\\', mark] → c.val < 0x80 :=
    fun hm hc => escape hm (fun _ h => absurd h List.not_mem_nil) hc
  unfold quotedChar at h
  split at h
  · rcases List.mem_pair.1 h with rfl | rfl
    · exact .inr (by decide)
    · exact .inl rfl
  split at h
  · exact .inr (plain (by decide) h)
  split at h
  · exact .inr (plain (by decide) h)
  split at h
  · exact .inr (plain (by decide) h)
  split at h
  · exact .inl (List.mem_singleton.1 h)
  split at h
  · exact .inr (escape (by decide) (isAscii_hex _ _) h)
  split at h
  · exact .inr (escape (by decide) (isAscii_hex _ _) h)
  · exact .inr (escape (by decide) (isAscii_hex _ _) h)

/-- A character of joined texts is one of the separator or of a text. -/
theorem mem_intercalate {c : Char} {sep : List Char} {parts : List (List Char)}
    (h : c ∈ sep.intercalate parts) : c ∈ sep ∨ ∃ part ∈ parts, c ∈ part := by
  induction parts with
  | nil => exact absurd h (by simp)
  | cons a rest ih =>
    cases rest with
    | nil => exact .inr ⟨a, List.mem_cons_self, by simpa using h⟩
    | cons b rest =>
      rw [List.intercalate_cons_cons, List.mem_append, List.mem_append] at h
      rcases h with (h | h) | h
      · exact .inr ⟨a, List.mem_cons_self, h⟩
      · exact .inl h
      · obtain h | ⟨part, hpart, h⟩ := ih h
        · exact .inl h
        · exact .inr ⟨part, List.mem_cons_of_mem _ hpart, h⟩

theorem mem_intercalate_of_mem {c : Char} {sep part : List Char} {parts : List (List Char)}
    (hpart : part ∈ parts) (h : c ∈ part) : c ∈ sep.intercalate parts := by
  induction parts with
  | nil => exact absurd hpart List.not_mem_nil
  | cons a rest ih =>
    cases rest with
    | nil =>
      rw [List.mem_singleton.1 hpart] at h
      simpa using h
    | cons b rest =>
      rw [List.intercalate_cons_cons, List.mem_append, List.mem_append]
      rcases List.mem_cons.1 hpart with rfl | hpart
      · exact .inl (.inl h)
      · exact .inr (ih hpart)

/-- A quoted text has the characters of the text, and ASCII. -/
theorem mem_quoted {s : String} {c : Char} (h : c ∈ (quoted s).toList) :
    c ∈ s.toList ∨ c.val < 0x80 := by
  have hq : (quoteFor s.toList).val < 0x80 := by
    unfold quoteFor
    split <;> decide
  unfold quoted at h
  dsimp only at h
  rw [String.toList_ofList, List.cons_append] at h
  rcases List.mem_cons.1 h with rfl | h
  · exact .inr hq
  rcases List.mem_append.1 h with h | h
  · obtain ⟨x, hx, hc⟩ := List.mem_flatMap.1 h
    rcases mem_quotedChar hc with rfl | hascii
    · exact .inl hx
    · exact .inr hascii
  · rw [List.mem_singleton.1 h]
    exact .inr hq

end Text

/-- The date and time are written in ASCII. -/
theorem Time.isAscii_iso {x : Number} {s : String} (h : Time.iso x = .ok s) :
    Text.IsAscii s.toList := by
  have two (n : Nat) : Text.IsAscii (Time.two n).toList :=
    Text.isAscii_padLeft (Text.isAscii_ofNat n) 2
  have year (n : Int) : Text.IsAscii (Text.padLeft 4 '0' (Text.ofInt n)).toList :=
    Text.isAscii_padLeft (Text.isAscii_ofInt n) 4
  have micros (n : Nat) : Text.IsAscii (Text.padLeft 6 '0' (Text.ofNat n)).toList :=
    Text.isAscii_padLeft (Text.isAscii_ofNat n) 6
  have mark : ∀ mark ∈ ["-", "T", ":", ".", ""], Text.IsAscii mark.toList := by decide
  unfold iso at h
  simp only [bind, Except.bind] at h
  split at h
  · cases h
  split at h
  · cases h
  obtain rfl := Except.ok.inj h
  have fraction : ∀ n, Text.IsAscii
      (if n = 0 then "" else "." ++ Text.padLeft 6 '0' (Text.ofNat n)).toList := by
    intro n
    split
    · exact mark "" (by decide)
    · rw [String.toList_append]
      exact Text.isAscii_append.2 ⟨mark "." (by decide), micros n⟩
  simp only [Civil.date, Civil.clock, String.toList_append, Text.isAscii_append, two, year,
    fraction, mark "-" (by decide), mark "T" (by decide), mark ":" (by decide), and_self]

namespace Csv

theorem mem_doubled {c : Char} {text : List Char} : c ∈ doubled text ↔ c ∈ text := by
  induction text with
  | nil => exact Iff.rfl
  | cons x text ih =>
    unfold doubled
    split
    · next hx =>
      subst hx
      simp only [List.mem_cons, ih, or_self_left]
    · rw [List.mem_cons, List.mem_cons, ih]

theorem mem_field {c : Char} {text : List Char} (h : c ∈ field text) :
    c ∈ text ∨ c.val < 0x80 := by
  unfold field at h
  split at h
  · rw [List.cons_append, List.mem_cons, List.mem_append, List.mem_singleton] at h
    rcases h with rfl | h | rfl
    · exact .inr (by decide)
    · exact .inl (mem_doubled.1 h)
    · exact .inr (by decide)
  · exact .inl h

theorem mem_field_of_mem {c : Char} {text : List Char} (h : c ∈ text) : c ∈ field text := by
  unfold field
  split
  · exact List.mem_cons_of_mem _ (List.mem_append_left _ (mem_doubled.2 h))
  · exact h

/-- A row has the characters of its fields, and ASCII. -/
theorem mem_row {c : Char} {fields : List (List Char)} (h : c ∈ row fields) :
    (∃ f ∈ fields, c ∈ f) ∨ c.val < 0x80 := by
  unfold row at h
  rcases List.mem_append.1 h with h | h
  · split at h
    · rcases List.mem_pair.1 h with rfl | rfl <;> exact .inr (by decide)
    · rcases Text.mem_intercalate h with h | ⟨_, hf, h⟩
      · rw [List.mem_singleton.1 h]
        exact .inr (by decide)
      · obtain ⟨f, hmem, rfl⟩ := List.mem_map.1 hf
        exact (mem_field h).imp (fun h => ⟨f, hmem, h⟩) id
  · rcases List.mem_pair.1 h with rfl | rfl <;> exact .inr (by decide)

theorem mem_row_of_mem {c : Char} {f : List Char} {fields : List (List Char)} (hf : f ∈ fields)
    (h : c ∈ f) : c ∈ row fields := by
  unfold row
  refine List.mem_append_left _ ?_
  rw [if_neg]
  · exact Text.mem_intercalate_of_mem (List.mem_map_of_mem hf) (mem_field_of_mem h)
  · rintro rfl
    rw [List.mem_singleton.1 hf] at h
    exact absurd h List.not_mem_nil

end Csv

namespace Medium

variable {m : Medium} {a b : List Char}

theorem canHold_iff : m.canHold a = true ↔ ∀ c ∈ a, c ∉ m.strays := by
  simp [canHold]

@[simp] theorem canHold_nil : m.canHold [] = true := rfl

/-- Where ASCII alone is added, nothing is added that could not be held. -/
theorem canHold_of_mem (ha : m.canHold a = true) (h : ∀ c ∈ b, c ∈ a ∨ c.val < 0x80) :
    m.canHold b = true := by
  refine canHold_iff.2 fun c hc hstray => ?_
  rcases h c hc with hc | hc
  · exact canHold_iff.1 ha c hc hstray
  · exact absurd (m.strays_high c hstray) (UInt32.not_le.2 hc)

theorem canHold_of_isAscii (h : Text.IsAscii a) : m.canHold a = true :=
  canHold_of_mem canHold_nil fun c hc => .inr (h c hc)

theorem canHold_quoted {s : String} (h : m.canHold s.toList = true) :
    m.canHold (Text.quoted s).toList = true :=
  canHold_of_mem h fun _ => Text.mem_quoted

theorem canHold_row {fields : List (List Char)} :
    m.canHold (Csv.row fields) = true ↔ ∀ f ∈ fields, m.canHold f = true := by
  refine ⟨fun h f hf => ?_, fun h => canHold_iff.2 fun c hc hstray => ?_⟩
  · exact canHold_iff.2 fun c hc => canHold_iff.1 h c (Csv.mem_row_of_mem hf hc)
  · rcases Csv.mem_row hc with ⟨f, hf, hc⟩ | hc
    · exact canHold_iff.1 (h f hf) c hc hstray
    · exact absurd (m.strays_high c hstray) (UInt32.not_le.2 hc)

end Medium

/-- The fault is that the file at a path could not be read or written. -/
def Fault.Blocks (path : String) (f : Fault) : Prop :=
  (∃ e, f = .os e path) ∨ ∃ e, f = .undecodable e

namespace Fault.Blocks

variable {path : String} {f : Fault}

theorem isFileTrouble (h : f.Blocks path) : f.isFileTrouble = true := by
  obtain ⟨e, rfl⟩ | ⟨e, rfl⟩ := h <;> rfl

/-- The message can be held if the path can. -/
theorem canHold {m : Medium} (h : f.Blocks path) (hp : m.canHold path.toList = true) :
    m.canHold f.message.toList = true := by
  obtain ⟨e, rfl⟩ | ⟨e, rfl⟩ := h
  · have wording : Text.IsAscii (e.wording ++ ": ").toList := by
      cases e <;> decide
    refine Medium.canHold_of_mem (Medium.canHold_quoted hp) fun c hc => ?_
    have hmessage : (Fault.os e path).message = e.wording ++ ": " ++ Text.quoted path := rfl
    rw [hmessage, String.toList_append, List.mem_append] at hc
    exact hc.symm.imp id (wording c)
  · exact Medium.canHold_of_isAscii e.isAscii_message

end Fault.Blocks

end ConsoleSweep
