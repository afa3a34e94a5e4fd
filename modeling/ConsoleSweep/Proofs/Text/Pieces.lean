/-
  Texts and their pieces.

  A separator divides the pieces of a text (`pieces_append`), and no piece has one in it, so
  an argument about the pieces goes from one separator to the next (`pieces_induction`). The
  pieces joined again make the text (`intercalate_pieces`), so they tell it from any other.
-/
import Mathlib.Data.List.Basic
import ConsoleSweep.Text.Basic

namespace ConsoleSweep.Text

variable {sep : Char} {a b : List Char}

theorem pieces_ne_nil (sep : Char) (text : List Char) : pieces sep text ≠ [] := by
  cases text with
  | nil => simp [pieces]
  | cons c cs =>
    unfold pieces
    split
    · simp
    · split <;> simp

theorem pieces_of_not_mem (h : sep ∉ a) : pieces sep a = [a] := by
  induction a with
  | nil => rfl
  | cons c cs ih =>
    have hc : c ≠ sep := fun e => h (e ▸ List.mem_cons_self)
    rw [pieces, if_neg hc, ih fun hm => h (List.mem_cons_of_mem _ hm)]

/-- A separator divides the pieces. -/
theorem pieces_append (sep : Char) (a b : List Char) :
    pieces sep (a ++ sep :: b) = pieces sep a ++ pieces sep b := by
  induction a with
  | nil => simp [pieces]
  | cons c cs ih =>
    rw [List.cons_append, pieces, pieces, ih]
    split
    · rfl
    · cases hp : pieces sep cs with
      | nil => exact absurd hp (pieces_ne_nil sep cs)
      | cons p ps => rfl

theorem not_mem_of_mem_pieces {p : List Char} (h : p ∈ pieces sep a) : sep ∉ p := by
  induction a generalizing p with
  | nil =>
    rw [pieces, List.mem_singleton] at h
    simp [h]
  | cons c cs ih =>
    rw [pieces] at h
    split at h
    · rcases List.mem_cons.1 h with rfl | h
      · simp
      · exact ih h
    · next hc =>
      split at h
      · next hp => exact absurd hp (pieces_ne_nil sep cs)
      · next q ps hp =>
        rw [hp] at ih
        rcases List.mem_cons.1 h with rfl | h
        · intro hm
          rcases List.mem_cons.1 hm with rfl | hm
          · exact hc rfl
          · exact ih List.mem_cons_self hm
        · exact ih (List.mem_cons_of_mem _ h)

/-- The characters of a text are those of its pieces, and the separator. -/
theorem mem_pieces_of_mem (sep : Char) {c : Char} (h : c ∈ a) (hc : c ≠ sep) :
    ∃ p ∈ pieces sep a, c ∈ p := by
  induction a with
  | nil => simp at h
  | cons x cs ih =>
    rw [pieces]
    rcases List.mem_cons.1 h with rfl | h
    · rw [if_neg hc]
      split
      · exact ⟨[c], by simp, by simp⟩
      · exact ⟨_, List.mem_cons_self, List.mem_cons_self⟩
    · obtain ⟨p, hp, hcp⟩ := ih h
      split
      · exact ⟨p, List.mem_cons_of_mem _ hp, hcp⟩
      · split
        · next hnil => exact absurd hnil (pieces_ne_nil sep cs)
        · next q ps hq =>
          rw [hq] at hp
          rcases List.mem_cons.1 hp with rfl | hp
          · exact ⟨_, List.mem_cons_self, List.mem_cons_of_mem _ hcp⟩
          · exact ⟨p, List.mem_cons_of_mem _ hp, hcp⟩

/-- Parts without a separator are the pieces of the text that they are joined to. -/
theorem pieces_intercalate {parts : List (List Char)} (hne : parts ≠ [])
    (h : ∀ part ∈ parts, sep ∉ part) : pieces sep ([sep].intercalate parts) = parts := by
  induction parts with
  | nil => exact absurd rfl hne
  | cons part rest ih =>
    obtain ⟨hpart, hrest⟩ := List.forall_mem_cons.1 h
    cases rest with
    | nil => rw [List.intercalate_singleton, pieces_of_not_mem hpart]
    | cons next rest =>
      rw [List.intercalate_cons_cons, List.append_assoc, List.singleton_append, pieces_append,
        pieces_of_not_mem hpart, ih (List.cons_ne_nil _ _) hrest, List.singleton_append]

theorem pieces_cons {c : Char} (hc : c ≠ sep) {p : List Char} {ps : List (List Char)}
    (h : pieces sep a = p :: ps) : pieces sep (c :: a) = (c :: p) :: ps := by
  rw [pieces, if_neg hc, h]

/-- Characters other than the separator belong to the first piece of what follows them. -/
theorem pieces_append_of_not_mem (ha : sep ∉ a) {p : List Char} {ps : List (List Char)}
    (h : pieces sep b = p :: ps) : pieces sep (a ++ b) = (a ++ p) :: ps := by
  induction a with
  | nil => exact h
  | cons c cs ih =>
    rw [List.mem_cons, not_or] at ha
    exact pieces_cons (Ne.symm ha.1) (ih ha.2)

/-- Induction from separator to separator. -/
theorem pieces_induction (sep : Char) {P : List Char → Prop} (last : ∀ p, sep ∉ p → P p)
    (next : ∀ p rest, sep ∉ p → P rest → P (p ++ sep :: rest)) (text : List Char) : P text := by
  -- What has been read of the first piece is kept in front of the text.
  have ahead : ∀ p, sep ∉ p → P (p ++ text) := by
    induction text with
    | nil =>
      intro p hp
      rw [List.append_nil]
      exact last p hp
    | cons c cs ih =>
      intro p hp
      by_cases hc : c = sep
      · subst hc
        exact next p cs hp (ih [] (by simp))
      · have hp' : sep ∉ p ++ [c] := by simp [hp, Ne.symm hc]
        have hcs := ih (p ++ [c]) hp'
        rwa [List.append_assoc] at hcs
  exact ahead [] (by simp)

/-- A text is its first piece, or goes on behind it with a separator. -/
theorem exists_of_pieces {p : List Char} {ps : List (List Char)} (h : pieces sep a = p :: ps) :
    sep ∉ p ∧ (a = p ∨ ∃ rest, a = p ++ sep :: rest) := by
  refine ⟨not_mem_of_mem_pieces (h ▸ List.mem_cons_self), ?_⟩
  induction a using pieces_induction sep with
  | last q hq =>
    rw [pieces_of_not_mem hq] at h
    exact .inl (List.cons.inj h).1
  | next q rest hq _ =>
    rw [pieces_append, pieces_of_not_mem hq] at h
    exact .inr ⟨rest, by rw [← (List.cons.inj h).1]⟩

/-- The pieces of a text, joined again, are the text. -/
theorem intercalate_pieces (sep : Char) (text : List Char) :
    [sep].intercalate (pieces sep text) = text := by
  induction text using pieces_induction sep with
  | last p hp => rw [pieces_of_not_mem hp, List.intercalate_singleton]
  | next p rest hp ih =>
    obtain ⟨q, qs, hq⟩ := List.exists_cons_of_ne_nil (pieces_ne_nil sep rest)
    rw [hq] at ih
    rw [pieces_append, pieces_of_not_mem hp, hq, List.singleton_append,
      List.intercalate_cons_cons, ih, List.append_assoc, List.singleton_append]

theorem pieces_injective (h : pieces sep a = pieces sep b) : a = b := by
  rw [← intercalate_pieces sep a, h, intercalate_pieces]

end ConsoleSweep.Text
