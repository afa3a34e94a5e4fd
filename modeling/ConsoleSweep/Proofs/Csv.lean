/-
  Rows come back from their texts.

  A reader that has read the text of a field has the field, and stands where a comma or a line
  break ends it (`Reader.Has`); this is so for a field in quotes and for one without them
  (`has_field`). A row is then read field by field (`foldl_fields`), and a text row by row
  (`parse_flatMap_row`).
-/
import ConsoleSweep.Csv

namespace ConsoleSweep.Csv

variable {r s : Reader} {text : List Char}

/-! ## Fields -/

/-- The reader has read a field since it was `r`, and is outside of quotes. -/
structure Reader.Has (r : Reader) (text : List Char) (s : Reader) : Prop where
  outside : s.state = .start ∨ s.state = .plain ∨ s.state = .quote
  field : s.field = text.reverse ++ r.field
  fields : s.fields = r.fields
  rows : s.rows = r.rows
  begun : r.begun = true ∨ text ≠ [] → s.begun = true

theorem Reader.Has.step_comma (h : r.Has text s) : s.step ',' = s.endField := by
  rcases h.outside with hs | hs | hs <;> simp [Reader.step, Reader.outside, hs]

theorem Reader.Has.step_return (h : r.Has text s) : s.step '\r' = s.endRow .afterReturn := by
  rcases h.outside with hs | hs | hs <;> simp [Reader.step, Reader.outside, hs]

theorem step_plain {c : Char} (hs : r.state = .start ∨ r.state = .plain)
    (hc : needsQuotes c = false) : r.step c = r.take .plain c := by
  simp only [needsQuotes, Bool.or_eq_false_iff, beq_eq_false_iff_ne] at hc
  rcases hs with hs | hs <;> simp [Reader.step, Reader.outside, hs, hc]

/-- A field without quotes is read as it is. -/
theorem has_plain (hs : r.state = .start ∨ r.state = .plain)
    (hplain : ∀ c ∈ text, needsQuotes c = false) : r.Has text (text.foldl Reader.step r) := by
  induction text generalizing r with
  | nil => exact ⟨hs.imp_right .inl, rfl, rfl, rfl, fun h => h.resolve_right (absurd rfl)⟩
  | cons c text ih =>
    obtain ⟨hc, hplain⟩ := List.forall_mem_cons.1 hplain
    rw [List.foldl_cons, step_plain hs hc]
    have h := ih (r := r.take .plain c) (.inr rfl) hplain
    have hfield : (text.foldl Reader.step (r.take .plain c)).field =
        (c :: text).reverse ++ r.field :=
      h.field.trans (by simp [Reader.take])
    exact ⟨h.outside, hfield, h.fields, h.rows, fun _ => h.begun (.inl rfl)⟩

/-- Between quotes, quotes are read in pairs. -/
theorem foldl_doubled (hs : r.state = .quoted) (hb : r.begun = true) :
    (doubled text).foldl Reader.step r = { r with field := text.reverse ++ r.field } := by
  induction text generalizing r with
  | nil => rfl
  | cons c text ih =>
    unfold doubled
    split
    · next hc =>
      subst hc
      have hpair : (r.step '"').step '"' = r.take .quoted '"' := by
        simp [Reader.step, Reader.take, hs]
      rw [List.foldl_cons, List.foldl_cons, hpair, ih rfl rfl]
      simp [Reader.take, hs, hb]
    · next hc =>
      have hone : r.step c = r.take .quoted c := by simp [Reader.step, hs, hc]
      rw [List.foldl_cons, hone, ih rfl rfl]
      simp [Reader.take, hs, hb]

/-- A field is read from its text, with quotes or without. -/
theorem has_field (hs : r.state = .start) (text : List Char) :
    r.Has text ((field text).foldl Reader.step r) := by
  unfold field
  split
  · have hopen : r.step '"' = { r with state := .quoted, begun := true } := by
      simp [Reader.step, hs]
    rw [List.cons_append, List.foldl_cons, hopen, List.foldl_append, foldl_doubled rfl rfl]
    exact ⟨.inr (.inr rfl), rfl, rfl, rfl, fun _ => rfl⟩
  · next hquotes =>
    refine has_plain (.inl hs) fun c hc => ?_
    simpa using fun h => hquotes (List.any_eq_true.2 ⟨c, hc, h⟩)

/-! ## Rows -/

/-- A reader between two rows. -/
def Reader.between (rows : List (List (List Char))) : Reader :=
  ⟨.start, false, [], [], rows⟩

/-- The fields of a row are read one after the other, up to the end of the row. -/
theorem foldl_fields {first : List Char} {more : List (List Char)} (hs : r.state = .start)
    (hf : r.field = []) (hb : r.begun = true ∨ first ≠ [] ∨ more ≠ []) :
    ([','].intercalate ((first :: more).map field) ++ ['\r', '\n']).foldl Reader.step r =
      .between ((r.fields.reverse ++ first :: more) :: r.rows) := by
  induction more generalizing r first with
  | nil =>
    have hhas := has_field hs first
    have hbegun := hhas.begun (hb.imp_right fun h => h.resolve_right (absurd rfl))
    rw [List.map_singleton, List.intercalate_singleton, List.foldl_append, List.foldl_cons,
      hhas.step_return]
    simp [Reader.endRow, Reader.endField, Reader.step, Reader.between, hbegun, hhas.field, hf,
      hhas.fields, hhas.rows]
  | cons second more ih =>
    have hhas := has_field hs first
    rw [List.map_cons, List.map_cons, List.intercalate_cons_cons, List.append_assoc,
      List.append_assoc, List.foldl_append, List.foldl_append, List.foldl_cons, List.foldl_nil,
      hhas.step_comma, ← List.map_cons, ih rfl rfl (.inl rfl)]
    simp [Reader.endField, hhas.field, hf, hhas.fields, hhas.rows]

/-- A row is read from its text. -/
theorem foldl_row (fields : List (List Char)) (rows : List (List (List Char))) :
    (row fields).foldl Reader.step (.between rows) = .between (fields :: rows) := by
  unfold row
  split
  · next h =>
    subst h
    rfl
  · next h =>
    cases fields with
    | nil => rfl
    | cons first more =>
      refine foldl_fields rfl rfl (.inr ?_)
      by_cases hfirst : first = []
      · subst hfirst
        exact .inr fun hmore => h (by rw [hmore])
      · exact .inl hfirst

/-- Rows come back from their texts, whatever is in their fields. -/
theorem parse_flatMap_row (rows : List (List (List Char))) : parse (rows.flatMap row) = rows := by
  have hread : ∀ before, (rows.flatMap row).foldl Reader.step (.between before) =
      .between (rows.reverse ++ before) := by
    induction rows with
    | nil => exact fun _ => rfl
    | cons fields rows ih =>
      intro before
      rw [List.flatMap_cons, List.foldl_append, foldl_row, ih]
      simp
  have hparse := hread []
  unfold parse
  rw [show Reader.initial = .between [] from rfl, hparse]
  simp [Reader.between]

end ConsoleSweep.Csv
