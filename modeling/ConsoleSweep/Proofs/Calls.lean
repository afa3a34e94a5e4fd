/-
  The calls that are listed are the heads in the text.

  A search lists matches that lie apart, and goes on behind the one it found, so it could
  pass over a head that starts inside of another one, and where the names leave a choice it
  follows the first. For plain names neither happens: a head has one way to be read, and no
  second one starts in it (`length_le_of_mem_heads`). So every head in the text is listed,
  just once, and nothing else is (`calls_exact`).
-/
import ConsoleSweep.Proofs.Removal.Keyword

namespace ConsoleSweep.Text

/-! ## Spans of a search -/

/-- A place where the matcher finds something is under a span of the search. -/
theorem covered_of_isSome {m : Matcher} (adv : Advances m) {x z : List Char}
    (h : (m (behind none x) z).isSome = true) : Covered (findAll m (x ++ z)) x.length := by
  obtain ⟨g, hg, hhere, hrest⟩ := exists_hit_of_isSome adv rfl h
  refine ⟨g.span (x ++ z).length, ?_, ?_⟩
  · rw [findAll_eq adv]
    exact List.mem_map_of_mem hg
  · simp only [Hit.span, List.length_append]
    omega

theorem apart_findAll {m : Matcher} (adv : Advances m) (text : List Char) :
    Apart (findAll m text) := by
  have hparts := (parts_hits adv none text).apart 0
  rw [Nat.zero_add] at hparts
  rw [findAll_eq adv]
  exact hparts

/-- A span of a text has some of it before, under and behind it. -/
theorem Span.exists_split {text : List Char} {s : Span} (h : s.start ≤ s.stop)
    (hstop : s.stop ≤ text.length) :
    ∃ x y z, text = x ++ (y ++ z) ∧ s = ⟨x.length, x.length + y.length⟩ := by
  obtain ⟨start, stop⟩ := s
  simp only at h hstop
  refine ⟨text.take start, (text.drop start).take (stop - start), text.drop stop, ?_, ?_⟩
  · have hdrop : text.drop stop = (text.drop start).drop (stop - start) := by
      rw [List.drop_drop, Nat.add_sub_cancel' h]
    rw [hdrop, List.take_append_drop, List.take_append_drop]
  · simp only [List.length_take, List.length_drop, Span.mk.injEq]
    omega

theorem behind_eq_getLast? (text : List Char) : behind none text = text.getLast? := by
  rcases List.eq_nil_or_concat text with rfl | ⟨before, c, rfl⟩
  · rfl
  · rw [List.concat_eq_append, behind_concat, List.getLast?_concat]

end ConsoleSweep.Text

namespace ConsoleSweep.Call

open ConsoleSweep.Text

/-! ## Listed calls -/

/-- Without names there are no calls, so that case needs no rule of its own. -/
theorem calls_eq (methods : List String) (text : List Char) :
    calls methods text = findAll (head (normalizeNames methods)) text := by
  unfold calls
  split
  · next h =>
    have hnone : hits (head (normalizeNames methods)) none text = [] := by
      refine hits_head_eq_nil.2 ?_
      rintro ⟨x, z, r, -, hr⟩
      obtain ⟨-, name, hname, -⟩ := mem_heads_iff.1 hr
      rw [List.isEmpty_iff.1 h] at hname
      cases hname
    rw [findAll_eq (advances_head _), hnone]
    rfl
  · rfl

theorem exists_of_mem_calls {methods : List String} {text : List Char} {s : Span}
    (h : s ∈ calls methods text) :
    ∃ x y z, text = x ++ (y ++ z) ∧ s = ⟨x.length, x.length + y.length⟩ ∧
      z ∈ heads (normalizeNames methods) (behind none x) (y ++ z) := by
  rw [calls_eq] at h
  obtain ⟨x, y, z, e, -, hs, hm⟩ := mem_findAll (advances_head _) h
  exact ⟨x, y, z, e, hs, head_eq_some hm⟩

/-- For plain names, a call is listed wherever there is a head. -/
theorem exists_call_of_mem_heads {methods : List String} (hw : Wordy (normalizeNames methods))
    {x y z : List Char} (h : z ∈ heads (normalizeNames methods) (behind none x) (y ++ z)) :
    ⟨x.length, x.length + y.length⟩ ∈ calls methods (x ++ (y ++ z)) := by
  obtain ⟨s, hs, hstart, hstop⟩ :=
    covered_of_isSome (advances_head _) (head_isSome_iff.2 ⟨z, h⟩)
  rw [← calls_eq] at hs
  obtain ⟨u, v, w, e, rfl, hu⟩ := exists_of_mem_calls hs
  simp only at hstart hstop
  obtain ⟨t, rfl⟩ : u <+: x :=
    List.prefix_of_prefix_length_le ⟨_, e.symm⟩ (List.prefix_append _ _) hstart
  have e' : v ++ w = t ++ (y ++ z) := by
    rw [List.append_assoc] at e
    exact (List.append_cancel_left e).symm
  cases t with
  | nil =>
    rw [List.append_nil] at hs h ⊢
    rw [List.nil_append] at e'
    -- Both heads are at the same place, and for plain names there is one way to read it.
    obtain rfl : w = z := Removal.heads_unique hw (e' ▸ hu) h
    rwa [List.append_cancel_right e'] at hs
  | cons c t =>
    rw [e'] at hu
    rw [behind_append] at h
    have hle := length_le_of_mem_heads hw (List.cons_ne_nil c t) hu h
    have hlen := congrArg List.length e'
    simp only [List.length_append, List.length_cons] at hlen hle hstop
    omega

/-! ## Heads at their places -/

theorem startsWord_iff {prev : Option Char} :
    startsWord prev = true ↔ ∀ c ∈ prev, isWord c = false ∧ c ≠ '$' := by
  cases prev with
  | none => simp [startsWord]
  | some c => simp [startsWord]

/-- The head of a call at a span of the text: no character of a word comes before it, and under it
are the keyword, a point, one of the names as it is used and a parenthesis, with whitespace around
the point and before the parenthesis. -/
structure HeadAt (methods : List String) (text : List Char) (s : Span) : Prop where
  within : s.stop ≤ text.length
  free : ∀ c ∈ (text.take s.start).getLast?, isWord c = false ∧ c ≠ '$'
  reads : ∃ name ∈ methods.map trimmed, name ≠ "" ∧
    ∃ b₁ b₂ b₃, Blank b₁ ∧ Blank b₂ ∧ Blank b₃ ∧ s.slice text = headText b₁ b₂ b₃ name

theorem wordy_of_trimmed {methods : List String} (hw : Wordy (methods.map trimmed)) :
    Wordy (normalizeNames methods) :=
  fun name hname => hw name (mem_normalizeNames.1 hname).1

theorem headAt_of_mem_calls {methods : List String} {text : List Char} {s : Span}
    (h : s ∈ calls methods text) : HeadAt methods text s := by
  obtain ⟨x, y, z, rfl, rfl, hz⟩ := exists_of_mem_calls h
  obtain ⟨hstart, name, hname, -, b₁, b₂, b₃, h₁, h₂, h₃, e⟩ := mem_heads_iff.1 hz
  obtain ⟨hmem, hne⟩ := mem_normalizeNames.1 hname
  refine ⟨?_, ?_, name, hmem, hne, b₁, b₂, b₃, h₁, h₂, h₃, ?_⟩
  · simp only [List.length_append]
    omega
  · rw [behind_eq_getLast?] at hstart
    rw [List.take_left]
    exact startsWord_iff.1 hstart
  · rw [slice_append, List.append_cancel_right e]

theorem mem_calls_of_headAt {methods : List String} (hw : Wordy (methods.map trimmed))
    {text : List Char} {s : Span} (h : HeadAt methods text s) : s ∈ calls methods text := by
  obtain ⟨name, hmem, hne, b₁, b₂, b₃, h₁, h₂, h₃, e⟩ := h.reads
  have hle : s.start ≤ s.stop := by
    by_contra hlt
    have hnil : s.slice text = [] := by
      rw [Span.slice, Nat.sub_eq_zero_of_le (by omega), List.take_zero]
    exact headText_ne_nil b₁ b₂ b₃ name (e ▸ hnil)
  obtain ⟨x, y, z, rfl, rfl⟩ := Span.exists_split hle h.within
  have hfree := h.free
  rw [List.take_left, ← behind_eq_getLast?] at hfree
  rw [slice_append] at e
  have hw' := wordy_of_trimmed hw
  have hname : name ∈ normalizeNames methods := mem_normalizeNames.2 ⟨hmem, hne⟩
  refine exists_call_of_mem_heads hw' (mem_heads_iff.2 ⟨startsWord_iff.2 hfree, name, hname,
    hw'.startsSolid hname, b₁, b₂, b₃, h₁, h₂, h₃, ?_⟩)
  rw [e]

/-- For plain names the calls are exactly the heads in the text; they are listed in their order and
lie apart, so none comes twice, and they are what is counted. -/
theorem calls_exact (methods : List String) (text : List Char)
    (hw : Wordy (methods.map trimmed)) :
    (∀ s, s ∈ calls methods text ↔ HeadAt methods text s) ∧ Apart (calls methods text) ∧
      count methods text = (calls methods text).length := by
  refine ⟨fun s => ⟨headAt_of_mem_calls, mem_calls_of_headAt hw⟩, ?_, rfl⟩
  rw [calls_eq]
  exact apart_findAll (advances_head _) text

/-- Heads with whitespace in them, and a longer word that ends with the keyword. -/
def mixedHeads : List Char :=
  "console\n . timeEnd (1); window.console.time(2); ".toList ++
    "myconsole.time(3); console.\t$log(4);".toList

/-- Of two names the first begins the second; two others are the same without their blanks. -/
theorem calls_exact_mixedHeads :
    Wordy ([" time", "timeEnd", "$log ", "time", ""].map trimmed) ∧
      calls [" time", "timeEnd", "$log ", "time", ""] mixedHeads =
        [⟨0, 20⟩, ⟨31, 44⟩, ⟨67, 81⟩] ∧
      ∀ s, HeadAt [" time", "timeEnd", "$log ", "time", ""] mixedHeads s →
        s = ⟨0, 20⟩ ∨ s = ⟨31, 44⟩ ∨ s = ⟨67, 81⟩ := by
  have hw : Wordy ([" time", "timeEnd", "$log ", "time", ""].map trimmed) :=
    wordy_of_all (by decide +kernel)
  have hcalls : calls [" time", "timeEnd", "$log ", "time", ""] mixedHeads =
      [⟨0, 20⟩, ⟨31, 44⟩, ⟨67, 81⟩] := by decide +kernel
  refine ⟨hw, hcalls, fun s hs => ?_⟩
  have hlisted := ((calls_exact _ mixedHeads hw).1 s).2 hs
  rw [hcalls] at hlisted
  simpa using hlisted

end ConsoleSweep.Call
