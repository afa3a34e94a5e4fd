/-
  Objects by their keys.

  Fields that are set on others are told by what is found under each key
  (`lookup_overlay`): the field on top if there is one, and the field below it else. A value
  is `Distinct` if all objects in it have each key once. What is parsed is such a value,
  whatever the text says (`distinct_of_parse`).
-/
import ConsoleSweep.Json.Parser

namespace ConsoleSweep.Json

variable {key k : String} {value v : Json} {f : String × Json} {vs : List Json}
  {fs base top : List (String × Json)}

/-- Each key comes once. -/
def KeyedOnce (fs : List (String × Json)) : Prop :=
  (fs.map (·.1)).Nodup

instance (fs : List (String × Json)) : Decidable (KeyedOnce fs) :=
  inferInstanceAs (Decidable (List.Nodup _))

theorem keyedOnce_nil : KeyedOnce [] :=
  List.nodup_nil

theorem keyedOnce_cons : KeyedOnce (f :: fs) ↔ (∀ g ∈ fs, g.1 ≠ f.1) ∧ KeyedOnce fs := by
  unfold KeyedOnce
  rw [List.map_cons, List.nodup_cons]
  refine and_congr_left fun _ => ⟨fun h g hg he => ?_, fun h hmem => ?_⟩
  · exact h (he ▸ List.mem_map_of_mem hg)
  · obtain ⟨g, hg, he⟩ := List.mem_map.1 hmem
    exact h g hg he

theorem KeyedOnce.filter (h : KeyedOnce fs) (p : String × Json → Bool) :
    KeyedOnce (fs.filter p) :=
  List.Nodup.sublist (List.filter_sublist.map _) h

/-! ## Setting fields -/

theorem lookup_setField (key : String) (value : Json) (fs : List (String × Json)) (k : String) :
    (setField key value fs).lookup k = if k = key then some value else fs.lookup k := by
  induction fs with
  | nil =>
    by_cases h : k = key
    · simp [setField, h]
    · simp [setField, List.lookup_cons, h, beq_false_of_ne h]
  | cons f fs ih =>
    obtain ⟨name, old⟩ := f
    unfold setField
    by_cases hname : name = key
    · subst hname
      by_cases h : k = name
      · simp [h]
      · simp [List.lookup_cons, h, beq_false_of_ne h]
    · rw [if_neg hname]
      by_cases h : k = name
      · subst h
        simp [hname]
      · simp only [List.lookup_cons, beq_false_of_ne h, ih]

theorem mem_of_mem_setField (h : f ∈ setField key value fs) : f = (key, value) ∨ f ∈ fs := by
  induction fs with
  | nil => exact .inl (List.mem_singleton.1 h)
  | cons g fs ih =>
    unfold setField at h
    split at h
    · next hg =>
      rcases List.mem_cons.1 h with rfl | h
      · exact .inl (by rw [hg])
      · exact .inr (List.mem_cons_of_mem _ h)
    · rcases List.mem_cons.1 h with rfl | h
      · exact .inr List.mem_cons_self
      · exact (ih h).imp_right (List.mem_cons_of_mem _)

theorem KeyedOnce.setField (h : KeyedOnce fs) (key : String) (value : Json) :
    KeyedOnce (setField key value fs) := by
  induction fs with
  | nil => exact keyedOnce_cons.2 ⟨by simp, keyedOnce_nil⟩
  | cons g fs ih =>
    obtain ⟨hg, hfs⟩ := keyedOnce_cons.1 h
    unfold Json.setField
    split
    · exact keyedOnce_cons.2 ⟨hg, hfs⟩
    · next hne =>
      refine keyedOnce_cons.2 ⟨fun e he => ?_, ih hfs⟩
      rcases mem_of_mem_setField he with rfl | he
      · exact Ne.symm hne
      · exact hg e he

/-- To set a field and to leave fields out by their keys go in either order. -/
theorem filter_setField (p : String → Bool) (key : String) (value : Json)
    (fs : List (String × Json)) : (setField key value fs).filter (fun f => p f.1) =
      if p key then setField key value (fs.filter fun f => p f.1)
      else fs.filter fun f => p f.1 := by
  induction fs with
  | nil => cases hp : p key <;> simp [setField, hp]
  | cons g fs ih =>
    rw [setField]
    by_cases hg : g.1 = key
    · subst hg
      cases hp : p g.1 <;> simp [hp, setField]
    · rw [if_neg hg]
      cases hq : p g.1 with
      | false => simp [hq, ih]
      | true => cases hp : p key <;> simp [hq, hp, ih, setField, hg]

/-! ## Fields on top of others -/

theorem overlay_cons (base : List (String × Json)) (f : String × Json)
    (fs : List (String × Json)) : overlay base (f :: fs) = overlay (setField f.1 f.2 base) fs :=
  rfl

theorem lookup_eq_none_of_keys (h : ∀ g ∈ fs, g.1 ≠ k) : fs.lookup k = none := by
  refine List.lookup_eq_none_iff.2 fun g hg => ?_
  exact bne_iff_ne.2 (Ne.symm (h g hg))

theorem mem_of_lookup (h : fs.lookup k = some v) : (k, v) ∈ fs := by
  obtain ⟨l₁, l₂, rfl, -⟩ := List.lookup_eq_some_iff.1 h
  simp

/-- What is on top is found, and what is below where there is nothing on top. -/
theorem lookup_overlay (h : KeyedOnce top) (base : List (String × Json)) (k : String) :
    (overlay base top).lookup k = (top.lookup k).or (base.lookup k) := by
  induction top generalizing base with
  | nil => rfl
  | cons f top ih =>
    obtain ⟨hf, htop⟩ := keyedOnce_cons.1 h
    rw [overlay_cons, ih htop, lookup_setField]
    obtain ⟨name, value⟩ := f
    by_cases hk : k = name
    · subst hk
      simp [lookup_eq_none_of_keys hf]
    · rw [if_neg hk, List.lookup_cons, beq_false_of_ne hk]

theorem mem_of_mem_overlay (h : f ∈ overlay base top) : f ∈ top ∨ f ∈ base := by
  induction top generalizing base with
  | nil => exact .inr h
  | cons g top ih =>
    rw [overlay_cons] at h
    rcases ih h with h | h
    · exact .inl (List.mem_cons_of_mem _ h)
    · rcases mem_of_mem_setField h with rfl | h
      · exact .inl List.mem_cons_self
      · exact .inr h

theorem KeyedOnce.overlay (h : KeyedOnce base) (top : List (String × Json)) :
    KeyedOnce (overlay base top) := by
  induction top generalizing base with
  | nil => exact h
  | cons f top ih => exact ih (h.setField f.1 f.2)

theorem filter_overlay (p : String → Bool) (base top : List (String × Json)) :
    (overlay base top).filter (fun f => p f.1) =
      overlay (base.filter fun f => p f.1) (top.filter fun f => p f.1) := by
  induction top generalizing base with
  | nil => rfl
  | cons f top ih =>
    rw [overlay_cons, ih, filter_setField]
    cases hp : p f.1 with
    | true => simp [hp, overlay_cons]
    | false => simp [hp]

theorem setField_of_new (h : ∀ b ∈ base, b.1 ≠ key) :
    setField key value base = base ++ [(key, value)] := by
  induction base with
  | nil => rfl
  | cons b base ih =>
    obtain ⟨hne, hb⟩ := List.forall_mem_cons.1 h
    rw [setField, if_neg hne, ih hb]
    rfl

/-- Setting fields with new keys puts them behind the others. -/
theorem overlay_eq_append (h : KeyedOnce fs) (hb : ∀ f ∈ fs, ∀ b ∈ base, b.1 ≠ f.1) :
    overlay base fs = base ++ fs := by
  induction fs generalizing base with
  | nil => simp [overlay]
  | cons f fs ih =>
    obtain ⟨hf, hfs⟩ := keyedOnce_cons.1 h
    obtain ⟨hnew, hb⟩ := List.forall_mem_cons.1 hb
    rw [overlay_cons, setField_of_new hnew, ih hfs]
    · simp
    · intro g hg b hbm
      rcases List.mem_append.1 hbm with hbm | hbm
      · exact hb g hg b hbm
      · obtain rfl : b = f := by simpa using hbm
        exact Ne.symm (hf g hg)

/-! ## Values whose objects have each key once -/

mutual

/-- All objects in the value have each key once. -/
def Distinct : Json → Prop
  | .arr items => DistinctItems items
  | .obj fields => KeyedOnce fields ∧ DistinctFields fields
  | _ => True

/-- `Distinct` for each item. -/
def DistinctItems : List Json → Prop
  | [] => True
  | v :: vs => Distinct v ∧ DistinctItems vs

/-- `Distinct` for the value of each field. -/
def DistinctFields : List (String × Json) → Prop
  | [] => True
  | (_, v) :: fs => Distinct v ∧ DistinctFields fs

end

theorem distinctItems_iff : DistinctItems vs ↔ ∀ v ∈ vs, Distinct v := by
  induction vs with
  | nil => simp [DistinctItems]
  | cons v vs ih => simp [DistinctItems, ih]

theorem distinctFields_iff : DistinctFields fs ↔ ∀ f ∈ fs, Distinct f.2 := by
  induction fs with
  | nil => simp [DistinctFields]
  | cons f fs ih => simp [DistinctFields, ih]

theorem distinct_overlay (h : DistinctFields fs) : Distinct (.obj (overlay [] fs)) := by
  refine ⟨keyedOnce_nil.overlay fs, distinctFields_iff.2 fun f hf => ?_⟩
  rcases mem_of_mem_overlay hf with hf | hf
  · exact distinctFields_iff.1 h f hf
  · simp at hf

/-! ## What is parsed -/

variable {text rest : List Char} {fuel depth : Nat}

theorem distinct_of_readWord? (h : readWord? text = some (v, rest)) : Distinct v := by
  obtain ⟨⟨word, value⟩, hmem, hw⟩ := List.exists_of_findSome?_eq_some h
  obtain ⟨tail, -, heq⟩ := Option.map_eq_some_iff.1 hw
  obtain ⟨rfl, -⟩ := Prod.mk.inj heq
  simp only [wordValues, List.mem_cons, Prod.mk.injEq, List.not_mem_nil, or_false] at hmem
  rcases hmem with ⟨-, rfl⟩ | ⟨-, rfl⟩ | ⟨-, rfl⟩ | ⟨-, rfl⟩ | ⟨-, rfl⟩ | ⟨-, rfl⟩ <;>
    exact trivial

/-- A number without its sign is whole or floating. -/
theorem distinct_of_readUnsigned {negative : Bool}
    (h : readUnsigned negative text = some (.ok v, rest)) : Distinct v := by
  unfold readUnsigned at h
  split at h
  · simp at h
  · dsimp only at h
    split at h
    · obtain ⟨hv, -⟩ := Prod.mk.inj (Option.some.inj h)
      obtain rfl := Except.ok.inj hv
      exact trivial
    · split at h
      · obtain ⟨hv, -⟩ := Prod.mk.inj (Option.some.inj h)
        split at hv
        · simp at hv
        · obtain rfl := Except.ok.inj hv
          exact trivial
      · obtain ⟨hv, -⟩ := Prod.mk.inj (Option.some.inj h)
        obtain rfl := Except.ok.inj hv
        exact trivial

theorem distinct_of_readNumber (h : readNumber text = .ok (v, rest)) : Distinct v := by
  unfold readNumber at h
  dsimp only at h
  split at h
  · simp [stuck] at h
  · next w tail hn =>
    obtain ⟨rfl, -⟩ := Prod.mk.inj (Except.ok.inj h)
    split at hn
    · exact distinct_of_readUnsigned hn
    · exact distinct_of_readUnsigned hn
  · simp [stuck] at h

theorem exists_of_map_eq_ok {ε α β : Type} {x : Except ε α} {g : α → β} {b : β}
    (h : x.map g = .ok b) : ∃ a, x = .ok a ∧ g a = b := by
  cases x with
  | error e => cases h
  | ok a => exact ⟨a, rfl, Except.ok.inj h⟩

theorem exists_of_bind_eq_ok {α β : Type} {x : Except Stuck α} {g : α → Except Stuck β} {b : β}
    (h : (x >>= g) = .ok b) : ∃ a, x = .ok a ∧ g a = .ok b := by
  cases x with
  | error e => simp [bind, Except.bind] at h
  | ok a => exact ⟨a, rfl, h⟩

/-- One step of each reader, if the readers that it calls give distinct values. -/
theorem distinct_of_readValue (fuel : Nat) :
    (∀ depth text v rest, readValue fuel depth text = .ok (v, rest) → Distinct v) ∧
    (∀ depth text vs rest, readItems fuel depth text = .ok (vs, rest) → DistinctItems vs) ∧
    (∀ depth text fs rest, readFields fuel depth text = .ok (fs, rest) → DistinctFields fs) := by
  induction fuel with
  | zero => simp [readValue, readItems, readFields, stuck]
  | succ fuel ih =>
    obtain ⟨hvalue, hitems, hfields⟩ := ih
    refine ⟨fun depth text v rest h => ?_, fun depth text vs rest h => ?_,
      fun depth text fs rest h => ?_⟩
    · unfold readValue at h
      split at h
      · obtain ⟨⟨s, tail⟩, -, heq⟩ := exists_of_map_eq_ok h
        obtain ⟨rfl, -⟩ := Prod.mk.inj heq
        exact trivial
      · split at h
        · simp [stuck] at h
        · obtain ⟨rfl, -⟩ := Prod.mk.inj (Except.ok.inj h)
          exact trivial
        · obtain ⟨⟨vs, tail⟩, hr, heq⟩ := exists_of_map_eq_ok h
          obtain ⟨rfl, -⟩ := Prod.mk.inj heq
          exact hitems _ _ _ _ hr
      · split at h
        · simp [stuck] at h
        · obtain ⟨rfl, -⟩ := Prod.mk.inj (Except.ok.inj h)
          exact ⟨keyedOnce_nil, trivial⟩
        · obtain ⟨⟨fs, tail⟩, hr, heq⟩ := exists_of_map_eq_ok h
          obtain ⟨rfl, -⟩ := Prod.mk.inj heq
          exact distinct_overlay (hfields _ _ _ _ hr)
      · split at h
        · next w tail hw =>
          obtain ⟨rfl, -⟩ := Prod.mk.inj (Except.ok.inj h)
          exact distinct_of_readWord? hw
        · exact distinct_of_readNumber h
    · unfold readItems at h
      obtain ⟨⟨v, tail⟩, hv, h⟩ := exists_of_bind_eq_ok h
      dsimp only at h
      split at h
      · obtain ⟨rfl, -⟩ := Prod.mk.inj (Except.ok.inj h)
        exact ⟨hvalue _ _ _ _ hv, trivial⟩
      · obtain ⟨⟨vs, tail'⟩, hr, heq⟩ := exists_of_map_eq_ok h
        obtain ⟨rfl, -⟩ := Prod.mk.inj heq
        exact ⟨hvalue _ _ _ _ hv, hitems _ _ _ _ hr⟩
      · simp [stuck] at h
    · unfold readFields at h
      split at h
      · obtain ⟨⟨key, tail⟩, -, h⟩ := exists_of_bind_eq_ok h
        dsimp only at h
        split at h
        · obtain ⟨⟨v, tail'⟩, hv, h⟩ := exists_of_bind_eq_ok h
          dsimp only at h
          split at h
          · obtain ⟨rfl, -⟩ := Prod.mk.inj (Except.ok.inj h)
            exact ⟨hvalue _ _ _ _ hv, trivial⟩
          · obtain ⟨⟨fs, tail''⟩, hr, heq⟩ := exists_of_map_eq_ok h
            obtain ⟨rfl, -⟩ := Prod.mk.inj heq
            exact ⟨hvalue _ _ _ _ hv, hfields _ _ _ _ hr⟩
          · simp [stuck] at h
        · simp [stuck] at h
      · simp [stuck] at h

theorem readDocument_of_parse (h : parse text = .ok v) : readDocument text = .ok v := by
  unfold parse at h
  cases hd : readDocument text with
  | error e =>
    rw [hd] at h
    cases h
  | ok v' =>
    rw [hd] at h
    obtain rfl : v' = v := Except.ok.inj h
    rfl

/-- A parsed value has each key of its objects once. -/
theorem distinct_of_parse (h : parse text = .ok v) : Distinct v := by
  have hd := readDocument_of_parse h
  unfold readDocument at hd
  split at hd
  · simp [stuck] at hd
  · obtain ⟨⟨v', rest⟩, hv, hd⟩ := exists_of_bind_eq_ok hd
    dsimp only at hd
    split at hd
    · obtain rfl := Except.ok.inj hd
      exact (distinct_of_readValue _).1 _ _ _ _ hv
    · simp [stuck] at hd

end ConsoleSweep.Json
