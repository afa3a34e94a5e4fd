/-
  The order of a store.

  The operations keep the entries in the order of their paths, each path once (`Ordered`).
  So a store is known by its entries: two ordered stores with the same entries are the same
  (`ext_of_ordered`).
-/
import Mathlib.Data.List.Nodup
import ConsoleSweep.Store

namespace ConsoleSweep.Store

/-- The entries are in the order of their paths, and no path has two. -/
def Ordered (s : Store) : Prop :=
  s.items.Pairwise fun a b => a.1 < b.1

variable {s t : Store} {path : String} {count : Int} {items : List (String × Int)}
  {e : String × Int}

theorem ordered_empty : empty.Ordered :=
  List.Pairwise.nil

theorem Ordered.paths (h : s.Ordered) : s.paths.Pairwise (· < ·) :=
  List.pairwise_map.2 h

theorem ne_of_lt {a b : String} (h : a < b) : a ≠ b := by
  rintro rfl
  exact String.lt_irrefl _ h

theorem Ordered.nodup_paths (h : s.Ordered) : s.paths.Nodup :=
  h.paths.imp ne_of_lt

theorem Ordered.nodup_items (h : s.Ordered) : s.items.Nodup :=
  h.imp fun hlt heq => ne_of_lt hlt (congrArg Prod.fst heq)

/-- Two stores with the same entries are the same. -/
theorem ext_of_ordered (hs : s.Ordered) (ht : t.Ordered)
    (h : ∀ e, e ∈ s.items ↔ e ∈ t.items) : s = t := by
  have hperm := (List.perm_ext_iff_of_nodup hs.nodup_items ht.nodup_items).2 h
  have heq : s.items = t.items :=
    hperm.eq_of_pairwise (fun a b _ _ hab hba => absurd hba (String.lt_asymm hab)) hs ht
  cases s
  cases t
  exact congrArg Store.mk heq

theorem Ordered.filter (h : s.Ordered) (keep : String × Int → Bool) :
    (Store.mk (s.items.filter keep)).Ordered :=
  List.Pairwise.filter _ h

theorem Ordered.remove (h : s.Ordered) (path : String) : (s.remove path).Ordered :=
  h.filter _

/-! ## Recording -/

theorem mem_insertItem (h : items.Pairwise fun a b => a.1 < b.1) :
    e ∈ insertItem path count items ↔ e = (path, count) ∨ e ∈ items ∧ e.1 ≠ path := by
  induction items with
  | nil => simp [insertItem]
  | cons entry items ih =>
    obtain ⟨p, n⟩ := entry
    obtain ⟨hp, hrest⟩ := List.pairwise_cons.1 h
    have after : ∀ a ∈ items, p < a.1 := hp
    unfold insertItem
    split
    · next hlt =>
      -- Everything in the list comes behind the new path.
      have behind : ∀ a ∈ (p, n) :: items, a.1 ≠ path := by
        intro a ha heq
        rcases List.mem_cons.1 ha with rfl | ha
        · exact String.lt_irrefl _ (heq ▸ hlt)
        · exact String.lt_irrefl _ (heq ▸ String.lt_trans hlt (after a ha))
      rw [List.mem_cons]
      exact or_congr Iff.rfl ⟨fun he => ⟨he, behind e he⟩, And.left⟩
    · split
      · next heq =>
        subst heq
        have behind : ∀ a ∈ items, a.1 ≠ p := by
          intro a ha heq
          exact String.lt_irrefl _ (heq ▸ after a ha)
        rw [List.mem_cons, List.mem_cons]
        constructor
        · rintro (rfl | he)
          · exact .inl rfl
          · exact .inr ⟨.inr he, behind e he⟩
        · rintro (rfl | ⟨rfl | he, hne⟩)
          · exact .inl rfl
          · exact absurd rfl hne
          · exact .inr he
      · next hne =>
        rw [List.mem_cons, ih hrest, List.mem_cons]
        constructor
        · rintro (rfl | he | ⟨he, hpe⟩)
          · exact .inr ⟨.inl rfl, hne⟩
          · exact .inl he
          · exact .inr ⟨.inr he, hpe⟩
        · rintro (he | ⟨rfl | he, hpe⟩)
          · exact .inr (.inl he)
          · exact .inl rfl
          · exact .inr (.inr ⟨he, hpe⟩)

theorem pairwise_insertItem (h : items.Pairwise fun a b => a.1 < b.1) :
    (insertItem path count items).Pairwise fun a b => a.1 < b.1 := by
  induction items with
  | nil => exact List.pairwise_singleton _ _
  | cons entry items ih =>
    obtain ⟨p, n⟩ := entry
    obtain ⟨after, hrest⟩ := List.pairwise_cons.1 h
    unfold insertItem
    split
    · next hlt =>
      refine List.pairwise_cons.2 ⟨fun a ha => ?_, h⟩
      rcases List.mem_cons.1 ha with rfl | ha
      · exact hlt
      · exact String.lt_trans hlt (after a ha)
    · next hge =>
      split
      · next heq =>
        subst heq
        exact List.pairwise_cons.2 ⟨after, hrest⟩
      · next hne =>
        refine List.pairwise_cons.2 ⟨fun a ha => ?_, ih hrest⟩
        rcases (mem_insertItem hrest).1 ha with rfl | ⟨ha, -⟩
        · exact Std.lt_of_le_of_ne (String.not_lt.1 hge) hne
        · exact after a ha

theorem Ordered.put (h : s.Ordered) (path : String) (count : Int) : (s.put path count).Ordered :=
  pairwise_insertItem h

/-! ## Stores of counts -/

theorem Ordered.foldl {counts : List (String × Int)} (h : s.Ordered) :
    (counts.foldl (fun s e => if 0 < e.2 then s.put e.1 e.2 else s) s).Ordered := by
  induction counts generalizing s with
  | nil => exact h
  | cons c counts ih =>
    rw [List.foldl_cons]
    split
    · exact ih (h.put _ _)
    · exact ih h

theorem ordered_ofCounts (counts : List (String × Int)) : (ofCounts counts).Ordered :=
  ordered_empty.foldl

/-- If each path has one count, the counts above zero are added to the entries, in the place of
those with the same paths. -/
theorem mem_foldl_put {counts : List (String × Int)} (h : s.Ordered)
    (hf : ∀ a ∈ counts, ∀ b ∈ counts, a.1 = b.1 → a = b) :
    e ∈ (counts.foldl (fun s e => if 0 < e.2 then s.put e.1 e.2 else s) s).items ↔
      e ∈ counts ∧ 0 < e.2 ∨ e ∈ s.items ∧ ∀ c ∈ counts, 0 < c.2 → c.1 ≠ e.1 := by
  induction counts generalizing s with
  | nil => simp
  | cons c counts ih =>
    have hf' : ∀ a ∈ counts, ∀ b ∈ counts, a.1 = b.1 → a = b := fun a ha b hb =>
      hf a (List.mem_cons_of_mem _ ha) b (List.mem_cons_of_mem _ hb)
    have hc : ∀ a ∈ counts, a.1 = c.1 → a = c := fun a ha =>
      hf a (List.mem_cons_of_mem _ ha) c List.mem_cons_self
    rw [List.foldl_cons, List.mem_cons, List.forall_mem_cons]
    split
    · next hpos =>
      have hput : e ∈ (s.put c.1 c.2).items ↔ e = c ∨ e ∈ s.items ∧ e.1 ≠ c.1 := mem_insertItem h
      rw [ih (h.put _ _) hf', hput]
      grind
    · next hpos =>
      rw [ih h hf']
      grind

/-- The entries of a store of counts are those above zero. -/
theorem mem_ofCounts {counts : List (String × Int)}
    (hf : ∀ a ∈ counts, ∀ b ∈ counts, a.1 = b.1 → a = b) :
    e ∈ (ofCounts counts).items ↔ e ∈ counts ∧ 0 < e.2 := by
  unfold ofCounts
  rw [mem_foldl_put ordered_empty hf]
  simp [empty]

/-- Counts above zero for distinct paths are the entries, up to their order. -/
theorem perm_ofCounts {counts : List (String × Int)} (hn : (counts.map (·.1)).Nodup)
    (hpos : ∀ e ∈ counts, 0 < e.2) : (ofCounts counts).items.Perm counts := by
  have hcounts : counts.Nodup := hn.of_map _
  have hone : ∀ a ∈ counts, ∀ b ∈ counts, a.1 = b.1 → a = b :=
    fun a ha b hb hab => List.inj_on_of_nodup_map hn ha hb hab
  refine (List.perm_ext_iff_of_nodup (ordered_ofCounts counts).nodup_items hcounts).2 fun e => ?_
  rw [mem_ofCounts hone]
  exact ⟨And.left, fun he => ⟨he, hpos e he⟩⟩

end ConsoleSweep.Store
