/-
  What the operations on files leave as it was.

  No operation deletes or moves anything: directories and links stay, and a file stays a
  file (`Grows`). (Log files that have grown long are rolled over; that is left out, see
  `Logger.prepare`.) So a path that leads to a place goes on leading there
  (`locate_of_grows`). `Keeps P` says more: a file that is new or has other contents is one
  that was open before, or one that a path in `P` leads to. It holds for each operation that
  is given a path in `P`, and for any number of them one after the other (`Keeps.trans`).
-/
import ConsoleSweep.Disk.Files
import ConsoleSweep.Disk.RealPath

namespace ConsoleSweep.Disk

/-! ## Nodes -/

theorem lookup_map_replace {p q : Place} {n : Node} (nodes : List (Place × Node)) :
    (nodes.map fun e => if e.1 = p then (p, n) else e).lookup q =
      if q = p then (nodes.lookup p).map fun _ => n else nodes.lookup q := by
  induction nodes with
  | nil => split <;> rfl
  | cons e nodes ih =>
    obtain ⟨r, m⟩ := e
    by_cases hr : r = p
    · subst hr
      by_cases hq : q = r
      · subst hq
        simp
      · have hqr : (q == r) = false := beq_false_of_ne hq
        simp only [List.map_cons, if_true, List.lookup_cons, hqr, ih, if_neg hq]
    · by_cases hq : q = r
      · subst hq
        simp [hr]
      · have hqr : (q == r) = false := beq_false_of_ne hq
        have hpr : (p == r) = false := beq_false_of_ne (Ne.symm hr)
        simp only [List.map_cons, if_neg hr, List.lookup_cons, hqr, hpr, ih]

theorem lookup_append_new {p q : Place} {n : Node} {nodes : List (Place × Node)}
    (h : nodes.lookup p = none) :
    (nodes ++ [(p, n)]).lookup q = if q = p then some n else nodes.lookup q := by
  rw [List.lookup_append]
  by_cases hq : q = p
  · subst hq
    simp [h]
  · have : (q == p) = false := beq_false_of_ne hq
    simp [List.lookup_cons, this, hq]

/-- A node stands where it was put, and all other places are as before. -/
theorem node?_setNode {d : Disk} {p : Place} (hp : p ≠ []) (n : Node) (q : Place) :
    (d.setNode p n).node? q = if q = p then some n else d.node? q := by
  unfold node? setNode
  by_cases hq : q = []
  · have hqp : ¬ q = p := fun e => hp (e.symm.trans hq)
    rw [if_pos hq, if_pos hq, if_neg hqp]
  · rw [if_neg hq, if_neg hq]
    simp only
    split
    · next hs =>
      rw [lookup_map_replace]
      split
      · obtain ⟨m, hm⟩ := Option.isSome_iff_exists.1 hs
        rw [hm]; rfl
      · rfl
    · next hs => exact lookup_append_new (Option.not_isSome_iff_eq_none.1 hs)

theorem isLink_eq_true {d : Disk} {p : Place} :
    d.isLink p = true ↔ ∃ target, d.node? p = some (.link target) := by
  unfold isLink
  split
  · next target h => simp [h]
  · next h =>
    refine ⟨fun e => by simp at e, ?_⟩
    rintro ⟨target, ht⟩
    exact absurd ht (h target)

theorem isLink_eq_false {d : Disk} {p : Place} (h : ∀ target, d.node? p ≠ some (.link target)) :
    d.isLink p = false :=
  Bool.eq_false_iff.2 fun e => by
    obtain ⟨target, ht⟩ := isLink_eq_true.1 e
    exact h target ht

/-- No link comes or goes where there was none and what is put is none. -/
theorem linkPlaces_setNode {d : Disk} {p : Place} {n : Node} (hp : p ≠ [])
    (hn : ∀ target, n ≠ .link target) (hold : ∀ target, d.node? p ≠ some (.link target)) :
    (d.setNode p n).linkPlaces = d.linkPlaces := by
  have here : (d.setNode p n).isLink p = false := by
    refine isLink_eq_false fun target ht => hn target ?_
    rw [node?_setNode hp, if_pos rfl] at ht
    exact Option.some.inj ht
  have same : ∀ q, (d.setNode p n).isLink q = d.isLink q := by
    intro q
    by_cases hq : q = p
    · rw [hq, here, isLink_eq_false hold]
    · unfold isLink
      rw [node?_setNode hp, if_neg hq]
  have keys : (d.setNode p n).nodes.map (·.1) = d.nodes.map (·.1) ∨
      (d.setNode p n).nodes.map (·.1) = d.nodes.map (·.1) ++ [p] := by
    unfold setNode
    dsimp only
    split
    · refine .inl ?_
      rw [List.map_map]
      refine List.map_congr_left fun e _ => ?_
      simp only [Function.comp]
      split
      · next he => exact he.symm
      · rfl
    · exact .inr (by rw [List.map_append]; rfl)
  unfold linkPlaces
  rw [show (d.setNode p n).isLink = d.isLink from funext same]
  rcases keys with h | h
  · rw [h]
  · rw [h, List.filter_append, List.filter_cons_of_neg (by rw [isLink_eq_false hold]; decide)]
    simp

/-- A file stands at the place. -/
def HasFile (d : Disk) (p : Place) : Prop :=
  ∃ bytes stamp, d.node? p = some (.file bytes stamp)

theorem HasFile.ne_nil {d : Disk} {p : Place} (h : HasFile d p) : p ≠ [] := by
  rintro rfl
  obtain ⟨bytes, stamp, h⟩ := h
  simp [node?] at h

/-! ## Trees that only grow -/

/-- Everything in the first tree is still in the second one, on the same medium; only files may have
other contents. -/
structure Grows (d d' : Disk) : Prop where
  dir : ∀ p, d.node? p = some .dir → d'.node? p = some .dir
  link : ∀ p target, d.node? p = some (.link target) → d'.node? p = some (.link target)
  file : ∀ p, HasFile d p → HasFile d' p
  cwd : d'.cwd = d.cwd
  links : d'.linkPlaces = d.linkPlaces
  medium : d'.medium = d.medium

theorem Grows.refl (d : Disk) : Grows d d :=
  ⟨fun _ h => h, fun _ _ h => h, fun _ h => h, rfl, rfl, rfl⟩

theorem Grows.trans {d d' d'' : Disk} (h : Grows d d') (h' : Grows d' d'') : Grows d d'' :=
  ⟨fun p hp => h'.dir p (h.dir p hp), fun p t hp => h'.link p t (h.link p t hp),
    fun p hp => h'.file p (h.file p hp), h'.cwd.trans h.cwd, h'.links.trans h.links,
    h'.medium.trans h.medium⟩

/-- A link in the second tree is one of the first. -/
theorem Grows.link_of_link {d d' : Disk} (h : Grows d d') {p : Place} {target : String}
    (hp : d'.node? p = some (.link target)) : d.node? p = some (.link target) := by
  have hne : p ≠ [] := by
    rintro rfl
    simp [node?] at hp
  have hmem : p ∈ d'.linkPlaces := by
    refine List.mem_filter.2 ⟨?_, isLink_eq_true.2 ⟨target, hp⟩⟩
    unfold node? at hp
    rw [if_neg hne] at hp
    obtain ⟨l₁, l₂, hl, -⟩ := List.lookup_eq_some_iff.1 hp
    rw [hl]
    simp
  rw [h.links] at hmem
  obtain ⟨old, hold⟩ := isLink_eq_true.1 (List.mem_filter.1 hmem).2
  rw [hold, ← hp, h.link p old hold]

/-- What was found is as the tree has it: a file stands at its place, and nothing stands under a
free name. -/
def Found.IsAt (d : Disk) : Found → Prop
  | .node p (.file bytes stamp) => d.node? p = some (.file bytes stamp)
  | .vacant dir name => d.node? (dir ++ [name]) = none
  | _ => True

theorem isAt_of_locateFrom {d : Disk} {follow : Bool} {links : Nat} {dir : Anchor}
    {todo : List String} {found : Found}
    (hl : d.locateFrom follow links dir todo = .ok found) : found.IsAt d := by
  fun_induction locateFrom d follow links dir todo with
  | case1 links dir =>
    obtain rfl := Except.ok.inj hl
    split <;> exact trivial
  | case2 links dir name rest h₁ ih => exact ih hl
  | case3 links dir rest h₁ ih => exact ih hl
  | case6 links dir name h₁ h₂ h₃ h₄ here hn =>
    obtain rfl := Except.ok.inj hl
    exact hn
  | case8 links dir name rest h₁ h₂ h₃ h₄ here hn ih => exact ih hl
  | case9 links dir name h₁ h₂ h₃ h₄ here bytes stamp hn =>
    obtain rfl := Except.ok.inj hl
    exact hn
  | case11 links dir name rest h₁ h₂ h₃ h₄ here target hn h₅ =>
    obtain rfl := Except.ok.inj hl
    exact trivial
  | case14 dir name rest h₁ h₂ h₃ h₄ here target hn h₅ h₆ links ih =>
    simp only [dite_eq_ite] at ih
    exact ih hl
  | case4 | case5 | case7 | case10 | case12 | case13 => simp at hl

theorem isAt_of_locate {d : Disk} {follow : Bool} {path : String} {found : Found}
    (hl : d.locate follow path = .ok found) : found.IsAt d := by
  unfold locate at hl
  split at hl
  · simp at hl
  · split at hl
    · simp at hl
    · exact isAt_of_locateFrom hl

/-- A file was found at the place, or the place is a free name. -/
def Found.IsFor (p : Place) : Found → Prop
  | .node q (.file _ _) => q = p
  | .vacant dir name => dir ++ [name] = p
  | _ => False

/-- What was found, with what stands there now. -/
def Found.renew (d : Disk) : Found → Found
  | .node p (.file bytes stamp) => .node p ((d.node? p).getD (.file bytes stamp))
  | .vacant dir name =>
    match d.node? (dir ++ [name]) with
    | some n => .node (dir ++ [name]) n
    | none => .vacant dir name
  | found => found

/-- In a tree that has grown, names go the same way, and lead to what is there now. -/
theorem locateFrom_of_grows {d d' : Disk} (h : Grows d d') {follow : Bool} {links : Nat}
    {dir : Anchor} {todo : List String} {found : Found}
    (hl : d.locateFrom follow links dir todo = .ok found) :
    d'.locateFrom follow links dir todo = .ok (found.renew d') := by
  fun_induction locateFrom d follow links dir todo with
  | case1 links dir =>
    obtain rfl := Except.ok.inj hl
    rw [locateFrom]
    split <;> rfl
  | case2 links dir name rest h₁ ih =>
    rw [locateFrom, if_pos h₁]
    exact ih hl
  | case3 links dir rest h₁ ih =>
    rw [locateFrom, if_neg (by decide), if_pos rfl]
    exact ih hl
  | case6 links dir name h₁ h₂ h₃ h₄ here hn =>
    obtain rfl := Except.ok.inj hl
    rw [locateFrom, if_neg h₁, if_neg h₂, if_neg h₃, if_neg h₄]
    cases hn' : d'.node? (dir.base ++ [name]) with
    | none => simp only [Found.renew, hn', if_true]
    | some n =>
      cases n with
      | link target =>
        have hold := h.link_of_link hn'
        rw [show d.node? (dir.base ++ [name]) = none from hn] at hold
        cases hold
      | dir =>
        simp only [Found.renew, hn']
        rw [locateFrom]
        rfl
      | file bytes stamp => simp only [Found.renew, hn', if_true]
  | case8 links dir name rest h₁ h₂ h₃ h₄ here hn ih =>
    have hn' : d'.node? (dir.base ++ [name]) = some .dir := h.dir _ hn
    rw [locateFrom, if_neg h₁, if_neg h₂, if_neg h₃, if_neg h₄]
    simp only [hn']
    exact ih hl
  | case9 links dir name h₁ h₂ h₃ h₄ here bytes stamp hn =>
    obtain rfl := Except.ok.inj hl
    obtain ⟨bytes', stamp', hn'⟩ := h.file here ⟨bytes, stamp, hn⟩
    simp only [here] at hn'
    rw [locateFrom, if_neg h₁, if_neg h₂, if_neg h₃, if_neg h₄]
    simp only [here, Found.renew, hn', if_true, Option.getD_some]
  | case11 links dir name rest h₁ h₂ h₃ h₄ here target hn h₅ =>
    obtain rfl := Except.ok.inj hl
    have hn' : d'.node? (dir.base ++ [name]) = some (.link target) := h.link _ _ hn
    rw [locateFrom, if_neg h₁, if_neg h₂, if_neg h₃, if_neg h₄]
    simp only [hn', if_pos h₅]
    rfl
  | case14 dir name rest h₁ h₂ h₃ h₄ here target hn h₅ h₆ links ih =>
    have hn' : d'.node? (dir.base ++ [name]) = some (.link target) := h.link _ _ hn
    rw [locateFrom, if_neg h₁, if_neg h₂, if_neg h₃, if_neg h₄]
    simp only [hn', if_neg h₅, if_neg h₆]
    simp only [dite_eq_ite] at ih
    exact ih hl
  | case4 | case5 | case7 | case10 | case12 | case13 => simp at hl

theorem locate_renew_of_grows {d d' : Disk} (h : Grows d d') {follow : Bool} {path : String}
    {found : Found} (hl : d.locate follow path = .ok found) :
    d'.locate follow path = .ok (found.renew d') := by
  unfold locate at hl ⊢
  rw [h.cwd]
  split at hl
  · simp at hl
  · next h₁ =>
    rw [if_neg h₁]
    split at hl
    · simp at hl
    · next h₂ =>
      rw [if_neg h₂]
      exact locateFrom_of_grows h hl

theorem Found.renew_of_isFor {d : Disk} {found : Found} {p : Place} {bytes : Text.Bytes}
    {stamp : Stamp} (hp : d.node? p = some (.file bytes stamp)) (hf : found.IsFor p) :
    found.renew d = .node p (.file bytes stamp) := by
  unfold IsFor at hf
  split at hf
  · subst hf
    simp only [renew, hp, Option.getD_some]
  · subst hf
    simp only [renew, hp]
  · exact hf.elim

theorem locate_of_grows {d d' : Disk} (h : Grows d d') {path : String} {found : Found} {p : Place}
    {bytes : Text.Bytes} {stamp : Stamp} (hp : d'.node? p = some (.file bytes stamp))
    (hl : d.locate true path = .ok found) (hf : found.IsFor p) :
    d'.locate true path = .ok (.node p (.file bytes stamp)) := by
  rw [locate_renew_of_grows h hl, Found.renew_of_isFor hp hf]

/-! ## Files that are kept -/

/-- One of the paths leads to the file at the place. -/
def Leads (P : String → Prop) (d : Disk) (p : Place) : Prop :=
  ∃ path bytes stamp, P path ∧ d.locate true path = .ok (.node p (.file bytes stamp))

/-- An open file stands at the place. -/
def Open (d : Disk) (p : Place) : Prop :=
  ∃ a ∈ d.held, a.place? = some p

/-- But for those that were open and those that one of the paths leads to now, the files are what
they were: none has other contents, none is gone, and none is new. -/
def Spares (P : String → Prop) (d d' : Disk) : Prop :=
  ∀ p, ¬ Open d p → ¬ Leads P d' p → ∀ bytes stamp,
    d'.node? p = some (.file bytes stamp) ↔ d.node? p = some (.file bytes stamp)

/-- The tree has grown, files are spared, and a file that is open was open before or one of the
paths leads to it. -/
structure Keeps (P : String → Prop) (d d' : Disk) : Prop where
  grows : Grows d d'
  spares : Spares P d d'
  opens : ∀ p, Open d' p → Open d p ∨ Leads P d' p

/-- A path that led to a file, or to its free name, leads to the file. -/
theorem leads_of_grows {P : String → Prop} {d d' : Disk} (h : Grows d d') {path : String}
    {found : Found} {p : Place} (hP : P path) (hl : d.locate true path = .ok found)
    (hf : found.IsFor p) (hp : HasFile d' p) : Leads P d' p := by
  obtain ⟨bytes, stamp, hp⟩ := hp
  exact ⟨path, bytes, stamp, hP, locate_of_grows h hp hl hf⟩

theorem Leads.of_grows {P : String → Prop} {d d' : Disk} (h : Grows d d') {p : Place}
    (hp : Leads P d p) : Leads P d' p := by
  obtain ⟨path, bytes, stamp, hP, hl⟩ := hp
  exact leads_of_grows h hP hl rfl (h.file p ⟨bytes, stamp, isAt_of_locate hl⟩)

theorem Keeps.refl (P : String → Prop) (d : Disk) : Keeps P d d :=
  ⟨Grows.refl d, fun _ _ _ _ _ => Iff.rfl, fun _ h => .inl h⟩

theorem Keeps.trans {P : String → Prop} {d d' d'' : Disk} (h : Keeps P d d')
    (h' : Keeps P d' d'') : Keeps P d d'' := by
  refine ⟨h.grows.trans h'.grows, ?_, ?_⟩
  · intro p ho hl bytes stamp
    have hl' : ¬ Leads P d' p := fun hp => hl (hp.of_grows h'.grows)
    have ho' : ¬ Open d' p := by
      intro hp
      rcases h.opens p hp with hp | hp
      · exact ho hp
      · exact hl' hp
    exact (h'.spares p ho' hl bytes stamp).trans (h.spares p ho hl' bytes stamp)
  · intro p hp
    rcases h'.opens p hp with hp | hp
    · rcases h.opens p hp with hp | hp
      · exact .inl hp
      · exact .inr (hp.of_grows h'.grows)
    · exact .inr hp

/-! ## One change -/

section

variable {P : String → Prop} {d d' : Disk} {p : Place}

theorem grows_of_vacant (hv : d.node? p = none) {n : Node}
    (hd : ∀ q, d'.node? q = if q = p then some n else d.node? q) (hc : d'.cwd = d.cwd)
    (hs : d'.linkPlaces = d.linkPlaces) (hm : d'.medium = d.medium) : Grows d d' := by
  have other : ∀ q m, d.node? q = some m → d'.node? q = some m := by
    intro q m hq
    have hne : q ≠ p := by
      rintro rfl
      rw [hv] at hq
      simp at hq
    rw [hd, if_neg hne, hq]
  refine ⟨fun q => other q _, fun q t => other q _, ?_, hc, hs, hm⟩
  rintro q ⟨bytes, stamp, hq⟩
  exact ⟨bytes, stamp, other q _ hq⟩

/-- Something new at a free place: a file only if one of the paths leads to it. -/
theorem keeps_of_vacant (hv : d.node? p = none) {n : Node}
    (hd : ∀ q, d'.node? q = if q = p then some n else d.node? q) (hc : d'.cwd = d.cwd)
    (hs : d'.linkPlaces = d.linkPlaces) (hm : d'.medium = d.medium) (hn : n = .dir ∨ Leads P d' p)
    (ho : ∀ q, Open d' q → Open d q ∨ Leads P d' q) : Keeps P d d' := by
  refine ⟨grows_of_vacant hv hd hc hs hm, fun q _ hl bytes stamp => ?_, ho⟩
  rw [hd]
  split
  · next hq =>
    subst hq
    rw [hv]
    refine ⟨fun h => ?_, fun h => by simp at h⟩
    rcases hn with rfl | hn
    · simp at h
    · exact absurd hn hl
  · exact Iff.rfl

/-- Other contents for a file that is open, or that one of the paths leads to. -/
theorem keeps_of_file (hf : HasFile d p) {bytes : Text.Bytes} {stamp : Stamp}
    (hd : ∀ q, d'.node? q = if q = p then some (.file bytes stamp) else d.node? q)
    (hc : d'.cwd = d.cwd) (hs : d'.linkPlaces = d.linkPlaces) (hm : d'.medium = d.medium)
    (hh : d'.held = d.held) (hp : Open d p ∨ Leads P d p) : Keeps P d d' := by
  have other : ∀ q m, d.node? q = some m → q ≠ p → d'.node? q = some m := by
    intro q m hq hne
    rw [hd, if_neg hne, hq]
  have apart : ∀ q m, d.node? q = some m → (∀ b s, m ≠ .file b s) → q ≠ p := by
    rintro q m hq hm rfl
    obtain ⟨b, s, hf⟩ := hf
    rw [hf] at hq
    exact hm b s (Option.some.inj hq).symm
  have grows : Grows d d' := by
    refine ⟨fun q hq => other q _ hq (apart q _ hq (by simp)),
      fun q t hq => other q _ hq (apart q _ hq (by simp)), ?_, hc, hs, hm⟩
    rintro q ⟨b, s, hq⟩
    by_cases hne : q = p
    · exact ⟨bytes, stamp, by rw [hd, if_pos hne]⟩
    · exact ⟨b, s, other q _ hq hne⟩
  refine ⟨grows, ?_, ?_⟩
  · intro q ho hl b s
    have hne : q ≠ p := by
      rintro rfl
      rcases hp with hp | hp
      · exact ho hp
      · exact hl (hp.of_grows grows)
    rw [hd, if_neg hne]
  · intro q hq
    refine .inl ?_
    unfold Open at hq ⊢
    rwa [hh] at hq

end

/-! ## The operations -/

theorem node?_putFile {d : Disk} {p : Place} (hp : p ≠ []) (bytes : Text.Bytes) (q : Place) :
    (d.putFile p bytes).node? q = if q = p then some (.file bytes (.write d.writes))
      else d.node? q :=
  node?_setNode hp _ q

theorem HasFile.not_link {d : Disk} {p : Place} (h : HasFile d p) (target : String) :
    d.node? p ≠ some (.link target) := by
  obtain ⟨bytes, stamp, h⟩ := h
  rw [h]
  simp

theorem not_link_of_vacant {d : Disk} {p : Place} (h : d.node? p = none) (target : String) :
    d.node? p ≠ some (.link target) := by
  rw [h]
  simp

theorem linkPlaces_putFile {d : Disk} {p : Place} (hp : p ≠ [])
    (h : ∀ target, d.node? p ≠ some (.link target)) (bytes : Text.Bytes) :
    (d.putFile p bytes).linkPlaces = d.linkPlaces :=
  linkPlaces_setNode hp (by simp) h

theorem replaceFile_cases (d : Disk) (p : Place) (old new : Text.Bytes) :
    d.replaceFile p old new = d ∨ d.replaceFile p old new = d.putFile p new := by
  unfold replaceFile
  split
  · exact .inl rfl
  · exact .inr rfl

/-- A file that was written was there already and not locked, or it is new. -/
theorem update_eq_ok {d d' : Disk} {path : String} {change : Text.Bytes → Text.Bytes}
    (h : d.update path change = .ok d') :
    (∃ p bytes stamp, d.locate true path = .ok (.node p (.file bytes stamp)) ∧
      d.refuses p = false ∧ d' = d.replaceFile p bytes (change bytes)) ∨
    (∃ dir name, d.locate true path = .ok (.vacant dir name) ∧ d.mayMake dir name = true ∧
      d' = d.putFile (dir ++ [name]) (change [])) := by
  unfold update at h
  split at h
  · next p bytes stamp hl =>
    cases hr : d.refuses p with
    | true => simp [hr] at h
    | false =>
      rw [hr] at h
      exact .inl ⟨p, bytes, stamp, hl, hr, (Except.ok.inj h).symm⟩
  · simp at h
  · simp at h
  · next dir name hl =>
    cases hm : d.mayMake dir name with
    | true =>
      rw [hm] at h
      exact .inr ⟨dir, name, hl, hm, (Except.ok.inj h).symm⟩
    | false => simp [hm] at h
  · simp at h

/-- A directory that was made is new. -/
theorem makeDir_eq_ok {d d' : Disk} {path : String} (h : d.makeDir path = .ok d') :
    ∃ dir name, d.locate false path = .ok (.vacant dir name) ∧ d.mayMake dir name = true ∧
      d' = d.setNode (dir ++ [name]) .dir := by
  unfold makeDir at h
  split at h
  · next dir name hl =>
    cases hm : d.mayMake dir name with
    | true =>
      rw [hm] at h
      exact ⟨dir, name, hl, hm, (Except.ok.inj h).symm⟩
    | false => simp [hm] at h
  all_goals simp at h

/-- A file that was opened was there already and not locked, or it is new; it is the last one of
the open files. -/
theorem hold_eq_ok {d d' : Disk} {path : String} {number : Nat}
    (h : d.hold path = .ok (d', number)) : number = d.held.length ∧
      ((∃ p bytes stamp, d.locate true path = .ok (.node p (.file bytes stamp)) ∧
        d.refuses p = false ∧ d' = { d with held := d.held ++ [⟨p, 0⟩] }) ∨
      (∃ dir name, d.locate true path = .ok (.vacant dir name) ∧ d.mayMake dir name = true ∧
        d' = { d.putFile (dir ++ [name]) [] with held := d.held ++ [⟨dir ++ [name], 0⟩] })) := by
  unfold hold at h
  split at h
  · next p bytes stamp hl =>
    cases hr : d.refuses p with
    | true => simp [hr] at h
    | false =>
      simp only [hr, Bool.false_eq_true, if_false] at h
      obtain ⟨rfl, rfl⟩ := Prod.mk.inj (Except.ok.inj h)
      exact ⟨rfl, .inl ⟨p, bytes, stamp, hl, hr, rfl⟩⟩
  · simp at h
  · simp at h
  · next dir name hl =>
    cases hm : d.mayMake dir name with
    | true =>
      simp only [hm, if_true] at h
      obtain ⟨rfl, rfl⟩ := Prod.mk.inj (Except.ok.inj h)
      exact ⟨rfl, .inr ⟨dir, name, hl, hm, rfl⟩⟩
    | false => simp [hm] at h
  · simp at h

theorem keeps_replaceFile {P : String → Prop} {d : Disk} {p : Place} (hf : HasFile d p)
    (hp : Open d p ∨ Leads P d p) (old new : Text.Bytes) :
    Keeps P d (d.replaceFile p old new) := by
  rcases replaceFile_cases d p old new with h | h <;> rw [h]
  · exact Keeps.refl P d
  · exact keeps_of_file hf (node?_putFile hf.ne_nil _) rfl
      (linkPlaces_putFile hf.ne_nil hf.not_link _) rfl rfl hp

theorem keeps_update {P : String → Prop} {d d' : Disk} {path : String}
    {change : Text.Bytes → Text.Bytes} (hP : P path) (h : d.update path change = .ok d') :
    Keeps P d d' := by
  rcases update_eq_ok h with ⟨p, bytes, stamp, hl, -, rfl⟩ | ⟨dir, name, hl, -, rfl⟩
  · exact keeps_replaceFile ⟨bytes, stamp, isAt_of_locate hl⟩ (.inr ⟨path, _, _, hP, hl⟩) _ _
  · have hv : d.node? (dir ++ [name]) = none := isAt_of_locate hl
    have hd := node?_putFile (d := d) (p := dir ++ [name]) (by simp) (change [])
    have hs := linkPlaces_putFile (by simp) (not_link_of_vacant hv) (change [])
    have leads : Leads P (d.putFile (dir ++ [name]) (change [])) (dir ++ [name]) :=
      leads_of_grows (grows_of_vacant hv hd rfl hs rfl) hP hl rfl ⟨_, _, by rw [hd, if_pos rfl]⟩
    exact keeps_of_vacant hv hd rfl hs rfl (.inr leads) fun _ hq => .inl hq

theorem keeps_makeDir {P : String → Prop} {d d' : Disk} {path : String}
    (h : d.makeDir path = .ok d') : Keeps P d d' := by
  obtain ⟨dir, name, hl, -, rfl⟩ := makeDir_eq_ok h
  have hv : d.node? (dir ++ [name]) = none := isAt_of_locate hl
  exact keeps_of_vacant hv (node?_setNode (by simp) _) rfl
    (linkPlaces_setNode (by simp) (by simp) (not_link_of_vacant hv)) rfl (.inl rfl)
    fun _ hq => .inl hq

theorem keeps_makeDirs (P : String → Prop) (d : Disk) (root : String) (parts : List String) :
    Keeps P d (d.makeDirs root parts).1 := by
  fun_induction makeDirs d root parts with
  | case1 parts here d' h => exact keeps_makeDir h
  | case2 here h => exact Keeps.refl P d
  | case3 parts here h hne d' e h' ih =>
    rw [h'] at ih
    exact ih
  | case4 parts here h hne d₁ h₁ d₂ h₂ ih =>
    rw [h₁] at ih
    exact ih.trans (keeps_makeDir h₂)
  | case5 parts here h hne d₁ h₁ h₂ ih =>
    rw [h₁] at ih
    exact ih
  | case6 parts here settled h hne d₁ h₁ e he h₂ ih =>
    rw [h₁] at ih
    simp only [settled]
    split <;> exact ih
  | case7 parts here settled e he h =>
    simp only [settled]
    split <;> exact Keeps.refl P d

theorem grows_of_makeDirs {d d' : Disk} {root : String} {parts : List String}
    {e : Option (Errno × String)} (h : d.makeDirs root parts = (d', e)) : Grows d d' := by
  have hkeeps := (keeps_makeDirs (fun _ => True) d root parts).grows
  rwa [h] at hkeeps

/-- A file is opened under one of the paths. -/
theorem keeps_hold {P : String → Prop} {d d' : Disk} {path : String} {number : Nat} (hP : P path)
    (h : d.hold path = .ok (d', number)) : Keeps P d d' := by
  -- The one file that is open in addition.
  have opened : ∀ {e : Disk} {p : Place}, e.held = d.held ++ [⟨p, 0⟩] → Leads P e p →
      ∀ q, Open e q → Open d q ∨ Leads P e q := by
    rintro e p he hp q ⟨a, ha, haq⟩
    rw [he] at ha
    rcases List.mem_append.1 ha with ha | ha
    · exact .inl ⟨a, ha, haq⟩
    · rw [List.mem_singleton.1 ha] at haq
      obtain rfl := Option.some.inj haq
      exact .inr hp
  obtain ⟨-, ⟨p, bytes, stamp, hl, -, rfl⟩ | ⟨dir, name, hl, -, he⟩⟩ := hold_eq_ok h
  · have grows : Grows d { d with held := d.held ++ [⟨p, 0⟩] } :=
      ⟨fun _ h => h, fun _ _ h => h, fun _ h => h, rfl, rfl, rfl⟩
    have leads : Leads P d p := ⟨path, bytes, stamp, hP, hl⟩
    exact ⟨grows, fun _ _ _ _ _ => Iff.rfl, opened rfl (leads.of_grows grows)⟩
  · have hv : d.node? (dir ++ [name]) = none := isAt_of_locate hl
    have hd : ∀ q, d'.node? q = if q = dir ++ [name] then some (.file [] (.write d.writes))
        else d.node? q := by
      rw [he]
      exact node?_putFile (by simp) []
    have hc : d'.cwd = d.cwd := by rw [he]; rfl
    have hh : d'.held = d.held ++ [⟨dir ++ [name], 0⟩] := by rw [he]
    have hm : d'.medium = d.medium := by rw [he]; rfl
    have hs : d'.linkPlaces = d.linkPlaces := by
      rw [he]
      exact linkPlaces_putFile (by simp) (not_link_of_vacant hv) []
    have leads : Leads P d' (dir ++ [name]) :=
      leads_of_grows (grows_of_vacant hv hd hc hs hm) hP hl rfl ⟨_, _, by rw [hd, if_pos rfl]⟩
    exact keeps_of_vacant hv hd hc hs hm (.inr leads) (opened hh leads)

/-- A line for an open file. -/
theorem keeps_appendHeld (P : String → Prop) (d : Disk) (number : Nat) (bytes : Text.Bytes) :
    Keeps P d (d.appendHeld number bytes) := by
  unfold appendHeld
  split
  · exact Keeps.refl P d
  · next p hp =>
    obtain ⟨a, ha, hap⟩ := Option.bind_eq_some_iff.1 hp
    split
    · next old stamp hn =>
      exact keeps_replaceFile ⟨old, stamp, hn⟩ (.inl ⟨a, List.mem_of_getElem? ha, hap⟩) _ _
    · exact Keeps.refl P d

end ConsoleSweep.Disk
