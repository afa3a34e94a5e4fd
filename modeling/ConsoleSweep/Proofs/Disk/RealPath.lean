/-
  Real paths are in normal form.

  A trail goes down through names alone, and one that has come to a root goes up no more
  (`Trail.Normal`). Each step keeps this, and so does each link, since the steps of its
  target are parts of a path text. The real path of a path is read off the trail at the end.
-/
import ConsoleSweep.Disk.RealPath
import ConsoleSweep.Proofs.Disk.Locate

namespace ConsoleSweep.Disk

variable {d : Disk} {t : Trail} {todo : List Step} {path : String}

/-- The trail goes down through names, and starts at the root itself if it starts at a root. -/
structure Trail.Normal (t : Trail) : Prop where
  root : t.root = "" ∨ t.root = "/" ∨ t.root = "//"
  ups : t.root ≠ "" → t.ups = 0
  names : ∀ name ∈ t.names, Path.IsPart name

/-- The names that the steps go through have no slash in them. -/
def Divided (todo : List Step) : Prop :=
  ∀ s, Step.name s ∈ todo → '/' ∉ s.toList

theorem normal_atRoot {root : String} (h : root = "/" ∨ root = "//") :
    (Trail.atRoot root).Normal :=
  ⟨.inr h, fun _ => rfl, fun name hname => by simp [Trail.atRoot] at hname⟩

theorem normal_here : Trail.here.Normal :=
  ⟨.inl rfl, fun _ => rfl, fun name hname => by simp [Trail.here] at hname⟩

theorem Trail.Normal.startOf (ht : t.Normal) (path : String) :
    (Trail.startOf path t).Normal := by
  unfold Trail.startOf
  split
  · exact normal_atRoot (.inl rfl)
  · exact ht

theorem divided_stepsOf (path : String) : Divided (stepsOf path) := by
  intro s hs
  obtain ⟨part, hpart, he⟩ := List.mem_map.1 hs
  obtain rfl := Step.name.inj he
  obtain ⟨piece, hpiece, rfl⟩ := List.mem_map.1 hpart
  rw [String.toList_ofList]
  exact Text.not_mem_of_mem_pieces hpiece

theorem Divided.rest {step : Step} (h : Divided (step :: todo)) : Divided todo :=
  fun s hs => h s (List.mem_cons_of_mem _ hs)

/-- A step by a name, or by a sign. -/
theorem Trail.Normal.step (ht : t.Normal) {name : String} (hs : '/' ∉ name.toList) :
    (t.step name).Normal := by
  unfold Trail.step
  split
  · exact ht
  · next hpoint =>
    split
    · next hup =>
      refine ⟨ht.root, ht.ups, fun part hpart => ?_⟩
      rcases List.mem_append.1 hpart with hpart | hpart
      · exact ht.names part hpart
      · obtain rfl := List.mem_singleton.1 hpart
        have hplain : part ≠ "" ∧ part ≠ "." := by simpa using hpoint
        exact ⟨by simp [hplain, hup], hs⟩
    · split
      · exact ⟨ht.root, ht.ups, fun part hpart => ht.names part (List.dropLast_subset _ hpart)⟩
      · split
        · exact ht
        · next hrooted =>
          refine ⟨ht.root, fun hne => absurd ?_ hrooted, ht.names⟩
          simpa [isRooted] using hne

theorem rootNext_cases (todo : List Step) :
    rootNext todo = "" ∨ rootNext todo = "/" ∨ rootNext todo = "//" := by
  unfold rootNext Path.rootOf
  split
  · exact .inr (.inl rfl)
  · exact .inr (.inr rfl)
  · exact .inr (.inl rfl)
  · exact .inl rfl

theorem normal_lexicalEnd {joins : Bool} (ht : t.Normal) (hd : Divided todo) :
    (lexicalEnd joins t todo).Normal := by
  fun_induction lexicalEnd joins t todo with
  | case1 => exact ht
  | case2 joins t link rest ih => exact ih ht hd.rest
  | case3 joins t s rest root hroot ih =>
    refine ih (normal_atRoot ?_) hd.rest
    have hne : root ≠ "" := by
      rw [Bool.and_eq_true] at hroot
      simpa using hroot.2
    exact (rootNext_cases _).resolve_left hne
  | case4 joins t s rest root hroot ih => exact ih (ht.step (hd s List.mem_cons_self)) hd.rest

/-- The walk to a real path keeps to trails in normal form. -/
theorem normal_realFrom {links : Nat} {met : List (Trail × Option Trail)} (ht : t.Normal)
    (hm : ∀ link goal, (link, some goal) ∈ met → goal.Normal) (hd : Divided todo) :
    (d.realFrom links met t todo).Normal := by
  fun_induction realFrom d links met t todo with
  | case1 => exact ht
  | case2 links met t link rest ih =>
    refine ih ht (fun l goal hmem => ?_) hd.rest
    rcases List.mem_cons.1 hmem with heq | hmem
    · obtain ⟨-, hgoal⟩ := Prod.mk.inj heq
      exact Option.some.inj hgoal ▸ ht
    · exact hm l goal hmem
  | case3 links met t s rest next hs ih =>
    exact ih (ht.step (hd s List.mem_cons_self)) hm hd.rest
  | case4 links met t s rest next hs hlink ih =>
    exact ih (ht.step (hd s List.mem_cons_self)) hm hd.rest
  | case5 links met t s rest next hs target goal hmet hlink ih =>
    exact ih (hm next goal (mem_of_lookup hmet)) hm hd.rest
  | case6 links met t s rest next hs target hmet hlink =>
    exact normal_lexicalEnd (ht.step (hd s List.mem_cons_self)) hd.rest
  | case7 met t s rest next hs target hmet hlink =>
    exact normal_lexicalEnd (ht.step (hd s List.mem_cons_self)) hd.rest
  | case8 met t s rest next hs target hmet hlink links ih =>
    refine ih (ht.startOf target) (fun link goal hmem => ?_) fun name hname => ?_
    · rcases List.mem_cons.1 hmem with heq | hmem
      · cases (Prod.mk.inj heq).2
      · exact hm link goal hmem
    · rcases List.mem_append.1 hname with hname | hname
      · exact divided_stepsOf target name hname
      · rcases List.mem_cons.1 hname with heq | hname
        · cases heq
        · exact hd.rest name hname

/-- A directory is reached by names. -/
theorem Proper.isPart {p : Place} {n : Node} (h : d.Proper) (hp : d.node? p = some n) :
    ∀ name ∈ p, Path.IsPart name := by
  intro name hname
  have hne : p ≠ [] := fun e => by simp [e] at hname
  have hn := (h.named _ ((h.node?_eq_some hne).1 hp)).2 name hname
  exact ⟨hn.plain, hn.noSlash⟩

/-- A real path is in normal form, if the working directory is one of the tree. -/
theorem normal_of_realPath? {real : String} (hd : d.Proper) (hc : d.node? d.cwd.base = some .dir)
    (h : d.realPath? path = some real) : Path.Normal real := by
  have ht : (d.realFrom d.trailLimit [] (Trail.startOf path Trail.here) (stepsOf path)).Normal :=
    normal_realFrom (normal_here.startOf path) (by simp) (divided_stepsOf path)
  unfold realPath? Trail.path? at h
  generalize d.realFrom d.trailLimit [] (Trail.startOf path Trail.here) (stepsOf path) = t at ht h
  split at h
  · next hr =>
    have hne : t.root ≠ "" := by simpa [Trail.isRooted] using hr
    rw [← Option.some.inj h, Trail.text, ht.ups hne]
    exact ⟨t.root, t.names, ht.root.resolve_left hne, ht.names, rfl⟩
  · obtain ⟨p, hp, rfl⟩ := Option.map_eq_some_iff.1 h
    obtain rfl : d.cwd.base = p := by
      unfold Anchor.place? at hp
      split at hp
      · exact Option.some.inj hp
      · simp at hp
    refine ⟨"/", _, .inl rfl, fun name hname => ?_, rfl⟩
    rcases List.mem_append.1 hname with hname | hname
    · exact hd.isPart hc name (List.mem_of_mem_take hname)
    · exact ht.names name hname

/-! ## The root -/

theorem realPath?_slash (d : Disk) : d.realPath? "/" = some "/" := by
  have hs : stepsOf "/" = [.name "", .name ""] := rfl
  unfold realPath?
  rw [hs, realFrom, if_pos (by decide), realFrom, if_pos (by decide), realFrom]
  rfl

/-- The working directory, if it is the root. -/
theorem realPath?_here (h : d.cwd = ⟨[], 0⟩) : d.realPath? "." = some "/" := by
  have hs : stepsOf "." = [.name "."] := rfl
  unfold realPath?
  rw [hs, realFrom, if_pos (by decide), realFrom, h]
  rfl

end ConsoleSweep.Disk
