/-
  The walk enters every directory that can be reached, and each once.

  An entry leads to a directory if it is one or if links lead from it to one, however many
  (`Enters`); so directories are reached from the root of a walk by entries whose names are
  not ignored (`Reachable`). The walk itself follows the text under which a directory is
  shown. As long as no limit of the operating system is in the way (`Unlimited`), the text
  leads to where the directory is (`Shows`), and both ways agree (`entryDir?_eq_some`).
  Then what the walk has entered is closed under entering (`place_mem_walkFrom`), and the
  files that it yields are the entries of those directories, each under one path. No path is
  yielded twice even where a limit is in the way (`nodup_sources`): the text of a path tells
  by which names the walk came to it.
-/
import ConsoleSweep.Disk.Walk
import ConsoleSweep.Proofs.Disk.Locate
import Mathlib.Data.List.Nodup
import Mathlib.Logic.Relation

namespace ConsoleSweep.Disk

variable {d : Disk} {ignored endings : List String} {u v : Visit} {name : String} {p q r : Place}
  {unseen : List Place} {todo : List Visit}

/-! ## Entries -/

/-- The names in a directory, before they are sorted. -/
theorem map_entries (d : Disk) (p : Place) : (d.entries p).map (·.1) =
    (d.nodes.map (·.1)).filterMap fun q => if q.dropLast = p then q.getLast? else none := by
  unfold entries
  rw [List.map_filterMap, List.filterMap_map]
  congr 1
  funext e
  obtain ⟨q, n⟩ := e
  cases hq : q.getLast? with
  | none => simp [hq]
  | some name =>
    by_cases hp : q.dropLast = p <;> simp [hq, hp]

theorem eq_append_of_getLast? (h : name ∈ if q.dropLast = p then q.getLast? else none) :
    q = p ++ [name] := by
  split at h
  · next hp =>
    obtain ⟨front, hf⟩ := List.getLast?_eq_some_iff.1 h
    rw [← hp, hf]
    simp
  · simp at h

theorem mem_names (hd : d.Proper) : name ∈ d.names p ↔ (d.node? (p ++ [name])).isSome := by
  unfold names
  rw [List.mem_mergeSort, map_entries, List.mem_filterMap, Option.isSome_iff_exists]
  constructor
  · rintro ⟨q, hq, hname⟩
    obtain ⟨⟨q', n⟩, he, rfl⟩ := List.mem_map.1 hq
    obtain rfl := eq_append_of_getLast? hname
    exact ⟨n, (hd.node?_eq_some (by simp)).2 he⟩
  · rintro ⟨n, hn⟩
    exact ⟨p ++ [name], List.mem_map.2 ⟨_, hd.mem_nodes hn, rfl⟩, by simp⟩

theorem nodup_names (hd : d.Proper) : (d.names p).Nodup := by
  unfold names
  rw [(List.mergeSort_perm _ _).nodup_iff, map_entries]
  refine hd.once.filterMap fun a b name ha hb => ?_
  rw [eq_append_of_getLast? ha, eq_append_of_getLast? hb]

/-- An entry of a directory leads to a directory, through any number of links. -/
def Enters (d : Disk) (p : Place) (name : String) (q : Place) : Prop :=
  (d.node? (p ++ [name])).isSome ∧
    ∃ links, d.locateFrom true links ⟨p, 0⟩ [name] = .ok (.node q .dir)

/-- A directory is entered from another by a name that is not ignored. -/
def Below (d : Disk) (ignored : List String) (p q : Place) : Prop :=
  ∃ name, name ∉ ignored ∧ d.Enters p name q

/-- A directory is reached from another by names that are not ignored. -/
def Reachable (d : Disk) (ignored : List String) : Place → Place → Prop :=
  Relation.ReflTransGen (d.Below ignored)

/-- No limit is in the way of a path: what it leads to through some number of links is found. -/
def Unlimited (d : Disk) (path : String) : Prop :=
  ∀ links found, d.locateFrom true links (if Path.isAbsolute path then ⟨[], 0⟩ else d.cwd)
    (Text.splitAt '/' path) = .ok found → d.locate true path = .ok found

/-- A directory is shown under a path that leads to it from the root. -/
structure Shows (d : Disk) (v : Visit) : Prop where
  absolute : Path.isAbsolute v.shown = true
  leads : d.locate true v.shown = .ok (.node v.place .dir)

/-- A single name of a proper tree, from the directory that it stands in. -/
theorem locateFrom_name {links : Nat} {n : Node} (hd : d.Proper)
    (hn : d.node? (p ++ [name]) = some n) (hlink : ∀ target, n ≠ .link target) :
    d.locateFrom true links ⟨p, 0⟩ [name] = .ok (.node (p ++ [name]) n) := by
  obtain ⟨hplain, -, -, hshort⟩ := hd.isName hn
  simp only [List.mem_cons, List.not_mem_nil, not_or, not_false_iff, and_true] at hplain
  rw [locateFrom, if_neg (by simp [hplain]), if_neg (by simp [hplain]), if_neg (by simp),
    if_neg (Nat.not_lt.2 hshort)]
  simp only [hn]
  cases n with
  | dir =>
    rw [locateFrom]
    rfl
  | file bytes stamp => rfl
  | link target => exact absurd rfl (hlink target)

theorem locateFrom_of_locate {path : String} {found : Found} (ha : Path.isAbsolute path = true)
    (h : d.locate true path = .ok found) :
    d.locateFrom true linkLimit ⟨[], 0⟩ (Text.splitAt '/' path) = .ok found := by
  unfold locate at h
  rw [if_pos ha] at h
  split at h
  · simp at h
  · split at h
    · simp at h
    · exact h

/-- If a path is found within the limits, none is in its way. -/
theorem unlimited_of_locate {path : String} (found : Found) (h : d.locate true path = .ok found) :
    d.Unlimited path := by
  intro links found' h'
  rw [h]
  unfold locate at h
  split at h
  · simp at h
  · split at h
    · simp at h
    · have hmore := locateFrom_mono h links
      have hmore' := locateFrom_mono h' linkLimit
      rw [Nat.add_comm, hmore] at hmore'
      exact hmore'

namespace Shows

theorem ne_empty (h : d.Shows v) : v.shown ≠ "" := by
  intro he
  have ha := h.absolute
  rw [he] at ha
  exact absurd ha (by decide)

/-- The path of an entry has the name at its end, and before it the way to the directory. -/
theorem splitAt_join (h : d.Shows v) (hn : '/' ∉ name.toList) :
    ∃ parts, Text.splitAt '/' (Path.join v.shown name) = parts ++ [name] ∧
      d.locateFrom true linkLimit ⟨[], 0⟩ parts = .ok (.node v.place .dir) := by
  obtain ⟨parts, hjoin, hshown⟩ := Path.splitAt_join h.ne_empty hn
  have hleads := locateFrom_of_locate h.absolute h.leads
  refine ⟨parts, hjoin, ?_⟩
  rcases hshown with hshown | hshown
  · rwa [hshown] at hleads
  · rw [hshown] at hleads
    exact locateFrom_of_append_empty hleads

/-- An entry of a directory is found under its name behind the path that shows the directory. -/
theorem locateFrom_join (h : d.Shows v) (hn : '/' ∉ name.toList) :
    ∃ used, ∀ more, d.locateFrom true (used + more) ⟨[], 0⟩
        (Text.splitAt '/' (Path.join v.shown name)) =
      d.locateFrom true more ⟨v.place, 0⟩ [name] := by
  obtain ⟨parts, hjoin, hparts⟩ := h.splitAt_join hn
  obtain ⟨used, hused⟩ := locateFrom_append hparts
  exact ⟨used, fun more => by rw [hjoin]; exact hused more [name]⟩

/-- A path tells the directory and the name. -/
theorem join_inj {a b : String} (hv : d.Shows v) (hu : d.Shows u) (ha : '/' ∉ a.toList)
    (hb : '/' ∉ b.toList) (h : Path.join v.shown a = Path.join u.shown b) :
    v.place = u.place ∧ a = b := by
  obtain ⟨parts, hjoin, hleads⟩ := hv.splitAt_join ha
  obtain ⟨parts', hjoin', hleads'⟩ := hu.splitAt_join hb
  rw [← h, hjoin] at hjoin'
  obtain ⟨rfl, hlast⟩ := List.append_inj' hjoin' rfl
  refine ⟨?_, List.singleton_inj.1 hlast⟩
  have hnode : Found.node v.place .dir = .node u.place .dir :=
    Except.ok.inj (hleads.symm.trans hleads')
  exact (Found.node.inj hnode).1

/-- What an entry leads to is found if no limit is in the way. -/
theorem locate_join (h : d.Shows v) (hn : '/' ∉ name.toList)
    (hu : d.Unlimited (Path.join v.shown name)) (found : Found) :
    d.locate true (Path.join v.shown name) = .ok found ↔
      ∃ links, d.locateFrom true links ⟨v.place, 0⟩ [name] = .ok found := by
  have ha := Path.isAbsolute_join h.absolute (Path.isAbsolute_of_not_mem hn)
  obtain ⟨used, hused⟩ := h.locateFrom_join hn
  constructor
  · intro hl
    have hmore := locateFrom_mono (locateFrom_of_locate ha hl) used
    rw [Nat.add_comm, hused] at hmore
    exact ⟨_, hmore⟩
  · rintro ⟨links, hl⟩
    refine hu (used + links) found ?_
    rw [if_pos ha, hused]
    exact hl

/-- An entry is entered if it leads to a directory. -/
theorem entryDir?_eq_some (h : d.Shows v) (hd : d.Proper)
    (hu : (d.node? (v.place ++ [name])).isSome → d.Unlimited (Path.join v.shown name)) :
    d.entryDir? v name = some q ↔ d.Enters v.place name q := by
  unfold entryDir? Enters
  cases hn : d.node? (v.place ++ [name]) with
  | none => simp
  | some n =>
    have hname := hd.isName hn
    match n, hn with
    | .dir, hn =>
      have hl : ∀ links, d.locateFrom true links ⟨v.place, 0⟩ [name] =
          .ok (.node (v.place ++ [name]) .dir) := fun links =>
        locateFrom_name hd hn (by simp)
      simp [hl]
    | .file bytes stamp, hn =>
      have hl : ∀ links, d.locateFrom true links ⟨v.place, 0⟩ [name] =
          .ok (.node (v.place ++ [name]) (.file bytes stamp)) := fun links =>
        locateFrom_name hd hn (by simp)
      simp [hl]
    | .link target, hn =>
      have hl := h.locate_join hname.noSlash (hu (by simp [hn])) (.node q .dir)
      simp only [Option.isSome_some, true_and]
      rw [← hl]
      constructor
      · intro he
        split at he
        · next p' hp =>
          obtain rfl := Option.some.inj he
          exact hp
        · simp at he
      · intro hp
        rw [hp]

/-- A directory that is entered is shown under the path of its entry. -/
theorem next (h : d.Shows v) (hd : d.Proper) (hu : d.Unlimited (Path.join v.shown name))
    (he : d.Enters v.place name q) : d.Shows ⟨Path.join v.shown name, q⟩ := by
  obtain ⟨hsome, hlinks⟩ := he
  obtain ⟨n, hn⟩ := Option.isSome_iff_exists.1 hsome
  have hslash := (hd.isName hn).noSlash
  exact ⟨Path.isAbsolute_join h.absolute (Path.isAbsolute_of_not_mem hslash),
    (h.locate_join hslash hu _).2 hlinks⟩

end Shows

/-! ## The walk -/

theorem mem_nextVisits (hd : d.Proper) : u ∈ d.nextVisits ignored v ↔
    ∃ name, (d.node? (v.place ++ [name])).isSome ∧ name ∉ ignored ∧
      d.entryDir? v name = some u.place ∧ u.shown = Path.join v.shown name := by
  unfold nextVisits
  rw [List.mem_filterMap]
  constructor
  · rintro ⟨name, hname, hu⟩
    obtain ⟨hname, hi⟩ := List.mem_filter.1 hname
    obtain ⟨q, hq, rfl⟩ := Option.map_eq_some_iff.1 hu
    exact ⟨name, (mem_names hd).1 hname, by simpa using hi, hq, rfl⟩
  · rintro ⟨name, hname, hi, he, hs⟩
    refine ⟨name, List.mem_filter.2 ⟨(mem_names hd).2 hname, by simpa using hi⟩, ?_⟩
    rw [he, Option.map_some, ← hs]

/-- The walk enters directories that were not entered before, and none of them twice. -/
theorem nodup_walkFrom (ignored : List String) (todo : List Visit) (hn : unseen.Nodup) :
    ((d.walkFrom ignored unseen todo).map (·.place)).Nodup ∧
      ∀ v ∈ d.walkFrom ignored unseen todo, v.place ∈ unseen := by
  fun_induction walkFrom d ignored unseen todo with
  | case1 => simp
  | case2 unseen v rest hv ih =>
    obtain ⟨ihn, ihm⟩ := ih (hn.erase _)
    have fresh : ∀ u ∈ d.walkFrom ignored (unseen.erase v.place) (d.nextVisits ignored v ++ rest),
        u.place ≠ v.place ∧ u.place ∈ unseen := fun u hu => hn.mem_erase_iff.1 (ihm u hu)
    refine ⟨?_, List.forall_mem_cons.2 ⟨hv, fun u hu => (fresh u hu).2⟩⟩
    rw [List.map_cons, List.nodup_cons]
    refine ⟨fun hmem => ?_, ihn⟩
    obtain ⟨u, hu, he⟩ := List.mem_map.1 hmem
    exact (fresh u hu).1 he
  | case3 unseen v rest hv ih => exact ih hn

/-- What holds for the directories to look at, and is handed on to those below, holds for all that
are entered. -/
theorem forall_walkFrom {P : Visit → Prop} (htodo : ∀ v ∈ todo, P v)
    (hnext : ∀ v ∈ d.walkFrom ignored unseen todo, P v → ∀ u ∈ d.nextVisits ignored v, P u) :
    ∀ v ∈ d.walkFrom ignored unseen todo, P v := by
  fun_induction walkFrom d ignored unseen todo with
  | case1 => simp
  | case2 unseen v rest hv ih =>
    obtain ⟨hP, hrest⟩ := List.forall_mem_cons.1 htodo
    refine List.forall_mem_cons.2 ⟨hP, ih ?_ ?_⟩
    · intro u hu
      rcases List.mem_append.1 hu with hu | hu
      · exact hnext v List.mem_cons_self hP u hu
      · exact hrest u hu
    · exact fun u hu => hnext u (List.mem_cons_of_mem _ hu)
  | case3 unseen v rest hv ih => exact ih (List.forall_mem_cons.1 htodo).2 hnext

/-- The directories to look at are entered unless they were entered before, and so are those below
the ones that are entered. -/
theorem place_mem_walkFrom (d : Disk) (ignored : List String) (unseen : List Place)
    (todo : List Visit) :
    (∀ v ∈ todo, v.place ∈ unseen →
      v.place ∈ (d.walkFrom ignored unseen todo).map (·.place)) ∧
    ∀ v ∈ d.walkFrom ignored unseen todo, ∀ u ∈ d.nextVisits ignored v, u.place ∈ unseen →
      u.place ∈ (d.walkFrom ignored unseen todo).map (·.place) := by
  fun_induction walkFrom d ignored unseen todo with
  | case1 => simp
  | case2 unseen v rest hv ih =>
    obtain ⟨htodo, hnext⟩ := ih
    rw [List.map_cons]
    -- A directory is the one entered now, or is still to be entered.
    have still : ∀ {u : Visit}, u.place ∈ unseen → u.place ≠ v.place →
        u.place ∈ unseen.erase v.place := fun hu hne => (List.mem_erase_of_ne hne).2 hu
    have later : ∀ u ∈ d.nextVisits ignored v ++ rest, u.place ∈ unseen →
        u.place ∈ v.place ::
          (d.walkFrom ignored (unseen.erase v.place) (d.nextVisits ignored v ++ rest)).map
            (·.place) := by
      intro u hu hun
      by_cases hne : u.place = v.place
      · rw [hne]
        exact List.mem_cons_self
      · exact List.mem_cons_of_mem _ (htodo u hu (still hun hne))
    constructor
    · intro u hu hun
      rcases List.mem_cons.1 hu with rfl | hu
      · exact List.mem_cons_self
      · exact later u (List.mem_append_right _ hu) hun
    · intro x hx u hu hun
      rcases List.mem_cons.1 hx with rfl | hx
      · exact later u (List.mem_append_left _ hu) hun
      · by_cases hne : u.place = v.place
        · rw [hne]
          exact List.mem_cons_self
        · exact List.mem_cons_of_mem _ (hnext x hx u hu (still hun hne))
  | case3 unseen v rest hv ih =>
    obtain ⟨htodo, hnext⟩ := ih
    refine ⟨fun u hu hun => ?_, hnext⟩
    rcases List.mem_cons.1 hu with rfl | hu
    · exact absurd hun hv
    · exact htodo u hu hun

/-- No directory of a proper tree is shown under a path with a NUL in it, unless the root is. -/
theorem nul_not_mem_walk {top : String} {visits : List Visit} (hd : d.Proper)
    (ht : '\x00' ∉ top.toList) (hw : d.walk ignored top = .ok visits) :
    ∀ v ∈ visits, '\x00' ∉ v.shown.toList := by
  unfold walk at hw
  split at hw
  · obtain rfl := Except.ok.inj hw
    refine forall_walkFrom (List.forall_mem_singleton.2 ht) fun v _ hv u hu => ?_
    obtain ⟨name, hname, -, -, hshown⟩ := (mem_nextVisits hd).1 hu
    obtain ⟨n, hn⟩ := Option.isSome_iff_exists.1 hname
    rw [hshown]
    exact Path.not_mem_join hv (hd.isName hn).noNul (by decide)
  · simp at hw
  · obtain rfl := Except.ok.inj hw
    simp
  · simp at hw
  · simp at hw

/-- No file of a proper tree is found under a path with a NUL in it, unless the root is. -/
theorem nul_not_mem_sources {top : String} {files : List String} (hd : d.Proper)
    (ht : '\x00' ∉ top.toList) (hs : d.sources endings ignored top = .ok files) :
    ∀ path ∈ files, '\x00' ∉ path.toList := by
  unfold sources at hs
  cases hw : d.walk ignored top with
  | error e =>
    rw [hw] at hs
    cases hs
  | ok visits =>
    rw [hw] at hs
    obtain rfl := Except.ok.inj hs
    intro path hpath
    obtain ⟨v, hv, hpath⟩ := List.mem_flatMap.1 hpath
    obtain ⟨name, hname, rfl⟩ := List.mem_map.1 hpath
    obtain ⟨n, hn⟩ := Option.isSome_iff_exists.1 ((mem_names hd).1 (List.mem_filter.1 hname).1)
    exact Path.not_mem_join (nul_not_mem_walk hd ht hw v hv) (hd.isName hn).noNul (by decide)

/-! ## All directories -/

/-- The places of the directories, but for the root. -/
theorem eq_of_mem_dir {e : Place × Node} (h : p ∈ if e.2 = .dir then some e.1 else none) :
    e = (p, .dir) := by
  obtain ⟨q, n⟩ := e
  split at h
  · next hn => rw [← Option.some.inj h, ← show n = .dir from hn]
  · simp at h

theorem mem_dirPlaces (hd : d.Proper) : p ∈ d.dirPlaces ↔ d.node? p = some .dir := by
  unfold dirPlaces
  rw [List.mem_cons, List.mem_filterMap]
  by_cases hp : p = []
  · simp [hp, node?]
  · rw [hd.node?_eq_some hp]
    constructor
    · rintro (h | ⟨e, he, h⟩)
      · exact absurd h hp
      · rwa [eq_of_mem_dir h] at he
    · exact fun h => .inr ⟨_, h, by simp⟩

theorem nodup_dirPlaces (hd : d.Proper) : d.dirPlaces.Nodup := by
  unfold dirPlaces
  rw [List.nodup_cons]
  constructor
  · intro h
    obtain ⟨e, he, h⟩ := List.mem_filterMap.1 h
    rw [eq_of_mem_dir h] at he
    exact (hd.named _ he).1 rfl
  · refine hd.once.of_map.filterMap fun a b p ha hb => ?_
    rw [eq_of_mem_dir ha, eq_of_mem_dir hb]

theorem Enters.isDir (h : d.Enters p name q) (hd : d.Proper) : d.node? q = some .dir := by
  obtain ⟨hsome, links, hl⟩ := h
  obtain ⟨n, hn⟩ := Option.isSome_iff_exists.1 hsome
  have hp : d.node? p = some .dir := by
    have ha := hd.above _ (hd.mem_nodes hn)
    rwa [List.dropLast_concat] at ha
  exact hd.node?_of_locateFrom hp hl

section

variable {top : String} {visits : List Visit}

/-- No limit is in the way of the entries of the directories on a walk. -/
def Free (d : Disk) (visits : List Visit) : Prop :=
  ∀ v ∈ visits, ∀ name, (d.node? (v.place ++ [name])).isSome →
    d.Unlimited (Path.join v.shown name)

/-- A walk from a directory that is shown under the path `top`. -/
theorem walk_eq (ignored : List String) (h : d.Shows ⟨top, r⟩) :
    d.walk ignored top = .ok (d.walkFrom ignored d.dirPlaces [⟨top, r⟩]) := by
  unfold walk
  rw [h.leads]

/-- A directory that leads to no other is all there is to walk. -/
theorem walk_of_no_dirs (h : d.Shows ⟨top, r⟩) (hr : r ∈ d.dirPlaces)
    (hn : ∀ name ∈ d.names r, d.entryDir? ⟨top, r⟩ name = none) :
    d.walk ignored top = .ok [⟨top, r⟩] := by
  have hnext : d.nextVisits ignored ⟨top, r⟩ = [] := by
    refine List.filterMap_eq_nil_iff.2 fun name hname => ?_
    rw [hn name (List.mem_filter.1 hname).1]
    rfl
  rw [walk_eq ignored h, walkFrom, dif_pos hr, hnext, List.nil_append, walkFrom]

/-- All directories on a walk are shown under paths that lead to them, and can be reached. -/
theorem shows_of_mem_walkFrom (hd : d.Proper) (htop : d.Shows ⟨top, r⟩)
    (hf : d.Free (d.walkFrom ignored unseen [⟨top, r⟩])) :
    ∀ v ∈ d.walkFrom ignored unseen [⟨top, r⟩], d.Shows v ∧ d.Reachable ignored r v.place := by
  refine forall_walkFrom (List.forall_mem_singleton.2 ⟨htop, .refl⟩) ?_
  rintro v hv ⟨hs, hr⟩ ⟨shown, q⟩ hu
  obtain ⟨name, hsome, hi, he, rfl⟩ := (mem_nextVisits hd).1 hu
  have henters : d.Enters v.place name q := (hs.entryDir?_eq_some hd (hf v hv name)).1 he
  exact ⟨hs.next hd (hf v hv name hsome) henters, hr.tail ⟨name, hi, henters⟩⟩

/-- A walk enters the directories that can be reached, each once. -/
theorem walk_places (hd : d.Proper) (htop : d.Shows ⟨top, r⟩)
    (hw : d.walk ignored top = .ok visits) (hf : d.Free visits) :
    (visits.map (·.place)).Nodup ∧ (∀ v ∈ visits, d.Shows v) ∧
      ∀ q, q ∈ visits.map (·.place) ↔ d.Reachable ignored r q := by
  rw [walk_eq ignored htop] at hw
  obtain rfl := Except.ok.inj hw
  have shows := shows_of_mem_walkFrom hd htop hf
  obtain ⟨hnodup, hunseen⟩ := nodup_walkFrom ignored [⟨top, r⟩] (nodup_dirPlaces hd)
  obtain ⟨hstart, hclosed⟩ := place_mem_walkFrom d ignored d.dirPlaces [⟨top, r⟩]
  refine ⟨hnodup, fun v hv => (shows v hv).1, fun q => ⟨fun hq => ?_, fun hq => ?_⟩⟩
  · obtain ⟨v, hv, rfl⟩ := List.mem_map.1 hq
    exact (shows v hv).2
  · induction hq with
    | refl =>
      have hr : d.node? r = some .dir := by
        have hroot : d.node? (Anchor.mk [] 0).base = some .dir := by simp [node?]
        exact hd.node?_of_locateFrom hroot (locateFrom_of_locate htop.absolute htop.leads)
      exact hstart _ List.mem_cons_self ((mem_dirPlaces hd).2 hr)
    | @tail p q _ hstep ih =>
      obtain ⟨v, hv, rfl⟩ := List.mem_map.1 ih
      obtain ⟨name, hi, he⟩ := hstep
      have hentry := ((shows v hv).1.entryDir?_eq_some hd (hf v hv name)).2 he
      have hnext : (⟨Path.join v.shown name, q⟩ : Visit) ∈ d.nextVisits ignored v :=
        (mem_nextVisits hd).2 ⟨name, he.1, hi, hentry, rfl⟩
      exact hclosed v hv _ hnext ((mem_dirPlaces hd).2 (he.isDir hd))

/-! ## The files of a walk -/

/-- An entry of a directory is looked at as a file: it leads to no directory, its name is not
ignored, and its ending is asked for. -/
structure Wanted (d : Disk) (endings ignored : List String) (p : Place) (name : String) : Prop where
  entry : (d.node? (p ++ [name])).isSome
  seen : name ∉ ignored
  ending : Path.suffixOf name ∈ endings
  noDir : ∀ q, ¬ d.Enters p name q

/-- The files to look at, each as a name in a directory of the walk. -/
def yields (d : Disk) (endings ignored : List String) (visits : List Visit) :
    List (Visit × String) :=
  visits.flatMap fun v =>
    ((d.names v.place).filter (d.isSource endings ignored v)).map fun name => (v, name)

/-- The path of a name in a directory of the walk. -/
def yieldPath (y : Visit × String) : String :=
  Path.join y.1.shown y.2

theorem sources_eq (endings : List String) (hw : d.walk ignored top = .ok visits) :
    d.sources endings ignored top = .ok ((d.yields endings ignored visits).map yieldPath) := by
  unfold sources yields
  rw [hw, List.map_flatMap]
  simp only [List.map_map]
  rfl

theorem mem_yields (hd : d.Proper) (hs : ∀ v ∈ visits, d.Shows v) (hf : d.Free visits) :
    (v, name) ∈ d.yields endings ignored visits ↔
      v ∈ visits ∧ d.Wanted endings ignored v.place name := by
  have source : ∀ v ∈ visits, ∀ name, name ∈ (d.names v.place).filter
      (d.isSource endings ignored v) ↔ d.Wanted endings ignored v.place name := by
    intro v hv name
    have hentry : (d.entryDir? v name).isNone = true ↔ ∀ q, ¬ d.Enters v.place name q := by
      rw [Option.isNone_iff_eq_none, Option.eq_none_iff_forall_ne_some]
      exact forall_congr' fun q =>
        not_congr ((hs v hv).entryDir?_eq_some hd (hf v hv name))
    rw [List.mem_filter, mem_names hd, isSource, Bool.and_eq_true, Bool.and_eq_true, hentry]
    simp only [Bool.not_eq_true', List.contains_eq_mem, decide_eq_false_iff_not, decide_eq_true_iff]
    exact ⟨fun ⟨h₁, ⟨h₂, h₃⟩, h₄⟩ => ⟨h₁, h₃, h₄, h₂⟩, fun ⟨h₁, h₃, h₄, h₂⟩ => ⟨h₁, ⟨h₂, h₃⟩, h₄⟩⟩
  unfold yields
  rw [List.mem_flatMap]
  constructor
  · rintro ⟨u, hu, hy⟩
    obtain ⟨name', hn, he⟩ := List.mem_map.1 hy
    obtain ⟨rfl, rfl⟩ := Prod.mk.inj he
    exact ⟨hu, (source u hu name').1 hn⟩
  · rintro ⟨hv, hwant⟩
    exact ⟨v, hv, List.mem_map.2 ⟨name, (source v hv name).2 hwant, rfl⟩⟩

theorem nodup_yields (endings ignored : List String) (hd : d.Proper) (hv : visits.Nodup) :
    (d.yields endings ignored visits).Nodup := by
  unfold yields
  rw [List.nodup_flatMap]
  constructor
  · intro v _
    exact ((nodup_names hd).filter _).map fun a b he => (Prod.mk.inj he).2
  · refine hv.imp fun {v u} hne => ?_
    intro y hy hy'
    obtain ⟨a, -, rfl⟩ := List.mem_map.1 hy
    obtain ⟨b, -, he⟩ := List.mem_map.1 hy'
    exact hne (Prod.mk.inj he).1.symm

/-- The files of a walk: the wanted entries of the directories on it, each once, and under paths of
their own. -/
theorem walk_yields (endings : List String) (hd : d.Proper) (htop : d.Shows ⟨top, r⟩)
    (hw : d.walk ignored top = .ok visits) (hf : d.Free visits) :
    ((d.yields endings ignored visits).map fun y => (y.1.place, y.2)).Nodup ∧
      ((d.yields endings ignored visits).map yieldPath).Nodup := by
  obtain ⟨hnodup, hshows, -⟩ := walk_places hd htop hw hf
  have hyields := nodup_yields endings ignored hd hnodup.of_map
  have place : ∀ x ∈ d.yields endings ignored visits, ∀ y ∈ d.yields endings ignored visits,
      x.1.place = y.1.place → x.2 = y.2 → x = y := by
    rintro ⟨v, a⟩ hx ⟨u, b⟩ hy hplace hname
    have hv := ((mem_yields hd hshows hf).1 hx).1
    have hu := ((mem_yields hd hshows hf).1 hy).1
    exact Prod.ext (List.inj_on_of_nodup_map hnodup hv hu hplace) hname
  refine ⟨hyields.map_on fun x hx y hy he => ?_, hyields.map_on fun x hx y hy he => ?_⟩
  · exact place x hx y hy (Prod.mk.inj he).1 (Prod.mk.inj he).2
  · obtain ⟨hxv, hxw⟩ := (mem_yields hd hshows hf).1 hx
    obtain ⟨hyv, hyw⟩ := (mem_yields hd hshows hf).1 hy
    have slash : ∀ {p name}, d.Wanted endings ignored p name → '/' ∉ name.toList := by
      intro p name hwant
      obtain ⟨n, hn⟩ := Option.isSome_iff_exists.1 hwant.entry
      exact (hd.isName hn).noSlash
    obtain ⟨hplace, hname⟩ := (hshows _ hxv).join_inj (hshows _ hyv) (slash hxw) (slash hyw) he
    exact place x hx y hy hplace hname

/-! ## One path for each file -/

/-- The directory that some names lead to, entered one after the other. -/
def descend (d : Disk) (v : Visit) : List String → Option Visit
  | [] => some v
  | name :: names =>
    (d.entryDir? v name).bind fun p => d.descend ⟨Path.join v.shown name, p⟩ names

theorem descend_append (v : Visit) (names : List String) (name : String) :
    d.descend v (names ++ [name]) = (d.descend v names).bind fun u =>
      (d.entryDir? u name).map fun p => ⟨Path.join u.shown name, p⟩ := by
  induction names generalizing v with
  | nil =>
    cases he : d.entryDir? v name <;> simp [descend, he]
  | cons first names ih =>
    rw [List.cons_append, descend, descend, Option.bind_assoc]
    exact congrArg _ (funext fun p => ih _)

/-- A directory is entered by the names that its path has more than the path of the root. -/
theorem exists_descend (hd : d.Proper) (ht : top ≠ "") :
    ∀ v ∈ d.walkFrom ignored unseen [⟨top, r⟩], v.shown ≠ "" ∧ ∃ names,
      d.descend ⟨top, r⟩ names = some v ∧
        Path.namedParts v.shown = Path.namedParts top ++ names := by
  refine forall_walkFrom (List.forall_mem_singleton.2 ⟨ht, [], rfl, by simp⟩) ?_
  rintro v hv ⟨hshown, names, hnames, hparts⟩ ⟨shown, q⟩ hu
  obtain ⟨name, hsome, -, he, rfl⟩ := (mem_nextVisits hd).1 hu
  obtain ⟨n, hn⟩ := Option.isSome_iff_exists.1 hsome
  have hname := hd.isName hn
  refine ⟨Path.join_ne_empty hname.ne_empty, names ++ [name], ?_, ?_⟩
  · rw [descend_append, hnames, Option.bind_some, he]
    rfl
  · rw [Path.namedParts_join hshown hname.noSlash hname.ne_empty, hparts, List.append_assoc]

theorem entry_of_mem_yields (hd : d.Proper) (h : (v, name) ∈ d.yields endings ignored visits) :
    v ∈ visits ∧ (d.node? (v.place ++ [name])).isSome := by
  obtain ⟨u, hu, hy⟩ := List.mem_flatMap.1 h
  obtain ⟨name', hn, he⟩ := List.mem_map.1 hy
  obtain ⟨rfl, rfl⟩ := Prod.mk.inj he
  exact ⟨hu, (mem_names hd).1 (List.mem_filter.1 hn).1⟩

/-- The path of a file has the names that lead to its directory, and its own. -/
theorem namedParts_of_mem_yields (hd : d.Proper) (ht : top ≠ "")
    (h : (v, name) ∈ d.yields endings ignored (d.walkFrom ignored unseen [⟨top, r⟩])) :
    ∃ names, d.descend ⟨top, r⟩ names = some v ∧
      Path.namedParts (yieldPath (v, name)) = Path.namedParts top ++ (names ++ [name]) := by
  obtain ⟨hv, hsome⟩ := entry_of_mem_yields hd h
  obtain ⟨n, hn⟩ := Option.isSome_iff_exists.1 hsome
  have hname := hd.isName hn
  obtain ⟨hshown, names, hnames, hparts⟩ := exists_descend hd ht v hv
  refine ⟨names, hnames, ?_⟩
  rw [yieldPath, Path.namedParts_join hshown hname.noSlash hname.ne_empty, hparts,
    List.append_assoc]

/-- No path is yielded twice, whatever links there are and whatever limit is in the way. -/
theorem nodup_sources {files : List String} (hd : d.Proper) (ht : top ≠ "")
    (hs : d.sources endings ignored top = .ok files) : files.Nodup := by
  have hwalk : ∀ visits, d.walk ignored top = .ok visits →
      ((d.yields endings ignored visits).map yieldPath).Nodup := by
    intro visits hw
    unfold walk at hw
    split at hw
    · next r _ =>
      obtain rfl := Except.ok.inj hw
      obtain ⟨hplaces, -⟩ := nodup_walkFrom ignored [⟨top, r⟩] (nodup_dirPlaces hd)
      refine (nodup_yields endings ignored hd hplaces.of_map).map_on ?_
      rintro ⟨v, a⟩ hx ⟨u, b⟩ hy he
      obtain ⟨names, hv, hpath⟩ := namedParts_of_mem_yields hd ht hx
      obtain ⟨names', hu, hpath'⟩ := namedParts_of_mem_yields hd ht hy
      rw [he, hpath'] at hpath
      obtain ⟨rfl, hlast⟩ := List.append_inj' (List.append_cancel_left hpath) rfl
      rw [hv] at hu
      rw [Option.some.inj hu, List.singleton_inj.1 hlast]
    · cases hw
    · obtain rfl := Except.ok.inj hw
      exact List.nodup_nil
    · cases hw
    · cases hw
  cases hw : d.walk ignored top with
  | error e =>
    unfold sources at hs
    rw [hw] at hs
    cases hs
  | ok visits =>
    rw [sources_eq endings hw] at hs
    obtain rfl := Except.ok.inj hs
    exact hwalk visits hw

end

end ConsoleSweep.Disk
