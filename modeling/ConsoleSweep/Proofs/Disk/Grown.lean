/-
  Trees that have grown.

  A path that leads to a directory or a file goes on leading there, so a directory that was
  made need not be made again (`stat_of_makeDirs`, `stat_of_grows`), and a file that was
  written can be written again (`file?_of_grows`). Real paths stay the same as well: a trail
  that is walked to a real path never goes through a link (`Clear`), so the next name is
  looked for through directories alone, and a new directory on the way makes no difference,
  since nothing was below it before and no link is new (`linkTarget?_of_grows`). The walk is
  then the same step by step (`realPath?_of_grows`).
-/
import ConsoleSweep.Proofs.Disk.RealPath
import ConsoleSweep.Proofs.Disk.Writes

namespace ConsoleSweep

/-- The anchor a number of directories above. -/
def Anchor.upBy (a : Anchor) : Nat → Anchor
  | 0 => a
  | n + 1 => a.up.upBy n

namespace Disk

variable {d d' : Disk} {t : Trail} {follow : Bool} {links : Nat} {dir : Anchor} {p : Place}
  {names : List String} {path : String}

/-! ## What is still there -/

/-- The open files have nothing to do with what is in the tree. -/
theorem Grows.with_held (h : Grows d d') (held : List Anchor) : Grows d { d' with held } :=
  ⟨h.dir, h.link, h.file, h.cwd, h.links, h.medium⟩

theorem stat_of_grows (h : Grows d d') {path : String} (hs : d.stat path = .ok .dir) :
    d'.stat path = .ok .dir := by
  unfold stat at hs ⊢
  split at hs
  · next q n hl =>
    obtain rfl := Except.ok.inj hs
    rw [locate_renew_of_grows h hl]
    rfl
  · next a hl =>
    rw [locate_renew_of_grows h hl]
    rfl
  · cases hs
  · cases hs

theorem file?_of_grows (h : Grows d d') {path : String} {f : File} (hf : d.file? path = some f) :
    ∃ f', d'.file? path = some f' ∧ f'.place = f.place := by
  have hl := file?_eq_some.1 hf
  obtain ⟨bytes, stamp, hp⟩ := h.file f.place ⟨_, _, node?_of_file? hf⟩
  exact ⟨⟨f.place, bytes, stamp⟩, file?_eq_some.2 (locate_of_grows h hp hl rfl), rfl⟩

/-- A path that led to a file, and leads to no device now, led to none. -/
theorem Retains.of_grows (h : d'.Retains path) (hg : Grows d d') {f : File}
    (hf : d.file? path = some f) : d.Retains path := by
  intro p hp
  obtain rfl : f.place = p := (targets_of_file? hf).unique hp
  obtain ⟨f', hf', hplace⟩ := file?_of_grows hg hf
  rw [← hg.medium, ← hplace]
  exact h _ (targets_of_file? hf')

/-- One of the paths leads to every open file. -/
def OpensLed (P : String → Prop) (d : Disk) : Prop :=
  ∀ p, Open d p → Leads P d p

theorem OpensLed.of_keeps {P : String → Prop} (h : OpensLed P d) (hk : Keeps P d d') :
    OpensLed P d' := by
  intro p hp
  rcases hk.opens p hp with hp | hp
  · exact (h p hp).of_grows hk.grows
  · exact hp

/-- The file that a path leads to is the same, unless it is open or is led to by one of `P`. -/
theorem file?_of_keeps {P : String → Prop} {path : String} {f : File} (hk : Keeps P d d')
    (ho : OpensLed P d) (hf : d.file? path = some f)
    (hn : ∀ p, d'.Targets path p → ¬ Leads P d' p) : d'.file? path = some f := by
  obtain ⟨⟨place, bytes, stamp⟩, hf', rfl⟩ := file?_of_grows hk.grows hf
  have htargets := targets_of_file? hf'
  have hapart : ¬ Leads P d' f.place := hn _ htargets
  have hopen : ¬ Open d f.place := fun hp => hapart ((ho _ hp).of_grows hk.grows)
  have hsame := (hk.spares f.place hopen hapart bytes stamp).1 (node?_of_file? hf')
  obtain ⟨rfl, rfl⟩ := Node.file.inj (Option.some.inj (hsame.symm.trans (node?_of_file? hf)))
  exact hf'

/-- Where names lead is told by the nodes alone. -/
theorem locateFrom_of_nodes (h : ∀ p, d'.node? p = d.node? p) (follow : Bool) (links : Nat)
    (dir : Anchor) (todo : List String) :
    d'.locateFrom follow links dir todo = d.locateFrom follow links dir todo := by
  fun_induction locateFrom d follow links dir todo <;> rw [locateFrom] <;> grind

/-- Which files are open makes no difference to where a path leads. -/
theorem locate_with_held (d : Disk) (held : List Anchor) (follow : Bool) (path : String) :
    ({ d with held } : Disk).locate follow path = d.locate follow path := by
  have hsame := @locateFrom_of_nodes d { d with held } fun _ => rfl
  unfold locate
  rw [hsame]

theorem stat_with_held (d : Disk) (held : List Anchor) (path : String) :
    ({ d with held } : Disk).stat path = d.stat path := by
  unfold stat
  rw [locate_with_held]

theorem file?_with_held (d : Disk) (held : List Anchor) (path : String) :
    ({ d with held } : Disk).file? path = d.file? path := by
  unfold file?
  rw [locate_with_held]

/-- With the same files open, one of the paths leads to each of them still. -/
theorem OpensLed.of_held {P : String → Prop} (h : OpensLed P d) (hg : Grows d d')
    (hh : d'.held = d.held) : OpensLed P d' := by
  rintro p ⟨a, ha, hp⟩
  exact (h p ⟨a, hh ▸ ha, hp⟩).of_grows hg

/-- A text is still found under its path after work that leaves the file alone; and after the files
that were open earlier are opened again and written, which are others. -/
theorem text?_reopened {P : String → Prop} {d₁ d₂ d₃ d₄ : Disk} {text : List Char}
    (ht : d₂.text? path = some text) (ho₁ : OpensLed P d₁) (ho₂ : OpensLed P d₂)
    (hk : Keeps P d₂ d₃) (hg : Grows d₁ d₃)
    (hapart : ∀ p, d₃.Targets path p → ¬ Leads P d₃ p)
    (hw : Writes (Open { d₃ with held := d₁.held }) { d₃ with held := d₁.held } d₄) :
    d₄.text? path = some text := by
  obtain ⟨f, hf, htext⟩ := Option.bind_eq_some_iff.1 ht
  have hf₃ := file?_of_keeps hk ho₂ hf hapart
  have hf₃' := (file?_with_held d₃ d₁.held path).trans hf₃
  have hf₄ : d₄.file? path = some f := by
    rw [file?_of_writes hw, hf₃']
    intro p hp hopen
    obtain rfl := hp.unique (targets_of_file? hf₃')
    exact hapart _ (targets_of_file? hf₃) ((ho₁ _ hopen).of_grows hg)
  unfold text?
  rw [hf₄]
  exact htext

/-- A directory that was made is there. -/
theorem stat_of_makeDir {path : String} (h : d.makeDir path = .ok d') :
    d'.stat path = .ok .dir := by
  have hg : Grows d d' := (keeps_makeDir (P := fun _ => False) h).grows
  obtain ⟨dir, name, hl, -, rfl⟩ := makeDir_eq_ok h
  have hfollow := locate_followed hl (by simp)
  unfold stat
  rw [locate_renew_of_grows hg hfollow]
  simp only [Found.renew, node?_setNode (d := d) (p := dir ++ [name]) (by simp), if_true]

theorem stat_of_isDir {path : String} (h : d.isDir path = true) : d.stat path = .ok .dir := by
  unfold isDir at h
  split at h
  · assumption
  · cases h

/-- Directories that were made are there, the last one at least. -/
theorem stat_of_makeDirs {root : String} {parts : List String}
    (h : d.makeDirs root parts = (d', none)) : d'.stat (Path.mk root parts).text = .ok .dir := by
  have hmade : ∀ e : Disk, e.isDir (Path.mk root parts).text = true → e = d' →
      d'.stat (Path.mk root parts).text = .ok .dir := by
    rintro e he rfl
    exact stat_of_isDir he
  unfold makeDirs at h
  dsimp only at h
  split at h
  · next e hm =>
    obtain rfl : e = d' := congrArg Prod.fst h
    exact stat_of_makeDir hm
  · split at h
    · cases congrArg Prod.snd h
    · split at h
      · cases congrArg Prod.snd h
      · split at h
        · next e hm =>
          obtain rfl : e = d' := congrArg Prod.fst h
          exact stat_of_makeDir hm
        · cases congrArg Prod.snd h
        · split at h
          · next hd => exact hmade _ hd (congrArg Prod.fst h)
          · cases congrArg Prod.snd h
  · split at h
    · next hd => exact hmade _ hd (congrArg Prod.fst h)
    · cases congrArg Prod.snd h

/-! ## Where a trail leads -/

/-- The directory that the names of a trail start at. -/
def Trail.base (t : Trail) (cwd : Anchor) : Anchor :=
  if t.isRooted then ⟨[], 0⟩ else cwd.upBy t.ups

theorem locateFrom_empties {empties : List String} (h : ∀ part ∈ empties, part = "")
    (rest : List String) : d.locateFrom follow links dir (empties ++ rest) =
      d.locateFrom follow links dir rest := by
  induction empties with
  | nil => rfl
  | cons part empties ih =>
    obtain ⟨rfl, hrest⟩ := List.forall_mem_cons.1 h
    rw [List.cons_append, locateFrom, if_pos (by decide), ih hrest]

theorem locateFrom_ups (n : Nat) (rest : List String) :
    d.locateFrom follow links dir (List.replicate n ".." ++ rest) =
      d.locateFrom follow links (dir.upBy n) rest := by
  induction n generalizing dir with
  | zero => rfl
  | succ n ih =>
    rw [List.replicate_succ, List.cons_append, locateFrom, if_neg (by decide), if_pos rfl, ih]
    rfl

/-- The parts of a trail that does not start at a root have no slash in them. -/
theorem Trail.Normal.noSlash (ht : t.Normal) :
    ∀ part ∈ List.replicate t.ups ".." ++ t.names, '/' ∉ part.toList := by
  intro part hpart
  rcases List.mem_append.1 hpart with hpart | hpart
  · rw [List.eq_of_mem_replicate hpart]
    decide
  · exact (ht.names part hpart).noSlash

theorem Trail.Normal.isAbsolute_text (ht : t.Normal) : Path.isAbsolute t.text = t.isRooted := by
  obtain ⟨root, ups, names⟩ := t
  obtain ⟨hroot, hups, hnames⟩ := ht
  unfold Trail.text Trail.isRooted
  rcases hroot with rfl | rfl | rfl
  · cases ups with
    | zero =>
      have hhead := Path.head?_intercalate hnames
      have hfalse : Path.isAbsolute ("/".intercalate names) = false := by
        unfold Path.isAbsolute
        simpa using hhead
      simpa using hfalse
    | succ n =>
      unfold Path.isAbsolute
      cases h : List.replicate n ".." ++ names <;>
        simp [List.replicate_succ, h, String.toList_intercalate]
  · simp [Path.isAbsolute]
  · simp [Path.isAbsolute]

/-- A trail is followed through its names. -/
theorem locate_trail (ht : t.Normal) (hne : t.text ≠ "")
    (hl : Text.byteLength t.text ≤ pathLimit) :
    d.locate follow t.text = d.locateFrom follow linkLimit (t.base d.cwd) t.names := by
  unfold locate Trail.base
  rw [if_neg hne, if_neg (Nat.not_lt.2 hl), ht.isAbsolute_text]
  split
  · next hr =>
    have hroot : t.root ≠ "" := by simpa [Trail.isRooted] using hr
    obtain ⟨empties, he, hs⟩ := Path.splitAt_normal (ht.root.resolve_left hroot) ht.names
    unfold Trail.text
    rw [ht.ups hroot, List.replicate_zero, List.nil_append, hs, locateFrom_empties he]
  · next hr =>
    have hroot : t.root = "" := by simpa [Trail.isRooted] using hr
    have htext : t.text = "/".intercalate (List.replicate t.ups ".." ++ t.names) := by
      unfold Trail.text
      rw [hroot, String.empty_append]
    have hparts : List.replicate t.ups ".." ++ t.names ≠ [] := by
      intro hnil
      rw [hnil] at htext
      exact hne htext
    rw [htext, Text.splitAt_intercalate hparts ht.noSlash, locateFrom_ups]

/-- The target of the link that was found. -/
def foundLink? : Except Errno Found → Option String
  | .ok (.node _ (.link target)) => some target
  | _ => none

theorem linkTarget?_eq (ht : t.Normal) : d.linkTarget? t =
    if t.text = "" ∨ pathLimit < Text.byteLength t.text then none
    else foundLink? (d.locateFrom false linkLimit (t.base d.cwd) t.names) := by
  change foundLink? (d.locate false t.text) = _
  split
  · next h =>
    unfold locate
    rcases h with h | h
    · simp [h, foundLink?]
    · by_cases hne : t.text = ""
      · simp [hne, foundLink?]
      · simp [hne, h, foundLink?]
  · next h =>
    obtain ⟨hne, hl⟩ := not_or.1 h
    rw [locate_trail ht hne (Nat.not_lt.1 hl)]

/-! ## Trails without links -/

/-- No link stands at the end of the trail or on the way to it. -/
def Clear (d : Disk) (t : Trail) : Prop :=
  ∀ names, names <+: t.names → d.linkTarget? { t with names } = none

theorem Trail.Normal.shorter (ht : t.Normal) (h : names <+: t.names) :
    ({ t with names } : Trail).Normal :=
  ⟨ht.root, ht.ups, fun name hname => ht.names name (h.subset hname)⟩

theorem foundLink?_nil : foundLink? (d.locateFrom follow links dir []) = none := by
  rw [locateFrom]
  split <;> rfl

theorem clear_of_no_names (ht : t.Normal) (h : t.names = []) : Clear d t := by
  intro names hnames
  rw [h] at hnames
  obtain rfl := List.prefix_nil.1 hnames
  rw [linkTarget?_eq (ht.shorter (List.nil_prefix)), foundLink?_nil, ite_self]

theorem Clear.startOf (ht : Clear d t) (path : String) : Clear d (Trail.startOf path t) := by
  unfold Trail.startOf
  split
  · exact clear_of_no_names (normal_atRoot (.inl rfl)) rfl
  · exact ht

/-- A step by a sign. -/
theorem Clear.sign {name : String} (hc : Clear d t) (ht : t.Normal)
    (hs : (name = "" || name = "." || name = "..") = true) : Clear d (t.step name) := by
  unfold Trail.step
  split
  · exact hc
  · next hpoint =>
    have hup : name = ".." := by simpa [hpoint] using hs
    rw [if_neg (by simp [hup])]
    split
    · exact fun names hnames => hc names (hnames.trans (List.dropLast_prefix _))
    · next hempty =>
      split
      · exact hc
      · next hrooted =>
        refine clear_of_no_names ⟨ht.root, fun hne => absurd ?_ hrooted, ht.names⟩ ?_
        · simpa [Trail.isRooted] using hne
        · simpa using hempty

theorem step_of_name {name : String} (hs : ¬ (name = "" || name = "." || name = "..") = true) :
    t.step name = { t with names := t.names ++ [name] } := by
  simp only [Bool.or_eq_true, decide_eq_true_eq, not_or] at hs
  unfold Trail.step
  rw [if_neg (by simp [hs]), if_pos hs.2]

/-- A step by a name that is no link. -/
theorem Clear.name {name : String} (hc : Clear d t)
    (hs : ¬ (name = "" || name = "." || name = "..") = true)
    (hlink : d.linkTarget? (t.step name) = none) : Clear d (t.step name) := by
  rw [step_of_name hs] at hlink ⊢
  intro names hnames
  rcases List.prefix_concat_iff.1 hnames with rfl | hnames
  · exact hlink
  · exact hc names hnames

/-! ## Links in a tree that has grown -/

/-- Below a place that was no directory there is no link. -/
theorem foundLink?_of_new (hd : d.Proper) (h : Grows d d') (hp : d.node? p ≠ some .dir)
    (hn : ∀ name ∈ names, Path.IsPart name) :
    foundLink? (d'.locateFrom false links ⟨p, 0⟩ names) = none := by
  induction names generalizing p with
  | nil => exact foundLink?_nil
  | cons name rest ih =>
    obtain ⟨hname, hrest⟩ := List.forall_mem_cons.1 hn
    have habove : ∀ n, d.node? (p ++ [name]) ≠ some n := by
      intro n hnode
      have hdir := hd.above _ (hd.mem_nodes hnode)
      rw [List.dropLast_concat] at hdir
      exact hp hdir
    have hplain := hname.plain
    simp only [List.mem_cons, List.not_mem_nil, or_false, not_or] at hplain
    rw [locateFrom, if_neg (by simp [hplain]), if_neg hplain.2.2, if_neg (by simp)]
    split
    · rfl
    · dsimp only
      split
      · split <;> rfl
      · exact ih (habove _) hrest
      · split <;> rfl
      · next target hlink => exact absurd (h.link_of_link hlink) (habove _)

/-- Through names on the way to which there is no link, the same link is found. -/
theorem foundLink?_of_grows (hd : d.Proper) (h : Grows d d')
    (hn : ∀ name ∈ names, Path.IsPart name)
    (hclear : ∀ front, front <+: names → front ≠ names →
      foundLink? (d.locateFrom false links dir front) = none) :
    foundLink? (d'.locateFrom false links dir names) =
      foundLink? (d.locateFrom false links dir names) := by
  induction names generalizing dir with
  | nil => rw [foundLink?_nil, foundLink?_nil]
  | cons name rest ih =>
    obtain ⟨hname, hrest⟩ := List.forall_mem_cons.1 hn
    have hplain := hname.plain
    simp only [List.mem_cons, List.not_mem_nil, or_false, not_or] at hplain
    have hpoint : ¬ (name = "" || name = ".") = true := by simp [hplain]
    rw [locateFrom, locateFrom.eq_def d, if_neg hpoint]
    simp only [if_neg hpoint, if_neg hplain.2.2]
    by_cases hgone : dir.gone ≠ 0
    · rw [if_pos hgone, if_pos hgone]
    by_cases hlong : nameLimit < Text.byteLength name
    · rw [if_neg hgone, if_neg hgone, if_pos hlong, if_pos hlong]
    rw [if_neg hgone, if_neg hgone, if_neg hlong, if_neg hlong]
    cases hnode : d.node? (dir.base ++ [name]) with
    | none =>
      have hnew : foundLink? (if rest = [] then .ok (.vacant dir.base name)
          else .error .missing) = none := by split <;> rfl
      simp only [hnew]
      cases hnode' : d'.node? (dir.base ++ [name]) with
      | none => exact hnew
      | some n =>
        cases n with
        | dir => exact foundLink?_of_new hd h (by simp [hnode]) hrest
        | file bytes stamp => dsimp only; split <;> rfl
        | link target =>
          have hold := h.link_of_link hnode'
          rw [hnode] at hold
          cases hold
    | some n =>
      cases n with
      | dir =>
        simp only [h.dir _ hnode]
        refine ih hrest fun front hpre hne => ?_
        have hmore := hclear (name :: front) (List.cons_prefix_cons.2 ⟨rfl, hpre⟩)
          (by simpa using hne)
        rw [locateFrom, if_neg hpoint, if_neg hplain.2.2, if_neg hgone, if_neg hlong] at hmore
        simpa only [hnode] using hmore
      | file bytes stamp =>
        obtain ⟨bytes', stamp', hnode'⟩ := h.file _ ⟨bytes, stamp, hnode⟩
        simp only [hnode']
        split <;> rfl
      | link target =>
        have hlast : rest = [] := by
          refine Decidable.byContradiction fun hne => ?_
          have hone := hclear [name] (List.cons_prefix_cons.2 ⟨rfl, List.nil_prefix⟩)
            (by simpa using Ne.symm hne)
          rw [locateFrom, if_neg hpoint, if_neg hplain.2.2, if_neg hgone, if_neg hlong] at hone
          simp [hnode, foundLink?] at hone
        simp only [h.link _ _ hnode, hlast]
        rfl

theorem intercalate_prefix (sep : List Char) {a b : List (List Char)} (h : a <+: b) :
    sep.intercalate a <+: sep.intercalate b := by
  induction a generalizing b with
  | nil => exact List.nil_prefix
  | cons x a ih =>
    obtain ⟨rest, rfl⟩ := h
    cases a with
    | nil =>
      cases rest with
      | nil => exact List.prefix_rfl
      | cons y rest =>
        rw [List.intercalate_singleton, List.singleton_append, List.intercalate_cons_cons,
          List.append_assoc]
        exact List.prefix_append _ _
    | cons y a =>
      rw [List.cons_append, List.cons_append, List.intercalate_cons_cons,
        List.intercalate_cons_cons]
      exact (List.prefix_append_right_inj _).2 (ih (List.prefix_append (y :: a) rest))

/-- A trail that ends earlier has no longer text. -/
theorem byteLength_shorter (h : names <+: t.names) :
    Text.byteLength ({ t with names } : Trail).text ≤ Text.byteLength t.text := by
  have hparts : (List.replicate t.ups ".." ++ names).map String.toList <+:
      (List.replicate t.ups ".." ++ t.names).map String.toList :=
    ((List.prefix_append_right_inj _).2 h).map _
  obtain ⟨more, hmore⟩ := intercalate_prefix ['/'] hparts
  have htext : t.text.toList = ({ t with names } : Trail).text.toList ++ more := by
    unfold Trail.text
    rw [String.toList_append, String.toList_append, String.toList_intercalate,
      String.toList_intercalate, List.append_assoc]
    exact congrArg _ hmore.symm
  unfold Text.byteLength
  rw [htext]
  unfold Text.encode
  rw [List.flatMap_append, List.length_append]
  exact Nat.le_add_right _ _

/-- A trail without text has no names. -/
theorem Trail.Normal.names_eq_nil (ht : t.Normal) (h : t.text = "") : t.names = [] := by
  obtain ⟨-, hparts⟩ : t.root = "" ∧ "/".intercalate (List.replicate t.ups ".." ++ t.names) = "" :=
    String.append_eq_empty_iff.1 h
  by_cases hnil : List.replicate t.ups ".." ++ t.names = []
  · exact (List.append_eq_nil_iff.1 hnil).2
  · have hsplit := Text.splitAt_intercalate hnil ht.noSlash
    rw [hparts, show Text.splitAt '/' "" = [""] from rfl] at hsplit
    refine List.eq_nil_iff_forall_not_mem.2 fun name hname => ?_
    have hone : name ∈ [""] := hsplit ▸ List.mem_append_right _ hname
    exact (ht.names name hname).plain (by simp [List.mem_singleton.1 hone])

/-- A trail that is clear up to its end finds the same link there. -/
theorem linkTarget?_of_grows (hd : d.Proper) (h : Grows d d') (ht : t.Normal)
    (hclear : ∀ names, names <+: t.names → names ≠ t.names →
      d.linkTarget? { t with names } = none) :
    d'.linkTarget? t = d.linkTarget? t := by
  rw [linkTarget?_eq ht, linkTarget?_eq ht, h.cwd]
  split
  · rfl
  · next hfit =>
    obtain ⟨-, hshort⟩ := not_or.1 hfit
    refine foundLink?_of_grows hd h ht.names fun names hpre hne => ?_
    have hnone := hclear names hpre hne
    rw [linkTarget?_eq (ht.shorter hpre)] at hnone
    split at hnone
    · next hbad =>
      rcases hbad with hempty | hlong
      · obtain rfl : names = [] := (ht.shorter hpre).names_eq_nil hempty
        exact foundLink?_nil
      · exact absurd (Nat.lt_of_lt_of_le hlong (byteLength_shorter hpre)) hshort
    · exact hnone

/-- The next name on a clear trail is a link, or none, in both trees. -/
theorem linkTarget?_step (hd : d.Proper) (h : Grows d d') (ht : t.Normal) (hc : Clear d t)
    {name : String} (hs : ¬ (name = "" || name = "." || name = "..") = true)
    (hslash : '/' ∉ name.toList) : d'.linkTarget? (t.step name) = d.linkTarget? (t.step name) := by
  refine linkTarget?_of_grows hd h (ht.step hslash) fun names hpre hne => ?_
  rw [step_of_name hs] at hpre hne ⊢
  exact hc names ((List.prefix_concat_iff.1 hpre).resolve_left hne)

/-- The walk to a real path is the same in a tree that has grown. -/
theorem realFrom_of_grows {met : List (Trail × Option Trail)} {todo : List Step} (hd : d.Proper)
    (h : Grows d d') (ht : t.Normal) (hc : Clear d t)
    (hm : ∀ link goal, (link, some goal) ∈ met → goal.Normal ∧ Clear d goal)
    (hdiv : Divided todo) : d'.realFrom links met t todo = d.realFrom links met t todo := by
  fun_induction realFrom d links met t todo with
  | case1 => rw [realFrom]
  | case2 links met t link rest ih =>
    rw [realFrom]
    refine ih ht hc (fun l goal hmem => ?_) hdiv.rest
    rcases List.mem_cons.1 hmem with heq | hmem
    · obtain ⟨-, hgoal⟩ := Prod.mk.inj heq
      obtain rfl := Option.some.inj hgoal
      exact ⟨ht, hc⟩
    · exact hm l goal hmem
  | case3 links met t s rest next hs ih =>
    rw [realFrom, if_pos hs]
    exact ih (ht.step (hdiv s List.mem_cons_self)) (hc.sign ht hs) hm hdiv.rest
  | case4 links met t s rest next hs hlink ih =>
    have hslash := hdiv s List.mem_cons_self
    have hsame := linkTarget?_step hd h ht hc hs hslash
    rw [realFrom, if_neg hs]
    simp only [hsame, show d.linkTarget? (t.step s) = none from hlink]
    exact ih (ht.step hslash) (hc.name hs hlink) hm hdiv.rest
  | case5 links met t s rest next hs target goal hmet hlink ih =>
    have hsame := linkTarget?_step hd h ht hc hs (hdiv s List.mem_cons_self)
    obtain ⟨hgoal, hclear⟩ := hm next goal (mem_of_lookup hmet)
    rw [realFrom, if_neg hs]
    simp only [hsame, show d.linkTarget? (t.step s) = some target from hlink,
      show met.lookup (t.step s) = some (some goal) from hmet]
    exact ih hgoal hclear hm hdiv.rest
  | case6 links met t s rest next hs target hmet hlink =>
    have hsame := linkTarget?_step hd h ht hc hs (hdiv s List.mem_cons_self)
    rw [realFrom, if_neg hs]
    simp only [hsame, show d.linkTarget? (t.step s) = some target from hlink,
      show met.lookup (t.step s) = some none from hmet]
    rfl
  | case7 met t s rest next hs target hmet hlink =>
    have hsame := linkTarget?_step hd h ht hc hs (hdiv s List.mem_cons_self)
    rw [realFrom, if_neg hs]
    simp only [hsame, show d.linkTarget? (t.step s) = some target from hlink,
      show met.lookup (t.step s) = none from hmet]
    rfl
  | case8 met t s rest next hs target hmet hlink links ih =>
    have hsame := linkTarget?_step hd h ht hc hs (hdiv s List.mem_cons_self)
    rw [realFrom, if_neg hs]
    simp only [hsame, show d.linkTarget? (t.step s) = some target from hlink,
      show met.lookup (t.step s) = none from hmet]
    refine ih (ht.startOf target) (hc.startOf target) (fun link goal hmem => ?_)
      fun name hname => ?_
    · rcases List.mem_cons.1 hmem with heq | hmem
      · cases (Prod.mk.inj heq).2
      · exact hm link goal hmem
    · rcases List.mem_append.1 hname with hname | hname
      · exact divided_stepsOf target name hname
      · rcases List.mem_cons.1 hname with heq | hname
        · cases heq
        · exact hdiv.rest name hname

/-- A path has the same real path in a tree that has grown. -/
theorem realPath?_of_grows (hd : d.Proper) (h : Grows d d') (path : String) :
    d'.realPath? path = d.realPath? path := by
  unfold realPath? trailLimit
  rw [h.cwd, h.links, realFrom_of_grows hd h (normal_here.startOf path)
    ((clear_of_no_names normal_here rfl).startOf path) (by simp) (divided_stepsOf path)]

end Disk

end ConsoleSweep
