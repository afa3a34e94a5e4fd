/-
  Calls laid into other text.

  An `Inlaid` text is made of pieces without the keyword and of calls between them, each
  behind something else on its line and outside of the comments. In such a text heads start
  where the calls do and nowhere else (`mem_leads_of_mem_heads`), so the passes on statements
  find nothing. The pass for calls anywhere in a line takes each call with the blanks before
  it, and what it skips behind it, also where two calls share the blanks between them
  (`rewritten_woven`). What is left does not hold the keyword, so the removal is done
  (`removeCalls_inlaid`).
-/
import Mathlib.Data.Bool.AllAny
import Mathlib.Data.List.DropRight
import ConsoleSweep.Proofs.Removal.Inline

namespace ConsoleSweep.Comment

open ConsoleSweep.Text

/-- Comments start with a slash. So if a place is in none, the places behind it are in none up to
the next slash. -/
theorem not_covered_of_no_slash {text a b z : List Char} (e : text = a ++ (b ++ z))
    (hb : '/' ∉ b) (h : ¬ Covered (spans text) a.length) {i : Nat} (hle : a.length ≤ i)
    (hlt : i < a.length + b.length) : ¬ Covered (spans text) i := by
  rintro ⟨s, hs, hstart, hstop⟩
  have hslash : text[s.start]? = some '/' := by
    simpa using (List.mem_filter.1 hs).2
  by_cases hbefore : s.start ≤ a.length
  · exact h ⟨s, hs, hbefore, by omega⟩
  · rw [e, List.getElem?_append_right (by omega), List.getElem?_append_left (by omega)] at hslash
    exact hb (List.mem_of_getElem? hslash)

end ConsoleSweep.Comment

namespace ConsoleSweep.Removal

open ConsoleSweep.Text ConsoleSweep.Call

/-! ## Texts with calls laid in -/

/-- A call, and the piece of text behind it. -/
structure Inlay (names : List String) where
  name : String
  args : List Char
  piece : List Char
  name_mem : name ∈ names
  args_open : ∀ c ∈ args, c ≠ ')' ∧ isStop c = false
  args_free : holds keyword args = false
  no_function : holds "function".toList (headText [] [] [] name ++ (args ++ [')'])) = false
  piece_free : holds keyword piece = false

section

variable {names : List String}

def Inlay.call (i : Inlay names) : List Char :=
  headText [] [] [] i.name ++ (i.args ++ [')'])

/-- A first piece, and calls with the pieces behind them. -/
def woven : List Char → List (Inlay names) → List Char
  | p, [] => p
  | p, i :: rest => p ++ (i.call ++ woven i.piece rest)

/-- What leads up to each of the calls. -/
def leads : List Char → List (Inlay names) → List (List Char)
  | _, [] => []
  | x, i :: rest => x :: leads (x ++ (i.call ++ i.piece)) rest

/-- The pieces without the blanks before each call, and without the blanks and the semicolon behind
it. -/
def cutOut : List Char → List (Inlay names) → List Char
  | p, [] => p
  | p, i :: rest => p.rdropWhile isIndent ++ cutOut (skipSemicolon (skipIndent i.piece)) rest

end

/-- In the text, a word may start behind `x`, but it would not be the first on its line. The blanks
that `x` ends with start outside of the comments. -/
structure Placed (text x : List Char) : Prop where
  starts : startsWord (behind none x) = true
  not_first : ∃ c ∈ x.rtakeWhile (· ≠ '\n'), isIndent c = false
  not_comment : ¬ Covered (Comment.spans text) (x.rdropWhile isIndent).length

instance (text x : List Char) : Decidable (Placed text x) :=
  decidable_of_iff (startsWord (behind none x) = true ∧
      (x.rtakeWhile (· ≠ '\n')).any (!isIndent ·) = true ∧
      ¬ insideAny (Comment.spans text).toArray (x.rdropWhile isIndent).length = true) <| by
    rw [insideAny_iff_covered (Comment.apart_spans text), List.any_eq_true]
    constructor
    · rintro ⟨hstarts, ⟨c, hc, hsolid⟩, hout⟩
      exact ⟨hstarts, ⟨c, hc, by simpa using hsolid⟩, hout⟩
    · rintro ⟨hstarts, ⟨c, hc, hsolid⟩, hout⟩
      exact ⟨hstarts, ⟨c, hc, by simpa using hsolid⟩, hout⟩

section

variable {names : List String}

/-- Of a text, `x` has been passed. A piece, or what the pass has not skipped of one, and calls with
their pieces follow. -/
structure Laid (text x p : List Char) (inlays : List (Inlay names)) : Prop where
  text_eq : text = x ++ woven p inlays
  free : holds keyword p = false
  placed : ∀ u ∈ leads (x ++ p) inlays, Placed text u

theorem woven_append (t q : List Char) (rest : List (Inlay names)) :
    woven (t ++ q) rest = t ++ woven q rest := by
  cases rest with
  | nil => rfl
  | cons i rest => exact List.append_assoc t q _

theorem Laid.next {text x p t q : List Char} {i : Inlay names} {rest : List (Inlay names)}
    (h : Laid text x p (i :: rest)) (e : i.piece = t ++ q) :
    Laid text (x ++ (p ++ (i.call ++ t))) q rest where
  text_eq := by
    rw [h.text_eq, woven, e, woven_append]
    simp
  free := holds_eq_false_of_suffix (e ▸ i.piece_free)
  placed u hu := by
    refine h.placed u (List.mem_cons_of_mem _ ?_)
    rw [e]
    simpa using hu

theorem Laid.starts {text x p : List Char} {i : Inlay names} {rest : List (Inlay names)}
    (h : Laid text x p (i :: rest)) : startsWord (behind none (x ++ p)) = true :=
  (h.placed _ List.mem_cons_self).starts

theorem Inlay.call_append (i : Inlay names) (z : List Char) :
    i.call ++ z = headText [] [] [] i.name ++ (i.args ++ ')' :: z) := by
  simp [call]

/-! ## Where heads start -/

theorem length_le_of_mem_leads {x u : List Char} {inlays : List (Inlay names)}
    (h : u ∈ leads x inlays) : x.length ≤ u.length := by
  induction inlays generalizing x with
  | nil => cases h
  | cons i rest ih =>
    rcases List.mem_cons.1 h with rfl | h
    · exact Nat.le_refl _
    · have hle := ih h
      rw [List.length_append] at hle
      omega

/-- No head starts among the arguments of a call: a head has no parenthesis of this kind. -/
theorem Inlay.not_mem_heads (i : Inlay names) {prev : Option Char} {u v z r : List Char}
    (e : i.args = u ++ v) : r ∉ heads names prev (v ++ ')' :: z) := by
  intro hr
  obtain ⟨t, rfl⟩ := isPrefix_of_append_cons (by decide) (isPrefix_of_mem_heads hr)
  exact Bool.eq_false_iff.1 i.args_free (holds_iff.2 ⟨u, t, e⟩)

/-- A head that starts behind that of a call starts behind the call. -/
theorem Inlay.exists_of_mem_heads (hw : Wordy names) (i : Inlay names) {prev : Option Char}
    (hp : startsWord prev = true) {w v z r : List Char} (e : i.call ++ z = w ++ v) (hne : w ≠ [])
    (hr : r ∈ heads names (behind prev w) v) : ∃ b, w = i.call ++ b ∧ z = b ++ v := by
  have hhead := mem_heads_headText hw i.name_mem hp (i.args ++ ')' :: z)
  rw [← i.call_append, e] at hhead
  have hlen := length_le_of_mem_heads hw hne hhead hr
  rw [i.call_append] at e
  obtain ⟨a, ha⟩ : v <:+ i.args ++ ')' :: z :=
    List.suffix_of_suffix_length_le ⟨w, e.symm⟩ ⟨_, rfl⟩ hlen
  rcases List.append_eq_append_iff.1 ha with ⟨b, hargs, rfl⟩ | ⟨b, rfl, hb⟩
  · exact absurd hr (i.not_mem_heads hargs)
  · cases b with
    | nil =>
      rw [← List.nil_append v, ← hb] at hr
      exact absurd hr (i.not_mem_heads (List.append_nil _).symm)
    | cons d b =>
      obtain ⟨rfl, rfl⟩ := List.cons.inj hb
      refine ⟨b, ?_, rfl⟩
      apply List.append_cancel_right
      rw [← e]
      simp [Inlay.call]

/-- A head starts where one of the calls does. -/
theorem mem_leads_of_mem_heads (hw : Wordy names) {text x p : List Char}
    {inlays : List (Inlay names)} (h : Laid text x p inlays) {u v r : List Char}
    (e : woven p inlays = u ++ v) (hr : r ∈ heads names (behind none (x ++ u)) v) :
    x ++ u ∈ leads (x ++ p) inlays := by
  induction inlays generalizing x p u with
  | nil =>
    have hcall : HoldsCall names (behind none x) p := ⟨u, v, r, e, by rwa [← behind_append]⟩
    exact absurd hcall (not_holdsCall_of_free h.free)
  | cons i rest ih =>
    rw [woven] at e
    rcases List.append_eq_append_iff.1 e with ⟨w, rfl, hv⟩ | ⟨w, rfl, rfl⟩
    · by_cases hne : w = []
      · rw [hne, List.append_nil]
        exact List.mem_cons_self
      · have hr' : r ∈ heads names (behind (behind none (x ++ p)) w) v := by
          rwa [← behind_append, List.append_assoc]
        obtain ⟨b, rfl, hpiece⟩ := i.exists_of_mem_heads hw h.starts hv hne hr'
        have hplace : x ++ (p ++ (i.call ++ [])) ++ b = x ++ (p ++ (i.call ++ b)) := by simp
        have hmem := ih (h.next (List.nil_append i.piece).symm) hpiece (by rwa [hplace])
        rw [hplace] at hmem
        refine List.mem_cons_of_mem _ ?_
        simpa using hmem
    · rcases List.eq_nil_or_concat' w with rfl | ⟨w, c, rfl⟩
      · rw [List.append_nil]
        exact List.mem_cons_self
      · -- The keyword would start in the piece, and it cannot go on into the call.
        have hstarts := h.starts
        have hfree := h.free
        rw [← List.append_assoc u w [c]] at hstarts hfree
        rw [← List.append_assoc x, behind_concat] at hstarts
        have hapart : ¬ keyword <+: w ++ [c] ++ (i.call ++ woven i.piece rest) :=
          not_isPrefix_append (not_mem_keyword_of_startsWord hstarts) hfree
            (List.append_assoc u w [c]) (by simp)
        exact absurd (isPrefix_of_mem_heads hr) hapart

/-! ## The passes on statements -/

theorem rtakeWhile_line {x ind : List Char} (hx : startsLine (behind none x) = true)
    (hi : ∀ c ∈ ind, isIndent c = true) : (x ++ ind).rtakeWhile (· ≠ '\n') = ind := by
  have hbreak : ∀ c ∈ ind.reverse, decide (c ≠ '\n') = true := by
    intro c hc
    have hindent := hi c (List.mem_reverse.1 hc)
    refine decide_eq_true fun e => ?_
    rw [e] at hindent
    exact absurd hindent (by decide)
  unfold List.rtakeWhile
  rcases List.eq_nil_or_concat' x with rfl | ⟨w, c, rfl⟩
  · rw [List.nil_append, List.takeWhile_eq_self_iff.2 hbreak, List.reverse_reverse]
  · rw [behind_concat] at hx
    obtain rfl : c = '\n' := by simpa [startsLine] using hx
    rw [List.reverse_append, List.takeWhile_append_of_pos hbreak]
    simp

/-- No call is the first on its line. -/
theorem Laid.indentedHeads_eq_nil (hw : Wordy names) {text p : List Char}
    {inlays : List (Inlay names)} (h : Laid text [] p inlays) {u v : List Char}
    (e : text = u ++ v) (hu : startsLine (behind none u) = true) :
    indentedHeads names (behind none u) v = [] := by
  rw [List.eq_nil_iff_forall_not_mem]
  intro r hr
  have hr' := mem_heads_behind_indent hr
  rw [← behind_append] at hr'
  have hwoven : woven p inlays = u ++ v.takeWhile isIndent ++ skipIndent v := by
    rw [List.append_assoc, skipIndent_split, ← e, h.text_eq, List.nil_append]
  have hmem := mem_leads_of_mem_heads hw h hwoven hr'
  obtain ⟨c, hc, hsolid⟩ := (h.placed _ hmem).not_first
  rw [List.nil_append, rtakeWhile_line hu (isIndent_takeWhile v)] at hc
  rw [isIndent_takeWhile v c hc] at hsolid
  cases hsolid

/-- A pass that looks at the starts of lines only leaves the text alone. -/
theorem Laid.rewritten_eq_self (hw : Wordy names) {text p : List Char}
    {inlays : List (Inlay names)} (h : Laid text [] p inlays) {m : Matcher} (adv : Advances m)
    (hm : ∀ prev text, (startsLine prev = true → indentedHeads names prev text = []) →
      m prev text = none) : rewritten (fun _ => []) (hits m none text) text = text := by
  have hnone : hits m none text = [] :=
    (hits_eq_nil_iff adv).2 fun u v e => hm _ _ (h.indentedHeads_eq_nil hw e)
  rw [hnone, rewritten_nil]

theorem Laid.removeSingle_eq_self (hw : Wordy names) {text p : List Char}
    {inlays : List (Inlay names)} (h : Laid text [] p inlays) : removeSingle names text = text := by
  rw [removeSingle_eq]
  exact h.rewritten_eq_self hw (covers_singleLine names).advances fun _ _ => singleLine_eq_none

theorem Laid.removeNested_eq_self (hw : Wordy names) {text p : List Char}
    {inlays : List (Inlay names)} (h : Laid text [] p inlays) : removeNested names text = text := by
  rw [removeNested_eq]
  exact h.rewritten_eq_self hw (covers_nestedStatement names).advances
    fun _ _ => nestedStatement_eq_none

/-! ## The pass for calls anywhere in a line -/

theorem Inlay.inlineCall_eq (hw : Wordy names) (i : Inlay names) {prev : Option Char}
    {ind : List Char} (hi : ∀ c ∈ ind, isIndent c = true)
    (hp : startsWord (behind prev ind) = true) (z : List Char) :
    inlineCall names prev (ind ++ (i.call ++ z)) = some (skipSemicolon (skipIndent z)) := by
  have hmem := mem_heads_headText hw i.name_mem hp (i.args ++ ')' :: z)
  rw [i.call_append]
  unfold inlineCall
  rw [findSome?_indentedHeads hw hi hmem]
  exact afterFirstClose_eq_some.2 ⟨i.args, z, rfl, i.args_open, rfl⟩

theorem skipSemicolon_cons_of_ne {c : Char} (hc : c ≠ ';') (cs : List Char) :
    skipSemicolon (c :: cs) = c :: cs := by
  unfold skipSemicolon
  split
  · next e => exact absurd (List.cons.inj e).1 hc
  · rfl

/-- What is skipped behind a call is in the piece behind it: the next call stops it. -/
theorem skip_woven (p : List Char) (rest : List (Inlay names)) :
    skipSemicolon (skipIndent (woven p rest)) =
      woven (skipSemicolon (skipIndent p)) rest := by
  have hsplit := skipIndent_split p
  have hblank := isIndent_takeWhile p
  have hskip : skipIndent (woven p rest) = skipIndent (woven (skipIndent p) rest) := by
    conv => lhs; rw [← hsplit, woven_append, skipIndent_append hblank]
  rw [hskip]
  cases hp : skipIndent p with
  | nil =>
    cases rest with
    | nil => rfl
    | cons i rest => rfl
  | cons c cs =>
    have hc : isIndent c = false := by
      have hhead := List.head?_dropWhile_not isIndent p
      unfold skipIndent at hp
      rw [hp] at hhead
      simpa using hhead
    have hcons : woven (c :: cs) rest = c :: woven cs rest := woven_append [c] cs rest
    rw [hcons, skipIndent_cons_of_not hc]
    by_cases hsemi : c = ';'
    · rw [hsemi]
      rfl
    · rw [skipSemicolon_cons_of_ne hsemi, skipSemicolon_cons_of_ne hsemi, hcons]

/-- Before the blanks that stand before a call, the pass finds nothing. -/
theorem Laid.hits_woven (hw : Wordy names) {text x front ind : List Char} {i : Inlay names}
    {rest : List (Inlay names)} (h : Laid text x (front ++ ind) (i :: rest))
    (hlast : ∀ q c, front = q ++ [c] → isIndent c = false) :
    hits (inlineCall names) (behind none x) (woven (front ++ ind) (i :: rest)) =
      hits (inlineCall names) (behind none (x ++ front))
        (ind ++ (i.call ++ woven i.piece rest)) := by
  have hwoven : woven (front ++ ind) (i :: rest) =
      front ++ (ind ++ (i.call ++ woven i.piece rest)) := woven_append front ind (i :: rest)
  rw [hwoven, behind_append]
  refine hits_append_of_none fun u v e hv => inlineCall_eq_none ?_
  rw [List.eq_nil_iff_forall_not_mem]
  intro r hr
  -- The blanks at this place end in the piece, so a head behind them would start in the piece.
  have hne : skipIndent v ≠ [] := by
    rcases List.eq_nil_or_concat' v with rfl | ⟨w, c, rfl⟩
    · contradiction
    · have hc := hlast (u ++ w) c (by rw [e, List.append_assoc])
      exact skipIndent_ne_nil hc (List.nil_append (w ++ [c])).symm hv
  have hr' := mem_heads_behind_indent hr
  have hblank := skipIndent_split (v ++ (ind ++ (i.call ++ woven i.piece rest)))
  rw [← behind_append, ← behind_append] at hr'
  rw [skipIndent_append_of_ne_nil hne] at hr' hblank
  generalize List.takeWhile isIndent _ = b at hr' hblank
  have hplace : woven (front ++ ind) (i :: rest) = u ++ b ++
      (skipIndent v ++ (ind ++ (i.call ++ woven i.piece rest))) := by
    rw [hwoven, e, List.append_assoc, List.append_assoc, hblank]
  have hle := length_le_of_mem_leads (mem_leads_of_mem_heads hw h hplace hr')
  have hlen := congrArg List.length hblank
  have hpos := List.length_pos_iff.2 hne
  rw [e] at hle
  simp only [List.length_append] at hle hlen
  omega

theorem rdropWhile_append_blank {x ind : List Char} (hi : ∀ c ∈ ind, isIndent c = true) :
    (x ++ ind).rdropWhile isIndent = x.rdropWhile isIndent := by
  unfold List.rdropWhile
  rw [List.reverse_append, List.dropWhile_append_of_pos fun c hc => hi c (List.mem_reverse.1 hc)]

/-- The match of a call starts outside of the comments, even if the match before it has taken some
of the blanks before the call. -/
theorem Laid.not_covered {text x front ind : List Char} {i : Inlay names}
    {rest : List (Inlay names)} (h : Laid text x (front ++ ind) (i :: rest))
    (hi : ∀ c ∈ ind, isIndent c = true) :
    ¬ Covered (Comment.spans text) (x ++ front).length := by
  have hout := (h.placed _ List.mem_cons_self).not_comment
  rw [← List.append_assoc, rdropWhile_append_blank hi] at hout
  have hblanks : (x ++ front).rdropWhile isIndent ++ (x ++ front).rtakeWhile isIndent =
      x ++ front := List.rdropWhile_append_rtakeWhile
  have hb : ∀ c ∈ (x ++ front).rtakeWhile isIndent, isIndent c = true :=
    fun c hc => List.mem_rtakeWhile_imp hc
  generalize (x ++ front).rdropWhile isIndent = a at hout hblanks
  generalize (x ++ front).rtakeWhile isIndent = b at hblanks hb
  obtain ⟨cs, hcs⟩ : ∃ cs, i.call = 'c' :: cs := ⟨_, rfl⟩
  have htext : text = a ++ (b ++ (ind ++ ['c']) ++ (cs ++ woven i.piece rest)) := by
    have hfront : text = x ++ front ++ (ind ++ ['c'] ++ (cs ++ woven i.piece rest)) := by
      rw [h.text_eq, woven, hcs]
      simp
    rw [hfront, ← hblanks]
    simp
  have hslash : '/' ∉ b ++ (ind ++ ['c']) := by
    simp only [List.mem_append, not_or]
    refine ⟨fun hc => ?_, fun hc => ?_, by decide⟩
    · exact absurd (hb _ hc) (by decide)
    · exact absurd (hi _ hc) (by decide)
  have hlen := congrArg List.length hblanks
  simp only [List.length_append] at hlen
  refine Comment.not_covered_of_no_slash htext hslash hout ?_ ?_
  · rw [List.length_append]
    omega
  · simp only [List.length_append, List.length_singleton]
    omega

/-- The match of a call is deleted. -/
theorem Laid.isErased_eq (hw : Wordy names) {text x front ind t q : List Char} {i : Inlay names}
    {rest : List (Inlay names)} (h : Laid text x (front ++ ind) (i :: rest))
    (hi : ∀ c ∈ ind, isIndent c = true) (e : i.piece = t ++ q)
    (ht : ∀ c ∈ t, isIndent c = true ∨ c = ';')
    (hm : inlineCall names (behind none (x ++ front)) (ind ++ (i.call ++ t) ++ woven q rest) =
      some (woven q rest)) :
    isErased text ⟨ind ++ (i.call ++ t) ++ woven q rest, woven q rest⟩ = true := by
  have hplace : text.length - (ind ++ (i.call ++ t) ++ woven q rest).length =
      (x ++ front).length := by
    have htext : text = x ++ front ++ (ind ++ (i.call ++ t) ++ woven q rest) := by
      rw [h.text_eq, woven, e, woven_append]
      simp
    rw [htext, List.length_append, Nat.add_sub_cancel]
  have hletters : ∀ c ∈ "function".toList, isIndent c = false ∧ c ≠ ';' :=
    List.all_iff_forall_prop.1 (by decide)
  have hfunction : holds "function".toList (ind ++ (i.call ++ t)) = false := by
    refine holds_append_of_not_mem (fun c hc hmem => ?_)
      (holds_append_of_not_mem_right i.no_function fun c hc hmem => ?_)
    · exact Bool.eq_false_iff.1 (hletters c hmem).1 (hi c hc)
    · rcases ht c hc with hblank | hsemi
      · exact Bool.eq_false_iff.1 (hletters c hmem).1 hblank
      · exact (hletters c hmem).2 hsemi
  obtain ⟨m⟩ := exists_matchParts hm
  have hout : insideAny (Comment.spans text).toArray (x ++ front).length = false := by
    refine Bool.eq_false_iff.2 fun hin => h.not_covered hi ?_
    exact (insideAny_iff_covered (Comment.apart_spans text) _).1 hin
  unfold isErased
  rw [Hit.part_mk, m.isErasable_eq hw, hfunction, hplace, hout]
  rfl

/-- The pass takes the calls and what is skipped around them. -/
theorem rewritten_woven (hw : Wordy names) {text x p : List Char} {inlays : List (Inlay names)}
    (h : Laid text x p inlays) :
    rewritten (fun _ => [])
        ((hits (inlineCall names) (behind none x) (woven p inlays)).filter (isErased text))
        (woven p inlays) = cutOut p inlays := by
  -- The pass goes on behind what it has skipped of a piece, so `p` need not be a whole one.
  induction inlays generalizing x p with
  | nil =>
    exact ((covers_inlineCall names).shed (isErased text) (behind none x) p).eq_of_no_call
      (not_holdsCall_of_free h.free)
  | cons i rest ih =>
    obtain ⟨t, ht, hskipped⟩ := skipSemicolon_skipIndent_split i.piece
    have hm := skip_woven i.piece rest
    generalize hq : skipSemicolon (skipIndent i.piece) = q at ht hm
    obtain ⟨front, ind, rfl, hfront, hi, hlast⟩ : ∃ front ind, p = front ++ ind ∧
        p.rdropWhile isIndent = front ∧ (∀ c ∈ ind, isIndent c = true) ∧
        ∀ q c, front = q ++ [c] → isIndent c = false := by
      refine ⟨p.rdropWhile isIndent, p.rtakeWhile isIndent,
        List.rdropWhile_append_rtakeWhile.symm, rfl, fun c hc => List.mem_rtakeWhile_imp hc,
        fun q c e => ?_⟩
      have hlast := List.rdropWhile_last_not isIndent p (by rw [e]; simp)
      simpa [e] using hlast
    have hword : startsWord (behind (behind none (x ++ front)) ind) = true := by
      rw [← behind_append, List.append_assoc]
      exact h.starts
    have hcall := i.inlineCall_eq hw hi hword (woven i.piece rest)
    have hpart : ind ++ (i.call ++ woven i.piece rest) = ind ++ (i.call ++ t) ++ woven q rest := by
      rw [ht, woven_append]
      simp
    rw [hm, hpart] at hcall
    have herased := h.isErased_eq hw hi ht hskipped hcall
    have hne : ind ++ (i.call ++ t) ≠ [] := by
      intro hnil
      have hlen := congrArg List.length hnil
      simp [Inlay.call, headText] at hlen
    have hpassed : behind (behind none (x ++ front)) (ind ++ (i.call ++ t)) =
        behind none (x ++ (front ++ ind ++ (i.call ++ t))) := by
      rw [← behind_append]
      simp
    rw [h.hits_woven hw hlast, hpart, hits_of_match hne hcall, List.filter_cons_of_pos herased,
      woven_append, woven, hpart, rewritten_cons, cutOut, hfront, hq, hpassed, ih (h.next ht)]
    rfl

end

/-! ## Removals -/

/-- A text with calls laid in, in which cutting them out does not make the keyword. -/
structure Inlaid (names : List String) where
  first : List Char
  inlays : List (Inlay names)
  inlays_ne_nil : inlays ≠ []
  first_free : holds keyword first = false
  placed : ∀ x ∈ leads first inlays, Placed (woven first inlays) x
  left_free : holds keyword (cutOut first inlays) = false

namespace Inlaid

variable {names : List String} (t : Inlaid names)

/-- The whole text. -/
def text : List Char :=
  woven t.first t.inlays

/-- The text without the calls and what is skipped around them. -/
def left : List Char :=
  cutOut t.first t.inlays

theorem laid : Laid t.text [] t.first t.inlays :=
  ⟨rfl, t.first_free, t.placed⟩

theorem holds_text : holds keyword t.text = true := by
  obtain ⟨i, rest, e⟩ := List.exists_cons_of_ne_nil t.inlays_ne_nil
  refine holds_iff.2 ⟨t.first, '.' :: (i.name.toList ++ '(' ::
    (i.args ++ ')' :: woven i.piece rest)), ?_⟩
  rw [text, e, woven, i.call_append]
  simp [headText]

end Inlaid

/-- A removal takes the calls that are laid into a text, with the blanks around them and a semicolon
behind. -/
theorem removeCalls_inlaid (methods : List String) (hw : Wordy methods)
    (t : Inlaid (normalizeNames methods)) :
    removeCalls methods t.text = normalizeBlankLines t.left := by
  have hw' := wordy_normalizeNames hw
  have hpasses : removeInlineOnce (normalizeNames methods) (removeNested (normalizeNames methods)
      (removeSingle (normalizeNames methods) t.text)) = t.left := by
    rw [t.laid.removeSingle_eq_self hw', t.laid.removeNested_eq_self hw', removeInlineOnce_eq]
    exact rewritten_woven hw' t.laid
  have hne : t.left ≠ t.text := by
    intro e
    have hfree : holds keyword t.left = false := t.left_free
    rw [e] at hfree
    exact absurd t.holds_text (Bool.eq_false_iff.1 hfree)
  rw [removeCalls_eq, swept_eq_of_free hpasses t.left_free, if_neg hne]

/-- Calls behind a string that looks like a comment, the second one with a glob in it, and one
before a comment. -/
def amongStrings : Inlaid (normalizeNames ["info"]) where
  first := "const u = \"http://a/*\"; ".toList
  inlays := [
    { name := "info"
      args := ['u']
      piece := "  ".toList
      name_mem := by decide +kernel
      args_open := List.all_iff_forall_prop.1 (by decide)
      args_free := by decide
      no_function := by decide
      piece_free := by decide },
    { name := "info"
      args := "'a/*b'".toList
      piece := " ;; // b\nif (u)\t".toList
      name_mem := by decide +kernel
      args_open := List.all_iff_forall_prop.1 (by decide)
      args_free := by decide
      no_function := by decide
      piece_free := by decide },
    { name := "info"
      args := "f(u".toList
      piece := "); /* c */\n".toList
      name_mem := by decide +kernel
      args_open := List.all_iff_forall_prop.1 (by decide)
      args_free := by decide
      no_function := by decide
      piece_free := by decide }]
  inlays_ne_nil := by simp
  first_free := by decide
  placed := List.all_iff_forall_prop.1 (by decide +kernel)
  left_free := by decide +kernel

theorem removeCalls_inlaid_amongStrings :
    Wordy ["info"] ∧ removeCalls ["info"] amongStrings.text = normalizeBlankLines amongStrings.left ∧
      amongStrings.left = "const u = \"http://a/*\";; // b\nif (u)); /* c */\n".toList := by
  have hw : Wordy ["info"] := wordy_of_all (by decide +kernel)
  exact ⟨hw, removeCalls_inlaid ["info"] hw amongStrings, by decide +kernel⟩

end ConsoleSweep.Removal
