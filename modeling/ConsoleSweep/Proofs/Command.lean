/-
  The last word of a command line.

  A word that does not begin with a minus sign is an operand wherever it stands. As the last
  word of a command line it is the command, or an argument of the command, or the value of an
  option that stands right before it (`awaits_or`); in the last case there is no command. An
  argument of a scan is its root, or has no place (`placed_of_take`). So a command line that
  asks for a scan of the project with its last word asks for another command with the same
  options as soon as that word is another one (`Command.parse_show_of_parse_scan`).
-/
import ConsoleSweep.Command

namespace ConsoleSweep.Arguments

variable {g : Grammar} {t t' : Taken} {word : String}

/-- Two computations, one after the other, that come to a value. -/
theorem exists_of_bind_eq_ok {α β ε : Type} {x : Except ε α} {f : α → Except ε β} {b : β}
    (h : (x >>= f) = .ok b) : ∃ a, x = .ok a ∧ f a = .ok b := by
  cases x with
  | error e => cases h
  | ok a => exact ⟨a, rfl, h⟩

/-! ## Grammars with commands -/

theorem hasPlace_of_isCommand (hg : g.isCommand = true) (ht : t.isFilled = false) :
    g.hasPlace t = true := by
  unfold Grammar.isCommand at hg
  unfold Grammar.hasPlace
  split at hg
  · next hop => simp [ht, hop]
  · cases hg

theorem isOptional_of_isCommand (hg : g.isCommand = true) : g.operand.isOptional = false := by
  unfold Grammar.isCommand at hg
  split at hg
  · next hop => rw [hop]; rfl
  · cases hg

theorem take_unknown (raw : String) (rest : List Piece) :
    g.take t (.unknown raw :: rest) = g.take (t.aside raw) rest := by
  rw [Grammar.take.eq_def]

theorem take_operand (hg : g.isCommand = true) (ht : t.isFilled = false) (s : String)
    (rest : List Piece) : g.take t (.operand s :: rest) =
      .ok { t with command := s :: rest.map Piece.raw, isFilled := true } := by
  rw [Grammar.take.eq_def]
  simp [hasPlace_of_isCommand hg ht, hg]

theorem take_divider_operand (hg : g.isCommand = true) (ht : t.isFilled = false) (s : String)
    (rest : List Piece) : g.take t (.divider :: .operand s :: rest) =
      .ok { t with command := "--" :: s :: rest.map Piece.raw, isFilled := true } := by
  rw [Grammar.take.eq_def]
  simp [hasPlace_of_isCommand hg ht, hg]

theorem take_divider (hg : g.isCommand = true) {rest : List Piece}
    (h : ∀ s more, rest ≠ .operand s :: more) :
    g.take t (.divider :: rest) = g.take (t.aside "--") rest := by
  rw [Grammar.take.eq_def]
  split
  · next he => cases he
  · next he => cases he
  · next he => cases he
  · next s more he => 
    injection he with _ he
    exact absurd he (h s more)
  · next he => 
    injection he with _ he
    rw [he, isOptional_of_isCommand hg]
    simp
  · next he => cases he

theorem eq_of_takeOptions {options : List (Opt × Option String)}
    (h : g.takeOptions t options = .ok t') :
    t' = { t with options := options.reverse ++ t.options } := by
  unfold Grammar.takeOptions at h
  split at h
  · cases h
  · exact (Except.ok.inj h).symm

/-- An option is complete, or its value is the next argument. -/
theorem exists_of_take_option {o : Opt} {name raw : String} {attached : Option (List Char)}
    {rest : List Piece} (h : g.take t (.option o name attached raw :: rest) = .ok t') :
    (∃ t₁ : Taken, t₁.isFilled = t.isFilled ∧
      ∀ more, g.take t (.option o name attached raw :: more) = g.take t₁ more) ∨
    ∃ v more, rest = .operand v :: more ∧ ∃ t₁ : Taken, t₁.isFilled = t.isFilled ∧
      ∀ more, g.take t (.option o name attached raw :: .operand v :: more) = g.take t₁ more := by
  rw [Grammar.take.eq_def] at h
  simp only at h
  split at h
  · cases h
  · next complete hparts =>
    obtain ⟨t₁, ho, -⟩ := exists_of_bind_eq_ok h
    refine .inl ⟨t₁, by rw [eq_of_takeOptions ho], fun more => ?_⟩
    rw [Grammar.take.eq_def]
    simp only [hparts, ho]
    rfl
  · next complete last hparts =>
    split at h
    · next hvalue =>
      split at h
      · next v more =>
        obtain ⟨t₁, ho, -⟩ := exists_of_bind_eq_ok h
        refine .inr ⟨v, more, rfl, t₁, by rw [eq_of_takeOptions ho], fun more => ?_⟩
        rw [Grammar.take.eq_def]
        simp only [hparts, hvalue, ho, if_true]
        rfl
      · cases h
    · next hvalue =>
      obtain ⟨t₁, ho, -⟩ := exists_of_bind_eq_ok h
      refine .inl ⟨t₁, by rw [eq_of_takeOptions ho], fun more => ?_⟩
      rw [Grammar.take.eq_def]
      simp only [hparts, hvalue, ho, if_false]
      rfl

/-- After these pieces, the next word is the command. -/
def Grammar.Awaits (g : Grammar) (t : Taken) (pieces : List Piece) : Prop :=
  ∃ t₀ : Taken, ∀ word, g.take t (pieces ++ [.operand word]) =
    .ok { t₀ with command := [word], isFilled := true }

theorem Grammar.Awaits.of_eq {pieces rest : List Piece}
    (h : ∀ word, g.take t (pieces ++ [.operand word]) = g.take t' (rest ++ [.operand word]))
    (hr : g.Awaits t' rest) : g.Awaits t pieces := by
  obtain ⟨t₀, h₀⟩ := hr
  exact ⟨t₀, fun word => (h word).trans (h₀ word)⟩

/-- The last word is the command, or comes after it, or is the value of an option. -/
theorem awaits_or (hg : g.isCommand = true) (pieces : List Piece) (t : Taken)
    (ht : t.isFilled = false) (h : g.take t (pieces ++ [.operand word]) = .ok t') :
    g.Awaits t pieces ∨ (∃ first args, t'.command = first :: (args ++ [word])) ∨
      t'.isFilled = false := by
  match pieces with
  | [] => exact .inl ⟨t, fun other => take_operand hg ht other []⟩
  | .unknown raw :: rest =>
    rw [List.cons_append, take_unknown] at h
    exact (awaits_or hg rest (t.aside raw) ht h).imp_left
      (.of_eq fun other => take_unknown raw _)
  | .operand s :: rest =>
    rw [List.cons_append, take_operand hg ht] at h
    obtain rfl := Except.ok.inj h
    exact .inr (.inl ⟨s, rest.map Piece.raw, by simp [Piece.raw]⟩)
  | [.divider] =>
    rw [List.cons_append, List.nil_append, take_divider_operand hg ht] at h
    obtain rfl := Except.ok.inj h
    exact .inr (.inl ⟨"--", [], rfl⟩)
  | .divider :: p :: rest =>
    by_cases hp : ∃ s, p = .operand s
    · obtain ⟨s, rfl⟩ := hp
      rw [List.cons_append, List.cons_append, take_divider_operand hg ht] at h
      obtain rfl := Except.ok.inj h
      exact .inr (.inl ⟨"--", s :: rest.map Piece.raw, by simp [Piece.raw]⟩)
    · have hnext : ∀ other s more, (p :: rest) ++ [.operand other] ≠ .operand s :: more :=
        fun _ s _ he => hp ⟨s, (List.cons.inj he).1⟩
      rw [List.cons_append, take_divider hg (hnext word)] at h
      exact (awaits_or hg (p :: rest) (t.aside "--") ht h).imp_left
        (.of_eq fun other => take_divider hg (hnext other))
  | .option o name attached raw :: rest =>
    rw [List.cons_append] at h
    rcases exists_of_take_option h with ⟨t₁, ht₁, hsame⟩ | ⟨v, more, hrest, t₁, ht₁, hsame⟩
    · rw [hsame] at h
      exact (awaits_or hg rest t₁ (ht₁.trans ht) h).imp_left (.of_eq fun other => hsame _)
    · rw [hrest, hsame] at h
      cases rest with
      | nil =>
        obtain ⟨-, rfl⟩ := List.cons.inj hrest
        rw [Grammar.take.eq_def] at h
        obtain rfl := Except.ok.inj h
        exact .inr (.inr (ht₁.trans ht))
      | cons p rest =>
        obtain ⟨rfl, rfl⟩ := List.cons.inj hrest
        exact (awaits_or hg rest t₁ (ht₁.trans ht) h).imp_left (.of_eq fun other => hsame _)
termination_by pieces.length

/-! ## Reading -/

/-- A word that does not begin with a minus sign is an operand. -/
theorem readOne_of_plain (h : word.toList.head? ≠ some '-') :
    g.readOne word = .ok (.operand word) := by
  unfold Grammar.readOne
  split
  · next text he => simp [he] at h
  · rfl

theorem read_append_plain (h : word.toList.head? ≠ some '-') (args : List String) :
    g.read (args ++ [word]) = (g.read args).map (· ++ [.operand word]) := by
  induction args with
  | nil =>
    have hne : word ≠ "--" := by
      rintro rfl
      exact h rfl
    rw [List.nil_append]
    unfold Grammar.read
    rw [if_neg hne, readOne_of_plain h]
    rfl
  | cons arg args ih =>
    rw [List.cons_append, Grammar.read, Grammar.read]
    split
    · simp [Except.map]
    · rw [ih]
      cases g.readOne arg with
      | error stop => rfl
      | ok piece => cases g.read args <;> rfl

/-- The option of a piece is one of the grammar. -/
def Piece.Knows (g : Grammar) : Piece → Prop
  | .option o _ _ _ => o ∈ g.options
  | _ => True

theorem mem_options_of_names {name : String} {o : Opt} (h : (name, o) ∈ g.names) :
    o ∈ g.options := by
  obtain ⟨o', ho, hmem⟩ := List.mem_flatMap.1 h
  obtain ⟨n, -, he⟩ := List.mem_map.1 hmem
  obtain ⟨-, rfl⟩ := Prod.mk.inj he
  exact ho

theorem mem_options_of_named? {name : String} {o : Opt} (h : g.named? name = some o) :
    o ∈ g.options := by
  obtain ⟨l₁, l₂, hs, -⟩ := List.lookup_eq_some_iff.1 h
  have hmem : (name, o) ∈ g.names := by
    rw [hs]
    simp
  exact mem_options_of_names hmem

theorem mem_options_of_candidates {arg : String} {c : Opt × String × Option (List Char)}
    (h : c ∈ g.candidates arg) : c.1 ∈ g.options := by
  unfold Grammar.candidates at h
  split at h
  · dsimp only at h
    obtain ⟨e, he, rfl⟩ := List.mem_map.1 h
    exact mem_options_of_names ((List.mem_filter.1 he).1)
  · obtain ⟨e, he, hc⟩ := List.mem_filterMap.1 h
    split at hc
    · obtain rfl := Option.some.inj hc
      exact mem_options_of_names he
    · split at hc
      · obtain rfl := Option.some.inj hc
        exact mem_options_of_names he
      · cases hc
  · cases h

theorem knows_of_readOne {arg : String} {piece : Piece} (h : g.readOne arg = .ok piece) :
    piece.Knows g := by
  unfold Grammar.readOne at h
  split at h
  · split at h
    · next o ho =>
      obtain rfl := Except.ok.inj h
      exact mem_options_of_named? ho
    · split at h
      · obtain rfl := Except.ok.inj h
        trivial
      · dsimp only at h
        split at h
        · next o ho =>
          obtain rfl := Except.ok.inj h
          obtain ⟨_, -, ho⟩ := Option.bind_eq_some_iff.1 ho
          exact mem_options_of_named? ho
        · split at h
          · obtain rfl := Except.ok.inj h
            split <;> trivial
          · next o name attached hc =>
            obtain rfl := Except.ok.inj h
            exact mem_options_of_candidates (hc ▸ List.mem_singleton_self _)
          · cases h
  · obtain rfl := Except.ok.inj h
    trivial

theorem knows_of_read {args : List String} {pieces : List Piece} (h : g.read args = .ok pieces) :
    ∀ piece ∈ pieces, piece.Knows g := by
  induction args generalizing pieces with
  | nil =>
    obtain rfl := Except.ok.inj h
    simp
  | cons arg args ih =>
    rw [Grammar.read] at h
    split at h
    · obtain rfl := Except.ok.inj h
      intro piece hp
      rcases List.mem_cons.1 hp with rfl | hp
      · trivial
      · obtain ⟨s, -, rfl⟩ := List.mem_map.1 hp
        trivial
    · obtain ⟨piece, hone, h⟩ := exists_of_bind_eq_ok h
      obtain ⟨rest, hrest, h⟩ := exists_of_bind_eq_ok h
      obtain rfl := Except.ok.inj h
      exact List.forall_mem_cons.2 ⟨knows_of_readOne hone, ih hrest⟩

/-! ## Grammars without values -/

theorem takeOptions_of_help {options : List (Opt × Option String)} {e : Opt × Option String}
    (he : e ∈ options) (hk : e.1.kind = .help) : g.takeOptions t options = .error (.help g) := by
  unfold Grammar.takeOptions
  rw [if_pos (List.any_eq_true.2 ⟨e, he, by simpa using hk⟩)]

theorem mem_of_cluster {o : Opt} {name : String} {attached : List Char} {c : Cluster}
    (ho : o.kind = .help) (h : g.cluster o name attached = .ok c) : (o, none) ∈ c.complete := by
  unfold Grammar.cluster at h
  rw [if_neg (by rw [ho]; decide)] at h
  dsimp only at h
  split at h
  · cases h
  · cases h
  · split at h
    · cases h
    · obtain rfl := Except.ok.inj h
      simp
    · next after hnamed hne =>
      obtain ⟨tail, -, h⟩ := exists_of_bind_eq_ok h
      obtain rfl := Except.ok.inj h
      exact List.mem_cons_self

theorem take_help {o : Opt} {name raw : String} {attached : Option (List Char)}
    {rest : List Piece} (ho : o.kind = .help) :
    g.take t (.option o name attached raw :: rest) ≠ .ok t' := by
  intro h
  rw [Grammar.take.eq_def] at h
  dsimp only at h
  split at h
  · cases h
  · next complete hparts =>
    cases attached with
    | none => cases hparts
    | some text =>
      rw [takeOptions_of_help (mem_of_cluster ho hparts) ho] at h
      cases h
  · next complete last hparts =>
    have hmem : ∀ value, ∃ e ∈ complete ++ [(last, value)], e.1.kind = .help := by
      intro value
      cases attached with
      | none =>
        obtain ⟨-, hlast⟩ := Cluster.mk.inj (Except.ok.inj hparts)
        obtain rfl := Option.some.inj hlast
        exact ⟨(o, value), by simp, ho⟩
      | some text =>
        exact ⟨(o, none), List.mem_append_left _ (mem_of_cluster ho hparts), ho⟩
    split at h
    · split at h
      · next v more =>
        obtain ⟨e, he, hk⟩ := hmem (some v)
        rw [takeOptions_of_help he hk] at h
        cases h
      · cases h
    · obtain ⟨e, he, hk⟩ := hmem none
      rw [takeOptions_of_help he hk] at h
      cases h

theorem take_nil : g.take t [] = .ok t := by
  rw [Grammar.take.eq_def]

/-- A grammar without commands and values. -/
structure Grammar.IsPlain (g : Grammar) : Prop where
  noCommand : g.isCommand = false
  onlyHelp : ∀ o ∈ g.options, o.kind = .help

theorem placed_of_take_last (hg : g.IsPlain) (h : g.take t [.operand word] = .ok t') :
    t'.operand ≠ none ∨ t'.extras ≠ [] := by
  rw [Grammar.take.eq_def] at h
  simp only [hg.noCommand, take_nil] at h
  split at h
  · obtain rfl := Except.ok.inj h
    exact .inr (by simp [Taken.aside])
  · obtain rfl := Except.ok.inj h
    exact .inl (by simp [Taken.fill])

/-- In a plain grammar, a last operand takes the place of the operand or is kept aside. -/
theorem placed_of_take (hg : g.IsPlain) (pieces : List Piece) (t : Taken)
    (hp : ∀ piece ∈ pieces, piece.Knows g)
    (h : g.take t (pieces ++ [.operand word]) = .ok t') : t'.operand ≠ none ∨ t'.extras ≠ [] := by
  match pieces with
  | [] => exact placed_of_take_last hg h
  | .unknown raw :: rest =>
    rw [List.cons_append, take_unknown] at h
    exact placed_of_take hg rest _ (List.forall_mem_cons.1 hp).2 h
  | .option o name attached raw :: rest =>
    exact absurd h (take_help (hg.onlyHelp o (List.forall_mem_cons.1 hp).1))
  | .operand s :: rest =>
    have hrest := (List.forall_mem_cons.1 hp).2
    rw [List.cons_append, Grammar.take.eq_def] at h
    simp only [hg.noCommand] at h
    split at h
    · exact placed_of_take hg rest _ hrest h
    · rw [if_neg (by simp)] at h
      split at h
      · next more hmore =>
        cases rest with
        | nil => cases hmore
        | cons p rest =>
          obtain ⟨-, rfl⟩ := List.cons.inj hmore
          exact placed_of_take hg rest _ (List.forall_mem_cons.1 hrest).2 h
      · exact placed_of_take hg rest _ hrest h
  | .divider :: rest =>
    have hrest := (List.forall_mem_cons.1 hp).2
    rw [List.cons_append, Grammar.take.eq_def] at h
    split at h
    · next he => cases he
    · next he => cases he
    · next he => cases he
    · next s more he =>
      injection he with _ he
      simp only [hg.noCommand] at h
      cases rest with
      | nil =>
        obtain ⟨-, rfl⟩ := List.cons.inj he
        split at h
        · rw [take_nil] at h
          obtain rfl := Except.ok.inj h
          exact .inr (by simp [Taken.aside])
        · rw [if_neg (by simp), take_nil] at h
          obtain rfl := Except.ok.inj h
          exact .inl (by simp [Taken.fill])
      | cons p rest =>
        obtain ⟨-, rfl⟩ := List.cons.inj he
        have hmore := (List.forall_mem_cons.1 hrest).2
        split at h
        · exact placed_of_take hg rest _ hmore h
        · rw [if_neg (by simp)] at h
          exact placed_of_take hg rest _ hmore h
    · next more hnot he =>
      injection he with _ he
      subst he
      split at h
      · exact placed_of_take hg rest _ hrest h
      · exact placed_of_take hg rest _ hrest h
    · next he => cases he
termination_by pieces.length

end ConsoleSweep.Arguments

namespace ConsoleSweep.Command

open ConsoleSweep.Arguments

variable {options : List String} {o : Options}

/-- What was taken from a command line that makes sense, and the command that was made of it. -/
theorem exists_of_parse {args : List String} {r : Request} (h : parse args = .ok r) :
    ∃ pieces t, mainGrammar.read args = .ok pieces ∧ mainGrammar.take {} pieces = .ok t ∧
      t.isFilled = true ∧ t.extras = [] ∧ r.options = optionsOf t ∧
      parseCommand t.command = .ok (r.command, []) := by
  obtain ⟨t, ht, h⟩ := exists_of_bind_eq_ok h
  obtain ⟨pieces, hpieces, ht⟩ := exists_of_bind_eq_ok ht
  obtain ⟨t', htake, ht⟩ := exists_of_bind_eq_ok ht
  obtain ⟨u, hcheck, ht⟩ := exists_of_bind_eq_ok ht
  obtain rfl := Except.ok.inj ht
  obtain ⟨⟨command, extras⟩, hcommand, h⟩ := exists_of_bind_eq_ok h
  have hfilled : t'.isFilled = true := by
    cases hf : t'.isFilled with
    | true => rfl
    | false =>
      unfold Grammar.checkOperand at hcheck
      simp only [mainGrammar, hf] at hcheck
      cases hcheck
  dsimp only at h
  split at h
  · next hnone =>
    obtain rfl := Except.ok.inj h
    obtain ⟨hextras, rfl⟩ := List.append_eq_nil_iff.1 hnone
    exact ⟨pieces, t', hpieces, htake, hfilled, hextras, rfl, hcommand⟩
  · cases h

theorem parse_of_take {args : List String} {pieces : List Piece} {t : Taken} {command : Command}
    (hpieces : mainGrammar.read args = .ok pieces) (htake : mainGrammar.take {} pieces = .ok t)
    (hfilled : t.isFilled = true) (hextras : t.extras = [])
    (hcommand : parseCommand t.command = .ok (command, [])) :
    parse args = .ok ⟨optionsOf t, command⟩ := by
  have hparse : mainGrammar.parse args = .ok t := by
    unfold Grammar.parse
    rw [hpieces]
    simp only [bind, Except.bind, htake]
    unfold Grammar.checkOperand
    simp only [mainGrammar, hfilled]
    rfl
  unfold parse
  rw [hparse]
  simp only [bind, Except.bind, hcommand, hextras]
  rfl

/-- The grammar of a scan. -/
def scanGrammar : Grammar :=
  { program := program ++ " scan", about := "", options := [helpOption], operand := scanRoot }

theorem isPlain_scan : scanGrammar.IsPlain :=
  ⟨rfl, by simp [scanGrammar, helpOption]⟩

/-- Only the form of a scan makes a scan. -/
theorem form_of_scan {form : Form} {t : Taken} (hf : form ∈ forms)
    (h : form.make t = .scan none) : form.grammar = scanGrammar ∧ t.operand = none := by
  simp only [forms, List.mem_cons, List.not_mem_nil, or_false] at hf
  rcases hf with rfl | rfl | rfl | rfl | rfl | rfl | rfl
  · exact ⟨rfl, Command.scan.inj h⟩
  all_goals cases h

/-- The command for a scan of the project is the word alone. -/
theorem ne_scan_of_args {first : String} {args : List String} :
    parseCommand (first :: (args ++ ["scan"])) ≠ .ok (.scan none, []) := by
  intro h
  unfold parseCommand at h
  dsimp only at h
  split at h
  · cases h
  · next form hform =>
    obtain ⟨t, ht, h⟩ := exists_of_bind_eq_ok h
    obtain ⟨hmake, hextras⟩ := Prod.mk.inj (Except.ok.inj h)
    obtain ⟨hgrammar, hoperand⟩ := form_of_scan (List.mem_of_find?_eq_some hform) hmake
    rw [hgrammar] at ht
    obtain ⟨all, hread, ht⟩ := exists_of_bind_eq_ok ht
    obtain ⟨t', htake, ht⟩ := exists_of_bind_eq_ok ht
    obtain ⟨u, -, ht⟩ := exists_of_bind_eq_ok ht
    obtain rfl := Except.ok.inj ht
    rw [read_append_plain (by decide)] at hread
    cases hpieces : scanGrammar.read args with
    | error stop =>
      rw [hpieces] at hread
      cases hread
    | ok pieces =>
      rw [hpieces] at hread
      obtain rfl := Except.ok.inj hread
      rcases placed_of_take isPlain_scan pieces {} (knows_of_read hpieces) htake with hp | hp
      · exact hp hoperand
      · exact hp hextras

/-- If a command line asks for a scan of the project with its last word, it asks for the results
with `show` in its place. -/
theorem parse_show_of_parse_scan (h : parse (options ++ ["scan"]) = .ok ⟨o, .scan none⟩) :
    parse (options ++ ["show"]) = .ok ⟨o, .show⟩ := by
  obtain ⟨all, t, hread, htake, hfilled, hextras, hoptions, hcommand⟩ := exists_of_parse h
  rw [read_append_plain (by decide)] at hread
  cases hpieces : mainGrammar.read options with
  | error stop =>
    rw [hpieces] at hread
    cases hread
  | ok pieces =>
    rw [hpieces] at hread
    obtain rfl := Except.ok.inj hread
    have hshow : mainGrammar.read (options ++ ["show"]) = .ok (pieces ++ [.operand "show"]) := by
      rw [read_append_plain (by decide), hpieces]
      rfl
    rcases awaits_or (by rfl) pieces {} rfl htake with ⟨t₀, hall⟩ | ⟨first, args, hlong⟩ | hopen
    · obtain rfl := Except.ok.inj ((hall "scan").symm.trans htake)
      have hword : parseCommand ["show"] = .ok (.show, []) := by with_unfolding_all rfl
      have hparse := parse_of_take hshow (hall "show") rfl hextras hword
      have ho : o = optionsOf t₀ := hoptions
      rw [hparse, ho]
      rfl
    · rw [hlong] at hcommand
      exact absurd hcommand ne_scan_of_args
    · rw [hopen] at hfilled
      cases hfilled

end ConsoleSweep.Command
