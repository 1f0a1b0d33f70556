import OnDemand.Command

/-!
# Rendered commands are read back

A command on one line shows its words one after another, quoted where they need it.  `wordsShown`
reads such a line, and finds the program and the arguments as a process is given them, whatever
characters they are made of.  The one thing lost is a text with a NUL in it, which no process can be
given.
-/

namespace OnDemand.Command

/-! ## Reading a line -/

/-- Where a reader of a line stands. -/
inductive Standing where
  /-- At the beginning of a word, or in one without quotes. -/
  | bare
  /-- Between single quotes. -/
  | quoted
  /-- Right after single quotes. -/
  | closed
  /-- After a backslash that follows single quotes. -/
  | escaped
  deriving DecidableEq, Repr

/-- The words with `t` written before the first. -/
def begun (t : Text) : List Text → List Text
  | [] => [t]
  | word :: words => (t ++ word) :: words

/-- The words on the rest of a line.  A backslash escapes only after single quotes. -/
def wordsFrom : Standing → Text → List Text
  | _, [] => [[]]
  | .bare, c :: t =>
    if c = ' ' then [] :: wordsFrom .bare t
    else if c = '\'' then wordsFrom .quoted t
    else begun [c] (wordsFrom .bare t)
  | .quoted, c :: t =>
    if c = '\'' then wordsFrom .closed t else begun [c] (wordsFrom .quoted t)
  | .closed, c :: t =>
    if c = ' ' then [] :: wordsFrom .bare t
    else if c = '\\' then wordsFrom .escaped t
    else begun [c] (wordsFrom .bare t)
  | .escaped, c :: t => begun [c] (wordsFrom .bare t)

/-- The words that a line shows. -/
def wordsShown (line : Text) : List Text := wordsFrom .bare line

@[simp] theorem begun_nil {words : List Text} (h : words ≠ []) : begun [] words = words := by
  cases words with
  | nil => exact absurd rfl h
  | cons word words => rfl

theorem begun_ne_nil (t : Text) (words : List Text) : begun t words ≠ [] := by
  cases words <;> simp [begun]

theorem begun_append (a b : Text) (words : List Text) :
    begun (a ++ b) words = begun a (begun b words) := by
  cases words <;> simp [begun]

theorem begun_cons (c : Char) (t : Text) (words : List Text) :
    begun (c :: t) words = begun [c] (begun t words) :=
  begun_append [c] t words

theorem wordsFrom_ne_nil (s : Standing) (t : Text) : wordsFrom s t ≠ [] := by
  induction t generalizing s with
  | nil => simp [wordsFrom]
  | cons c t ih =>
      cases s with
      | bare =>
          by_cases hspace : c = ' '
          · simp [wordsFrom, hspace]
          · by_cases hquote : c = '\''
            · simpa [wordsFrom, hquote] using ih .quoted
            · simpa [wordsFrom, hspace, hquote] using begun_ne_nil [c] _
      | quoted =>
          by_cases hquote : c = '\''
          · simpa [wordsFrom, hquote] using ih .closed
          · simpa [wordsFrom, hquote] using begun_ne_nil [c] _
      | closed =>
          by_cases hspace : c = ' '
          · simp [wordsFrom, hspace]
          · by_cases hescape : c = '\\'
            · simpa [wordsFrom, hescape] using ih .escaped
            · simpa [wordsFrom, hspace, hescape] using begun_ne_nil [c] _
      | escaped => simpa [wordsFrom] using begun_ne_nil [c] _

/-! ## Words that have been shown -/

/-- A word without special characters is read as it stands. -/
theorem wordsFrom_bare {word : Text} (h : word.any isSpecial = false) (t : Text) :
    wordsFrom .bare (word ++ t) = begun word (wordsFrom .bare t) := by
  induction word with
  | nil => simp [wordsFrom_ne_nil]
  | cons c word ih =>
      simp only [List.any_cons, Bool.or_eq_false_iff] at h
      have hspace : c ≠ ' ' := by
        rintro rfl
        exact absurd h.1 (by decide)
      have hquote : c ≠ '\'' := by
        rintro rfl
        exact absurd h.1 (by decide)
      calc wordsFrom .bare (c :: word ++ t)
          = begun [c] (wordsFrom .bare (word ++ t)) := by simp [wordsFrom, hspace, hquote]
        _ = begun [c] (begun word (wordsFrom .bare t)) := by rw [ih h.2]
        _ = begun (c :: word) (wordsFrom .bare t) := (begun_cons c word _).symm

/-- Within quotes every character is read as it stands, a single quote by way of an escape. -/
theorem wordsFrom_quoted (word t : Text) :
    wordsFrom .quoted (Text.replace '\'' "'\\''".toList word ++ '\'' :: t) =
      begun word (wordsFrom .closed t) := by
  induction word with
  | nil => simp [Text.replace, wordsFrom, wordsFrom_ne_nil]
  | cons c word ih =>
      rw [begun_cons, ← ih]
      by_cases hquote : c = '\''
      · subst hquote
        -- The quotes close, the escaped quote is read, and they open again.
        simp [Text.replace, wordsFrom]
      · simp [Text.replace, wordsFrom, hquote]

/-- Whether the rest of a line does not go on with the word before it. -/
def EndsWord (t : Text) : Prop := t = [] ∨ ∃ rest, t = ' ' :: rest

theorem wordsFrom_shown (word : Text) {t : Text} (h : EndsWord t) :
    wordsFrom .bare (shown word ++ t) = begun word (wordsFrom .bare t) := by
  have hclosed : wordsFrom .closed t = wordsFrom .bare t := by
    rcases h with rfl | ⟨rest, rfl⟩ <;> rfl
  unfold shown
  split
  next =>
      calc wordsFrom .bare (quoted word ++ t)
          = wordsFrom .quoted (Text.replace '\'' "'\\''".toList word ++ '\'' :: t) := by
            simp [quoted, wordsFrom]
        _ = begun word (wordsFrom .bare t) := by rw [wordsFrom_quoted, hclosed]
  next hbare =>
      simp only [Bool.or_eq_true, not_or, Bool.not_eq_true] at hbare
      exact wordsFrom_bare hbare.2 t

/-- The words of a line are the words that have been shown on it. -/
theorem wordsShown_joinWith {words : List Text} (h : words ≠ []) :
    wordsShown (Text.joinWith " ".toList (words.map shown)) = words := by
  unfold wordsShown
  induction words with
  | nil => exact absurd rfl h
  | cons word words ih =>
      cases words with
      | nil => simpa [Text.joinWith, wordsFrom, begun] using wordsFrom_shown word (.inl rfl)
      | cons next words =>
          have hline : Text.joinWith " ".toList ((word :: next :: words).map shown) =
              shown word ++ ' ' :: Text.joinWith " ".toList ((next :: words).map shown) := by
            simp [Text.joinWith]
          rw [hline, wordsFrom_shown word (.inr ⟨_, rfl⟩)]
          simp only [wordsFrom, if_true, ih (by simp), begun, List.append_nil]

/-- A rendered command shows the words that a process is given. -/
theorem wordsShown_render (c : Command) : wordsShown c.render = c.words.map passed := by
  have hne : c.words.map passed ≠ [] := by simp [words]
  simpa [render, List.map_map, Function.comp_def] using wordsShown_joinWith hne

theorem render_eq_iff (c c' : Command) :
    c.render = c'.render ↔ c.words.map passed = c'.words.map passed := by
  constructor
  · intro h
    rw [← wordsShown_render c, h, wordsShown_render c']
  · intro h
    have hshown (c : Command) :
        c.render = Text.joinWith " ".toList ((c.words.map passed).map shown) := by
      simp [render, List.map_map, Function.comp_def]
    rw [hshown c, hshown c', h]

theorem passed_of_isPassable {t : Text} (h : isPassable t = true) : passed t = t := if_pos h

theorem map_passed {ts : List Text} (h : ∀ t ∈ ts, isPassable t = true) : ts.map passed = ts := by
  simpa using List.map_congr_left fun t ht => passed_of_isPassable (h t ht)

/-! ## Nothing is lost -/

/--
A rendered command is read back: `wordsShown` finds its words as a process is given them, two
commands are rendered alike exactly when they have the same words in this sense, and if no text has
a NUL in it, then they have the same program and the same arguments.
-/
theorem rendered_command_recovered (c c' : Command) :
    wordsShown c.render = passed c.program :: c.arguments.map passed ∧
      (c.render = c'.render ↔
        passed c.program = passed c'.program ∧
          c.arguments.map passed = c'.arguments.map passed) ∧
      ((∀ t ∈ c.words ++ c'.words, isPassable t = true) →
        (c.render = c'.render ↔ c.program = c'.program ∧ c.arguments = c'.arguments)) := by
  have hiff : c.render = c'.render ↔
      passed c.program = passed c'.program ∧
        c.arguments.map passed = c'.arguments.map passed := by
    simpa [words] using render_eq_iff c c'
  refine ⟨wordsShown_render c, hiff, fun h => ?_⟩
  have hprogram (c : Command) (hc : ∀ t ∈ c.words, isPassable t = true) :
      passed c.program = c.program := passed_of_isPassable (hc _ List.mem_cons_self)
  have harguments (c : Command) (hc : ∀ t ∈ c.words, isPassable t = true) :
      c.arguments.map passed = c.arguments :=
    map_passed fun t ht => hc t (List.mem_cons_of_mem _ ht)
  have hc : ∀ t ∈ c.words, isPassable t = true := fun t ht => h t (List.mem_append_left _ ht)
  have hc' : ∀ t ∈ c'.words, isPassable t = true := fun t ht => h t (List.mem_append_right _ ht)
  rw [hiff, hprogram c hc, hprogram c' hc', harguments c hc, harguments c' hc']

/-- The command that runs `r` with the arguments. -/
def sampled (arguments : List Text) : Command := { program := "r".toList, arguments }

theorem rendered_command_recovered_quotes :
    (∀ t ∈ (sampled ["it's".toList, [], "a b".toList]).words ++
        (sampled ["it's".toList, [], "a".toList, "b".toList]).words, isPassable t = true) ∧
      (sampled ["it's".toList, [], "a b".toList]).render ≠
        (sampled ["it's".toList, [], "a".toList, "b".toList]).render := by
  have hpassable : ∀ t ∈ (sampled ["it's".toList, [], "a b".toList]).words ++
      (sampled ["it's".toList, [], "a".toList, "b".toList]).words, isPassable t = true := by
    decide
  have hiff := (rendered_command_recovered _ _).2.2 hpassable
  refine ⟨hpassable, fun h => ?_⟩
  exact absurd (hiff.1 h).2 (by decide)

/-- A text with a NUL in it is rendered like the text that says so, and not recovered. -/
theorem argument_with_nul_lost :
    (sampled ["a\x00b".toList]).render = (sampled ["<string-with-nul>".toList]).render ∧
      (sampled ["a\x00b".toList]).arguments ≠ (sampled ["<string-with-nul>".toList]).arguments := by
  decide

end OnDemand.Command
