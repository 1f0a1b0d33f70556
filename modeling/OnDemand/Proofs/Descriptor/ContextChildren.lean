import OnDemand.Proofs.Descriptor.ContextSpellings

/-!
# A context as the child of an automaton type

Whether the first child of an automaton type is a context is decided by its first word.  Every
spelling of a context begins with a word that may open one, except for the bracket forms: these
have no first word, and so `mutable_automaton<[ab], b>` has a label set and a weight set as its
children while `mutable_automaton<lal(ab), b>` has a context.
-/

namespace OnDemand
namespace Descriptor

open Reader Spelling

/-- The name of an automaton type: a word, without the namespace that it may stand behind. -/
structure IsAutomatonName (name : Text) : Prop where
  isWord : IsWord name
  isAutomaton : Keyword.isAutomaton name = true
  bare : Text.beginsWith "vcsn::".toList name = false

instance (name : Text) : Decidable (IsAutomatonName name) :=
  decidable_of_iff (IsWord name ∧ Keyword.isAutomaton name = true ∧
      Text.beginsWith "vcsn::".toList name = false)
    ⟨fun ⟨h₁, h₂, h₃⟩ => ⟨h₁, h₂, h₃⟩, fun ⟨h₁, h₂, h₃⟩ => ⟨h₁, h₂, h₃⟩⟩

section

variable {name text : Text} {c : Descriptor}

theorem IsAutomatonName.withoutNamespace_eq (h : IsAutomatonName name) :
    Keyword.withoutNamespace name = name := by
  rcases Keyword.withoutNamespace_cases name with hname | ⟨rest, hsplit, -, -⟩
  · exact hname
  · have hbegins : Text.beginsWith "vcsn::".toList name = true := by
      rw [Text.beginsWith, Text.dropPrefix?_eq_some_iff.2 hsplit]
      rfl
    rw [h.bare] at hbegins
    cases hbegins

/-- An automaton type with one child, read up to that child. -/
theorem IsAutomatonName.gives_type (h : IsAutomatonName name) (text : Text) :
    gives (type (applied name text)) =
      (firstOf (text ++ ['>'])).bind fun p =>
        (gives (types p.2)).bind fun q =>
          (leaves (expect '>' q.2)).bind fun r => some (.automaton name (p.1 :: q.1), r) := by
  have hopening : Keyword.Opening.ofWord (Keyword.withoutNamespace name) = .automaton := by
    rw [h.withoutNamespace_eq]
    exact Keyword.opening_of_isAutomaton h.isAutomaton
  rcases word_applied h.isWord text [] with ⟨hvalue, hrest⟩
  rw [List.append_nil] at hvalue hrest
  rw [Reader.gives_type, hvalue, hrest, gives_typeFrom_automaton h.isWord.ne_nil hopening,
    h.withoutNamespace_eq, gives_automaton, leaves_open, Option.bind_some]
  rfl

theorem IsAutomatonName.quotes_applied (h : IsAutomatonName name) (text : Text) :
    Stripping.quotes (applied name text) = applied name text := by
  refine Stripping.quotes_of_plain (startsPlain_of_takeWhile ?_) (endsPlain_applied name text)
  rw [takeWhile_applied h.isWord.2]
  exact h.isWord.ne_nil

theorem IsAutomatonName.ofType_iff (h : IsAutomatonName name) {d : Descriptor} :
    ofType (applied name text) = .ok d ↔
      ∃ r, gives (type (applied name text)) = some (d, r) ∧ Text.trimStart r = [] := by
  rw [ofType, h.quotes_applied, reported_eq_ok_iff]
  exact finish_eq_ok_iff

/-- A context that begins with a word is the first child of an automaton type. -/
theorem firstOf_spelled {w p : Text} (hw : w ≠ []) (h : ReadsContext c w p) :
    firstOf (w ++ p ++ ['>']) = some (c, ['>']) := by
  have hhalts : Halts ['>'] := halts_blanks .none (.inr rfl) []
  have hword : (word (w ++ (p ++ ['>']))).value = w ∧
      (word (w ++ (p ++ ['>']))).rest = p ++ ['>'] :=
    h.opens.word_blanks .none (breaksWord_append h.opens.breaks hhalts.word)
  have hopens : Reader.opensContext (word (w ++ (p ++ ['>']))).value = true := by
    rw [hword.1]
    exact h.word.resolve_left hw
  rw [List.append_assoc, firstOf_of_opens hopens, hword.1, hword.2,
    h.reads _ hhalts]
  rfl

/-- What begins with a bracket is read as a label set. -/
theorem isLabelset_of_firstOf {b : Char} {p r : Text} {d : Descriptor} (hb : b = '[' ∨ b = '<')
    (h : firstOf (b :: p) = some (d, r)) : IsLabelset d := by
  have hblank : isBlank b = false := by
    rcases hb with rfl | rfl <;> rfl
  have hword : (word (b :: p)).value = [] := by
    rcases hb with rfl | rfl <;> rfl
  have hpeek : peek (b :: p) = some '[' ∨ peek (b :: p) = some '<' := by
    rw [peek_cons hblank]
    simpa using hb
  have hopens : Reader.opensContext (word (b :: p)).value = false := by
    rw [hword]
    decide
  have hrest : (word (b :: p)).rest = b :: p := by
    rcases hb with rfl | rfl <;> rfl
  rw [firstOf_of_not_opens hopens, Reader.gives_type, hword, hrest, gives_typeFrom_unnamed,
    gives_unnamedType hpeek] at h
  exact isLabelset_of_gives h

theorem not_isLabelset_of_isContext (h : IsContext c) : ¬IsLabelset c := by
  intro hlabels
  have hkind := hlabels.isLabels
  cases h
  cases hkind

/-- A context that begins with a word is read as the one child. -/
theorem IsAutomatonName.ofType_context (h : IsAutomatonName name) {w p : Text} (hw : w ≠ [])
    (hreads : ReadsContext c w p) :
    ofType (applied name (w ++ p)) = .ok (.automaton name [c]) := by
  refine h.ofType_iff.2 ⟨[], ?_, rfl⟩
  rw [h.gives_type, firstOf_spelled hw hreads, Option.bind_some, gives_types_none (peek_close_ne []),
    Option.bind_some, leaves_close]
  rfl

/-- A context that begins with a bracket is not read as the one child. -/
theorem IsAutomatonName.ofType_bracket (h : IsAutomatonName name) {b : Char} {p : Text}
    (hb : b = '[' ∨ b = '<') (hc : IsContext c) (others : List Descriptor) :
    ofType (applied name (b :: p)) ≠ .ok (.automaton name (c :: others)) := by
  intro hread
  rcases h.ofType_iff.1 hread with ⟨r, hgives, -⟩
  rw [h.gives_type] at hgives
  rcases Option.bind_eq_some_iff.1 hgives with ⟨⟨d, r₁⟩, hfirst, hgives⟩
  rcases Option.bind_eq_some_iff.1 hgives with ⟨⟨ds, r₂⟩, -, hgives⟩
  rcases Option.bind_eq_some_iff.1 hgives with ⟨r₃, -, hgives⟩
  cases hgives
  exact not_isLabelset_of_isContext hc (isLabelset_of_firstOf hb hfirst)

/-- The only child of an automaton type is read as the context that its text spells, or not. -/
theorem IsAutomatonName.ofType_iff_head (h : IsAutomatonName name)
    (hbare : Stripping.decoration text = text) (hread : ofContext text = .ok c) :
    ofType (applied name text) = .ok (.automaton name [c]) ↔
      text.head? ≠ some '[' ∧ text.head? ≠ some '<' := by
  rcases spelled_of_ofContext hread with ⟨w, p, hspells, htext⟩
  rw [hbare] at htext
  subst htext
  have hreads := hspells.reads keepsApart_apart
  -- A context begins with a word, unless it begins with a bracket form.
  rcases hreads.opens.opener with hw | ⟨rfl, hp⟩
  · refine iff_of_true (h.ofType_context hw.ne_nil hreads) ?_
    cases w with
    | nil => exact absurd rfl hw.ne_nil
    | cons e w =>
        have he : inWord e = true := hw.inWord_of_mem List.mem_cons_self
        constructor
        · rintro hhead
          cases hhead
          cases he
        · rintro hhead
          cases hhead
          cases he
  · cases p with
    | nil => simp at hp
    | cons b p =>
        have hb : b = '[' ∨ b = '<' := by simpa using hp
        refine iff_of_false (h.ofType_bracket hb (isContext_of_ofContext hread) []) ?_
        rintro ⟨hsquare, hangle⟩
        rcases hb with rfl | rfl
        · exact hsquare rfl
        · exact hangle rfl

theorem IsContext.head?_fullName (h : IsContext c) : c.fullName.head? = some 'c' := by
  cases h
  rw [fullName, nameWith]
  rfl

end

/--
A context as the only child of an automaton type is read as it is alone, in whatever way it is
spelled, just when its spelling does not begin with a bracket.  From its full name it always is, so
all spellings that begin with a word have the names in common.
-/
theorem context_within_automaton_iff {name text : Text} {c : Descriptor}
    (hname : IsAutomatonName name) (hbare : Stripping.decoration text = text)
    (hread : ofContext text = .ok c) :
    (ofType (applied name text) = .ok (.automaton name [c]) ↔
      text.head? ≠ some '[' ∧ text.head? ≠ some '<') ∧
    ofType (applied name c.fullName) = .ok (.automaton name [c]) ∧
    (text.head? ≠ some '[' → text.head? ≠ some '<' →
      normalizeType (applied name text) = normalizeType (applied name c.fullName)) := by
  have hcontext : IsContext c := isContext_of_ofContext hread
  have hiff := hname.ofType_iff_head hbare hread
  have hfull : ofType (applied name c.fullName) = .ok (.automaton name [c]) := by
    refine (hname.ofType_iff_head hcontext.decoration_fullName hcontext.ofContext_fullName).2 ?_
    rw [hcontext.head?_fullName]
    decide
  refine ⟨hiff, hfull, fun hsquare hangle => ?_⟩
  rw [normalizeType, normalizeType, hiff.2 ⟨hsquare, hangle⟩, hfull]

theorem decoration_of_plain {text : Text} (hquotes : Stripping.quotes text = text)
    (hhome : Stripping.withoutHome? text = none) : Stripping.decoration text = text := by
  rw [Stripping.decoration, hquotes, Stripping.homeless_of_withoutHome? hhome]

theorem ofContext_series :
    ofContext "seriesset<[ab]* -> z>_b".toList =
      .ok (.context (.expressionset (.context
          (.wordset (.genset "char_letters".toList (some "ab".toList)))
          (.weightset "z".toList)) .distributive) (.weightset "b".toList)) := by
  have hwords : SpellsBracketed "char_letters".toList
      (.wordset (.genset "char_letters".toList (some "ab".toList))) "[ab]*".toList :=
    .wordset (.plain (by decide) (by decide) (.plain (by decide) (by decide) .nil))
  have hinner := SpellsContext.separated (SpellsLabelset.bracketed hwords)
    (.arrow .space .space)
    (show SpellsWeightset Apart (.weightset "z".toList) "z".toList [] from .terminal (by decide))
  have hlabels := SpellsLabelset.expressions
    (show ("seriesset".toList, Identities.distributive) ∈ expressionWords by decide)
    (.expressionset .none .none .none hinner .usual)
  have hspells := SpellsContext.separated hlabels (.underscore .none .none (List.cons_ne_nil _ _))
    (show SpellsWeightset Apart (.weightset "b".toList) "b".toList [] from .terminal (by decide))
  exact ofContext_of_isSpelling keepsApart_apart ⟨_, _, hspells, .plain .none .none .core⟩

/-- Brackets, an arrow and an underscore, but behind a word. -/
theorem context_within_automaton_series :
    ofType "mutable_automaton<seriesset<[ab]* -> z>_b>".toList =
      .ok (.automaton "mutable_automaton".toList [.context (.expressionset (.context
          (.wordset (.genset "char_letters".toList (some "ab".toList)))
          (.weightset "z".toList)) .distributive) (.weightset "b".toList)]) := by
  have hiff := context_within_automaton_iff
    (show IsAutomatonName "mutable_automaton".toList by decide)
    (decoration_of_plain (by decide) (by decide)) ofContext_series
  exact hiff.1.2 (by decide)

theorem spells_brackets : SpellsLabelset Apart
    (.letterset (.genset "char_letters".toList (some "ab".toList))) [] "[ab]".toList :=
  .bracketed (.letterset (.plain (by decide) (by decide) (.plain (by decide) (by decide) .nil)))

theorem ofContext_brackets : ofContext "[ab], b".toList =
    .ok (.context (.letterset (.genset "char_letters".toList (some "ab".toList)))
      (.weightset "b".toList)) := by
  have hspells := SpellsContext.separated spells_brackets (.comma .none .space)
    (show SpellsWeightset Apart (.weightset "b".toList) "b".toList [] from .terminal (by decide))
  exact ofContext_of_isSpelling keepsApart_apart ⟨_, _, hspells, .plain .none .none .core⟩

theorem ofType_brackets : ofType "mutable_automaton<[ab], b>".toList =
    .ok (.automaton "mutable_automaton".toList
      [.letterset (.genset "char_letters".toList (some "ab".toList)), .weightset "b".toList]) := by
  have hname : IsAutomatonName "mutable_automaton".toList := by decide
  have hrest : ", b>".toList = further true [.weightset "b".toList] ++ ['>'] := by decide
  have hfirst : firstOf ("[ab], b".toList ++ ['>']) =
      some (.letterset (.genset "char_letters".toList (some "ab".toList)), ", b>".toList) := by
    have hword : (word ("[ab], b".toList ++ ['>'])).value = [] ∧
        (word ("[ab], b".toList ++ ['>'])).rest = "[ab]".toList ++ ", b>".toList := by
      decide
    have hnot : Reader.opensContext (word ("[ab], b".toList ++ ['>'])).value = false := by
      rw [hword.1]
      decide
    have hends : Ends ", b>".toList := ends_blanks .none rfl (by decide) (by decide) " b>".toList
    rw [firstOf_of_not_opens hnot, Reader.gives_type, hword.1, hword.2, gives_typeFrom_unnamed,
      gives_unnamedType (.inl (by decide))]
    exact (spells_brackets.reads keepsApart_apart).reads _ hends fun _ _ => by decide
  have hothers : gives (types ", b>".toList) = some ([.weightset "b".toList], ['>']) := by
    have hread : ∀ d ∈ [Descriptor.weightset "b".toList], Rereads d := by
      intro d hd
      rw [List.mem_singleton] at hd
      rw [hd]
      exact (IsType.weightset (.weightset (by decide))).rereads
    rw [hrest, gives_types_append hread]
    rfl
  have htext : "mutable_automaton<[ab], b>".toList =
      applied "mutable_automaton".toList "[ab], b".toList := by
    decide
  rw [htext]
  refine hname.ofType_iff.2 ⟨[], ?_, rfl⟩
  rw [hname.gives_type, hfirst, Option.bind_some, hothers, Option.bind_some, leaves_close]
  rfl

/-- A context that begins with a bracket is split up into its label set and its weight set. -/
theorem brackets_within_automaton_split :
    (ofContext "[ab], b".toList =
        .ok (.context (.letterset (.genset "char_letters".toList (some "ab".toList)))
          (.weightset "b".toList)) ∧
      ofType "mutable_automaton<[ab], b>".toList =
        .ok (.automaton "mutable_automaton".toList
          [.letterset (.genset "char_letters".toList (some "ab".toList)),
            .weightset "b".toList])) ∧
    ¬∀ (name text : Text) (c : Descriptor), IsAutomatonName name →
      Stripping.decoration text = text → ofContext text = .ok c →
      ofType (applied name text) = .ok (.automaton name [c]) := by
  refine ⟨⟨ofContext_brackets, ofType_brackets⟩, fun hclaim => ?_⟩
  have hone := hclaim "mutable_automaton".toList "[ab], b".toList _ (by decide)
    (decoration_of_plain (by decide) (by decide)) ofContext_brackets
  have htwo := ofType_brackets.symm.trans hone
  cases htwo

end Descriptor
end OnDemand
