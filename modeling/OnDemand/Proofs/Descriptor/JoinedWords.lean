import OnDemand.Proofs.Descriptor.ContextSpellings

/-!
# Joined words and separated words

A label set word and a weight set word may be joined by an underscore or separated by a comma, and
the same text may follow.  Behind a comma it belongs to the weight set.  Behind joined words it is
offered to the label set first: what it takes of the text is all that can make a difference, and
then exactly one of the two texts is read.
-/

namespace OnDemand

namespace Reader

variable {w s r : Text} {d : Descriptor}

/-! ## Brackets that may be taken either way -/

/-- The text begins with a parenthesis or with the end of a bracket, blanks aside. -/
def Shut (s : Text) : Prop := peek s = some '(' ∨ peek s = some '>'

theorem Shut.peek_ne {c : Char} (h : Shut s) (hopen : c ≠ '(') (hclose : c ≠ '>') :
    peek s ≠ some c := by
  rcases h with h | h
  · rw [h]
    simpa using hopen.symm
  · rw [h]
    simpa using hclose.symm

theorem expect_eq_none {c : Char} (h : peek s ≠ some c) : leaves (expect c s) = none := by
  cases hleaves : leaves (expect c s) with
  | none => rfl
  | some r => exact absurd (peek_of_expect hleaves) h

theorem Shut.separator_eq_none (h : Shut s) : leaves (separator s) = none := by
  rw [leaves_separator]
  cases htrim : Text.trimStart s with
  | nil => rfl
  | cons c u =>
      have hc : c = '(' ∨ c = '>' := by simpa [Shut, peek, htrim] using h
      rcases hc with rfl | rfl <;> rfl

/-- Where no angle bracket opens, a label set takes an alphabet or nothing. -/
theorem labelset_of_not_open (hs : peek s ≠ some '<') (hw : w ≠ [])
    (h : gives (labelset w s) = some (d, r)) :
    r = s ∨ ∃ gens, gives (alphabet? s) = some (gens, r) := by
  cases hform : Keyword.labelForm? w with
  | none =>
      rw [gives_labelset_unknown hform hw] at h
      cases h
  | some form =>
      cases form with
      | lettered shape letters =>
          rw [gives_labelset_lettered hform] at h
          rcases Option.bind_eq_some_iff.1 h with ⟨⟨gens, r₁⟩, hgens, h⟩
          cases h
          exact .inr ⟨gens, hgens⟩
      | typed shape =>
          rw [gives_labelset_typed hform, gives_typedGenset_untyped hs] at h
          rcases Option.bind_eq_some_iff.1 h with ⟨⟨g, r₁⟩, hg, h⟩
          rcases Option.bind_eq_some_iff.1 hg with ⟨⟨gens, r₂⟩, hgens, hg⟩
          cases hg
          cases h
          exact .inr ⟨gens, hgens⟩
      | nullable =>
          rw [gives_labelset_nullable hform, gives_nullableBody_bare hs] at h
          rcases Option.bind_eq_some_iff.1 h with ⟨⟨l, r₁⟩, hl, h⟩
          rcases Option.bind_eq_some_iff.1 hl with ⟨⟨gens, r₂⟩, hgens, hl⟩
          cases hl
          cases h
          exact .inr ⟨gens, hgens⟩
      | one =>
          rw [gives_labelset_one hform] at h
          cases h
          exact .inl rfl
      | product =>
          rw [gives_labelset_product hform, gives_product, expect_eq_none hs] at h
          cases h
      | expressions usual =>
          rw [gives_labelset_expressions hform, gives_expressionset, expect_eq_none hs] at h
          cases h

/-- Where no angle bracket opens, a weight set takes nothing. -/
theorem weightset_of_not_open (hs : peek s ≠ some '<')
    (h : gives (weightset w s) = some (d, r)) : r = s := by
  cases hform : Keyword.weightForm? w with
  | none =>
      rw [gives_weightset_unknown hform] at h
      cases h
  | some form =>
      cases form with
      | terminal =>
          rw [gives_weightset_terminal hform] at h
          cases h
          rfl
      | expressions usual =>
          rw [gives_weightset_expressions hform, gives_expressionset, expect_eq_none hs] at h
          cases h
      | polynomials =>
          rw [gives_weightset_polynomials hform, gives_polynomialset, expect_eq_none hs] at h
          cases h
      | product =>
          rw [gives_weightset_product hform, gives_product, expect_eq_none hs] at h
          cases h

end Reader

namespace Spelling

open Reader Stripping

section

variable {w s y z : Text}

/-- The brackets of a label set are read up to `z`: there is an alphabet or a label set in them. -/
def ReadsLabels (w s z : Text) : Prop :=
  (∃ g, gives (genset w s) = some (g, z)) ∨ ∃ l, gives (labelset w s) = some (l, z)

/-- The brackets of a weight set are read up to `z`: there is a member or a context in them. -/
def ReadsWeights (w s z : Text) : Prop :=
  (∃ e, memberFrom w s = some (e, z)) ∨ ∃ c, gives (context w s) = some (c, z)

theorem ne_nil_of_joined {l v : Text} (h : joined? w = some (l, v)) : l ≠ [] := by
  unfold joined? at h
  split at h
  next => cases h
  next =>
      have hall : ∀ l ∈ Keyword.labelsets.map Prod.fst, l ≠ [] := by decide
      exact hall l (Descriptor.splitJoined_eq h).1

section

variable {gens : Option Text} {d : Descriptor}

/-- Of an alphabet and what ends its bracket, a label set takes the alphabet or nothing. -/
theorem labelset_at_alphabet (ha : gives (alphabet? s) = some (gens, z)) (hs : Shut s)
    (hw : w ≠ []) (h : gives (labelset w s) = some (d, y)) : y = s ∨ y = z := by
  rcases labelset_of_not_open (hs.peek_ne (by decide) (by decide)) hw h with hy | ⟨gens', hy⟩
  · exact .inl hy
  · rw [ha] at hy
    cases hy
    exact .inr rfl

/-- A member takes no more of them. -/
theorem memberFrom_at_alphabet (ha : gives (alphabet? s) = some (gens, z)) (hs : Shut s)
    (hw : w ≠ []) (h : memberFrom w s = some (d, y)) : y = s ∨ y = z := by
  unfold memberFrom at h
  split at h
  next => exact .inl (weightset_of_not_open (hs.peek_ne (by decide) (by decide)) h)
  next =>
      split at h
      next => exact labelset_at_alphabet ha hs hw h
      next => cases h

/-- Neither does a context, whose weight set has nothing left to take. -/
theorem context_at_alphabet (ha : gives (alphabet? s) = some (gens, z)) (hs : Shut s)
    (hz : Shut z) (hw : w ≠ []) (h : gives (context w s) = some (d, y)) : y = s ∨ y = z := by
  have hshut : ∀ {t}, t = s ∨ t = z → Shut t := by
    rintro t (rfl | rfl)
    · exact hs
    · exact hz
  by_cases hcontext : w = "context".toList
  · rw [hcontext, gives_context_wrapped,
      expect_eq_none (hs.peek_ne (by decide) (by decide))] at h
    cases h
  · cases hjoined : joined? w with
    | some words =>
        rcases words with ⟨l, v⟩
        rcases (gives_context_joined_eq_some_iff hcontext hjoined).1 h with
          ⟨e, r, e', hread, hread', -⟩
        have hr := labelset_at_alphabet ha hs (ne_nil_of_joined hjoined) hread
        rwa [weightset_of_not_open ((hshut hr).peek_ne (by decide) (by decide)) hread']
    | none =>
        -- No separator follows: the bracket ends.
        rcases (gives_context_separated_eq_some_iff hcontext hjoined).1 h with
          ⟨e, r, r', -, hread, hsep, -⟩
        rw [(hshut (labelset_at_alphabet ha hs hw hread)).separator_eq_none] at hsep
        cases hsep

/-- What an alphabet leaves is the end of its bracket, so nothing else stops elsewhere. -/
theorem ReadsWeights.eq_of_alphabet (hw : w ≠ [])
    (ha : gives (alphabet? s) = some (gens, z)) (hz : peek z = some '>')
    (h : ReadsWeights w s y) (hy : peek y ≠ some '(') : y = z := by
  have hs : Shut s ∧ (s = z ∨ peek s = some '(') := by
    by_cases hopen : peek s = some '('
    · exact ⟨.inl hopen, .inr hopen⟩
    · rw [gives_alphabet_none hopen] at ha
      cases ha
      exact ⟨.inr hz, .inl rfl⟩
  have hends : y = s ∨ y = z := by
    rcases h with ⟨e, he⟩ | ⟨c, hc⟩
    · exact memberFrom_at_alphabet ha hs.1 hw he
    · exact context_at_alphabet ha hs.1 (.inr hz) hw hc
  rcases hends with rfl | hyz
  · exact hs.2.resolve_right hy
  · exact hyz

end

/-- Neither a member nor a context begins with the word of a wrapped alphabet. -/
theorem not_readsWeights_setAlphabet : ¬ReadsWeights "set_alphabet".toList s y := by
  have hterminal : ¬(Keyword.isTerminal "set_alphabet".toList = true ∨
      "set_alphabet".toList = "polynomialset".toList) := by
    decide
  have hlabels : ¬(Keyword.isLabelset "set_alphabet".toList = true ∨
      "set_alphabet".toList = []) := by
    decide
  rintro (⟨e, he⟩ | ⟨c, hc⟩)
  · rw [memberFrom, if_neg hterminal, if_neg hlabels] at he
    cases he
  · rw [gives_context_separated (by decide) (by decide),
      gives_labelset_unknown (by decide) (by decide)] at hc
    cases hc

/-- Where a label set is all that the bracket holds, a context does not fit, nor does more. -/
theorem ReadsWeights.eq_of_labelset {l : Descriptor} (hl : gives (labelset w s) = some (l, z))
    (hz : peek z = some '>') (h : ReadsWeights w s y) : y = z := by
  have hword : w = [] ∨ Keyword.isLabelset w = true := by
    rcases Decidable.em (w = []) with hw | hw
    · exact .inl hw
    · cases hform : Keyword.labelForm? w with
      | some form => exact .inr (isLabelset_of_labelForm hform)
      | none =>
          rw [gives_labelset_unknown hform hw] at hl
          cases hl
  have hfirst : w ≠ "context".toList ∧ joined? w = none ∧
      ¬(Keyword.isTerminal w = true ∨ w = "polynomialset".toList) := by
    rcases hword with rfl | hlabels
    · decide
    · have hnames := Descriptor.namesLabelset_of_isLabelset hlabels
      refine ⟨hnames.context, by rw [joined?, if_pos hlabels], ?_⟩
      rw [hnames.terminal]
      simpa using hnames.polynomials
  rcases h with ⟨e, he⟩ | ⟨c, hc⟩
  · rw [memberFrom, if_neg hfirst.2.2, if_pos hword.symm, hl] at he
    cases he
    rfl
  · have hshut : Shut z := .inr hz
    rw [gives_context_separated hfirst.1 hfirst.2.1, hl, Option.bind_some,
      hshut.separator_eq_none] at hc
    cases hc

theorem ReadsWeights.eq_of_labels (hl : ReadsLabels w s z) (hz : peek z = some '>')
    (h : ReadsWeights w s y) (hy : peek y ≠ some '(') : y = z := by
  rcases hl with ⟨g, hg⟩ | ⟨l, hl⟩
  · by_cases hset : w = "set_alphabet".toList
    · rw [hset] at h
      exact absurd h not_readsWeights_setAlphabet
    · by_cases hw : w = []
      · rw [hw, genset, if_neg (by decide), if_pos rfl] at hg
        cases hg
      · rw [gives_genset_bare hset hw] at hg
        rcases Option.bind_eq_some_iff.1 hg with ⟨⟨gens, r⟩, hgens, hg⟩
        cases hg
        exact h.eq_of_alphabet hw hgens hz hy
  · exact h.eq_of_labelset hl hz

/-- What is in the brackets behind a label set word that they may follow. -/
theorem labelset_brackets {d : Descriptor} (hw : w ∈ openWords) (hs : peek s = some '<')
    (h : gives (labelset w s) = some (d, y)) :
    ∃ r z, leaves (expect '<' s) = some r ∧ ReadsLabels (word r).value (word r).rest z ∧
      leaves (expect '>' z) = some y := by
  -- Only two forms take brackets that may be left out.
  have hforms : ∀ w ∈ openWords, ∃ form, Keyword.labelForm? w = some form ∧
      (form = .nullable ∨ ∃ shape, form = .typed shape) := by
    intro w hw
    rcases List.mem_append.1 hw with htyped | hnullable
    · rcases List.mem_map.1 htyped with ⟨x, hx, rfl⟩
      exact ⟨_, typedWords_spec x hx, .inr ⟨_, rfl⟩⟩
    · exact ⟨_, nullableWords_spec w hnullable, .inl rfl⟩
  rcases hforms w hw with ⟨form, hform, rfl | ⟨shape, rfl⟩⟩
  · rw [gives_labelset_nullable hform] at h
    rcases Option.bind_eq_some_iff.1 h with ⟨⟨l, r₁⟩, hl, h⟩
    cases h
    rcases (gives_nullableBody_inner_eq_some_iff hs).1 hl with ⟨r, z, hopen, hinner, hclose⟩
    unfold nullableInner at hinner
    split at hinner
    · rcases Option.bind_eq_some_iff.1 hinner with ⟨⟨g, z'⟩, hg, hinner⟩
      cases hinner
      exact ⟨r, z', hopen, .inl ⟨g, hg⟩, hclose⟩
    · exact ⟨r, z, hopen, .inr ⟨l, hinner⟩, hclose⟩
  · rw [gives_labelset_typed hform] at h
    rcases Option.bind_eq_some_iff.1 h with ⟨⟨g, r₁⟩, hg, h⟩
    cases h
    rcases (gives_typedGenset_typed_eq_some_iff hs).1 hg with ⟨r, z, hopen, hinner, hclose⟩
    exact ⟨r, z, hopen, .inl ⟨g, hinner⟩, hclose⟩

/-- What is in the brackets of a weight set: more members or identities may follow. -/
theorem weightset_brackets {e : Descriptor} (hw : Keyword.weightForm? w ≠ some .terminal)
    (h : gives (weightset w s) = some (e, y)) :
    ∃ r z, leaves (expect '<' s) = some r ∧ ReadsWeights (word r).value (word r).rest z ∧
      (peek z = some ',' ∨
        ∃ t, leaves (expect '>' z) = some t ∧ (peek t = some '(' ∨ y = t)) := by
  cases hform : Keyword.weightForm? w with
  | none =>
      rw [gives_weightset_unknown hform] at h
      cases h
  | some form =>
      cases form with
      | terminal => exact absurd hform hw
      | expressions usual =>
          rw [gives_weightset_expressions hform] at h
          rcases gives_expressionset_eq_some_iff.1 h with
            ⟨c, t, i, ⟨r, z, hopen, hc, hclose⟩, hi, -⟩
          refine ⟨r, z, hopen, .inr ⟨c, hc⟩, .inr ⟨t, hclose, ?_⟩⟩
          -- Identities in parentheses may follow, and otherwise nothing more is taken.
          by_cases hparen : peek t = some '('
          · exact .inl hparen
          · rw [gives_identities_none usual hparen] at hi
            cases hi
            exact .inr rfl
      | polynomials =>
          rw [gives_weightset_polynomials hform] at h
          rcases gives_polynomialset_eq_some_iff.1 h with ⟨c, ⟨r, z, hopen, hc, hclose⟩, -⟩
          exact ⟨r, z, hopen, .inr ⟨c, hc⟩, .inr ⟨_, hclose, .inr rfl⟩⟩
      | product =>
          rw [gives_weightset_product hform] at h
          rcases gives_product_eq_some_iff.1 h with ⟨m, ms, z', ⟨r, z, hopen, hm, hms⟩, hclose, -⟩
          refine ⟨r, z, hopen, .inl ⟨m, (gives_member_from r).symm.trans hm⟩, ?_⟩
          by_cases hcomma : peek z = some ','
          · exact .inl hcomma
          · cases (gives_members_none hcomma).symm.trans hms
            exact .inr ⟨_, hclose, .inr rfl⟩

/-- Brackets that both a label set and a weight set could have are the same brackets for both. -/
theorem brackets_agree {v : Text} {d e : Descriptor} (hw : w ∈ openWords)
    (hv : Keyword.weightForm? v ≠ some .terminal) (hl : gives (labelset w s) = some (d, y))
    (he : gives (weightset v s) = some (e, z)) (hy : peek y ≠ some '(') : z = y := by
  rcases weightset_brackets hv he with ⟨r, x, hopen, hweights, hx⟩
  rcases labelset_brackets hw (peek_of_expect hopen) hl with ⟨r', x', hopen', hlabels, hclose'⟩
  cases hopen.symm.trans hopen'
  have hx' : peek x' = some '>' := peek_of_expect hclose'
  have hparen : peek x ≠ some '(' := by
    rcases hx with hcomma | ⟨t, hclose, -⟩
    · rw [hcomma]
      decide
    · rw [peek_of_expect hclose]
      decide
  cases hweights.eq_of_labels hlabels hx' hparen
  rcases hx with hcomma | ⟨t, hclose, ht⟩
  · rw [hcomma] at hx'
    exact absurd hx' (by decide)
  · cases hclose.symm.trans hclose'
    exact ht.resolve_left hy

end

/-! ## Joined and separated words as they are read -/

/-- The words `l` and `v` joined by an underscore, and `r` behind them. -/
def joinedText (l v r : Text) : Text := l ++ '_' :: (v ++ r)

/-- The words `l` and `v` separated by a comma, and `r` behind them. -/
def separatedText (l v r : Text) : Text := l ++ ',' :: ' ' :: (v ++ r)

/--
The text `r` is made of what follows the word `l` of the label set `d` and of what follows the word
`v` of the weight set `e`, with blanks at its end.
-/
structure Parted (l v r : Text) (d e : Descriptor) (p q : Text) : Prop where
  labels : SpellsLabelset Apart d l p
  weights : SpellsWeightset Apart e v q
  text : ∃ b : Blanks, r = p ++ (q ++ b.text)

theorem halts_text (b : Blanks) : Halts b.text := by
  have hpeek : ∀ c, peek b.text ≠ some c := by
    intro c
    have hnone : peek b.text = none := by
      rw [← List.append_nil b.text, peek_blanks]
      rfl
    rw [hnone]
    exact Option.some_ne_none c |>.symm
  rcases b with ⟨text, hblank⟩
  cases text with
  | nil => exact halts_nil
  | cons c text =>
      have hc : isBlank c = true := List.all_eq_true.1 hblank c List.mem_cons_self
      refine ⟨?_, ?_, hpeek _, hpeek _⟩
      · cases hword : inWord c with
        | false => simpa using hword
        | true =>
            rw [isBlank_of_inWord hword] at hc
            cases hc
      · rintro h
        cases h
        exact absurd hc (by decide)

theorem blanks_eq_nil_of_cons {b : Blanks} {c : Char} {s u : Text} (hc : isBlank c = false)
    (h : c :: s = b.text ++ u) : b.text = [] := by
  rcases b with ⟨text, hblank⟩
  cases text with
  | nil => rfl
  | cons d text =>
      cases h
      rw [List.all_eq_true.1 hblank c List.mem_cons_self] at hc
      cases hc

/-- A text that begins with neither a quote nor a home has blanks at its end for decoration. -/
theorem decoration_of_startsPlain {t : Text} (hstart : StartsPlain t)
    (hhome : withoutHome? t = none) : ∃ b : Blanks, t = decoration t ++ b.text := by
  rcases hstart with ⟨c, s, hs, hc, hsingle, hdouble⟩
  have hdecorated := decorated_decoration t
  generalize decoration t = core at hdecorated
  cases hdecorated with
  | @plain u b b' hhomed =>
      have hb : b.text = [] := blanks_eq_nil_of_cons hc hs.symm
      rw [hb, List.nil_append] at hhome ⊢
      cases hhomed with
      | core => exact ⟨b', rfl⟩
      | home b₁ hmem _ =>
          rw [List.append_assoc, withoutHome?_append _ hmem] at hhome
          cases hhome
  | @quoted u q b b₁ b₂ b' hq _ =>
      have hb : b.text = [] := blanks_eq_nil_of_cons hc hs.symm
      rw [hb, List.nil_append] at hs
      cases hs
      rcases hq with rfl | rfl
      · exact absurd rfl hsingle
      · exact absurd rfl hdouble

section

variable {l v r : Text} {c d e : Descriptor} {p q : Text}

theorem startsPlain_of_isWord {w : Text} (hw : IsWord w) (t : Text) : StartsPlain (w ++ t) := by
  cases w with
  | nil => exact absurd rfl hw.ne_nil
  | cons c w => exact Descriptor.startsPlain_of_inWord (hw.inWord_of_mem List.mem_cons_self) _

/-- What is spelled in a text that begins with a label set word, from its first word on. -/
theorem spelled_of_labelset {t : Text} (hl : Keyword.isLabelset l = true)
    (h : Descriptor.ofContext (l ++ t) = .ok c) :
    ∃ (p : Text) (b : Blanks), SpellsContext Apart c (word (l ++ t)).value p ∧
      (word (l ++ t)).rest = p ++ b.text := by
  have hstart : StartsPlain (l ++ t) :=
    startsPlain_of_isWord (Descriptor.namesLabelset_of_isLabelset hl).isWord t
  rcases spelled_of_ofContext h with ⟨w, p, hspells, hdecoration⟩
  rcases decoration_of_startsPlain hstart (withoutHome?_of_isLabelset hl t) with ⟨b, hb⟩
  have hopens := (hspells.reads keepsApart_apart).opens
  rw [hdecoration, List.append_assoc] at hb
  rcases hopens.word_blanks .none (breaksWord_append hopens.breaks (halts_text b).word) with
    ⟨hvalue, hrest⟩
  rw [← hb] at hvalue hrest
  exact ⟨p, b, hvalue ▸ hspells, hrest⟩

theorem mem_labelsets_of_isLabelset (hl : Keyword.isLabelset l = true) :
    l ∈ Keyword.labelsets.map Prod.fst := by
  rcases Option.isSome_iff_exists.1 hl with ⟨form, hform⟩
  exact List.mem_map_of_mem (mem_labelsets hform)

theorem mem_weightWords (hv : (Keyword.weightForm? v).isSome = true) : v ∈ weightWords := by
  rcases Option.isSome_iff_exists.1 hv with ⟨form, hform⟩
  have hnames := names_of_weightForm hform
  simp only [weightWords, List.mem_append, List.mem_cons]
  cases form with
  | terminal => exact .inl hnames
  | polynomials => exact .inr (.inl hnames)
  | product => exact .inr (.inr (.inl hnames))
  | expressions usual => exact .inr (.inr (.inr (List.mem_map_of_mem hnames)))

/-- A context is read behind joined words just when both sets are spelled there. -/
theorem ofContext_joinedText (hl : Keyword.isLabelset l = true)
    (hv : (Keyword.weightForm? v).isSome = true) (hr : BreaksWord r) :
    Descriptor.ofContext (joinedText l v r) = .ok c ↔
      ∃ d e p q, c = .context d e ∧ Parted l v r d e p q ∧ Apart l p q := by
  have hjoins := joins_words l (mem_labelsets_of_isLabelset hl) v (mem_weightWords hv)
  have htext : joinedText l v r = l ++ '_' :: v ++ r := by simp [joinedText]
  constructor
  · intro h
    rcases spelled_of_labelset hl h with ⟨p, b, hspells, hp⟩
    rw [show l ++ '_' :: (v ++ r) = l ++ '_' :: v ++ r from htext] at hspells hp
    rw [(hjoins.isWord.word_append hr).1] at hspells
    rw [(hjoins.isWord.word_append hr).2] at hp
    generalize hw : l ++ '_' :: v = w at hspells
    cases hspells with
    | wrapped => exact absurd hw hjoins.context
    | separated hd _ _ =>
        -- Joined words are no label set word.
        have hjoined := hjoins.joined
        rw [hw, joined?] at hjoined
        rcases (hd.reads keepsApart_apart).word with hnil | hlabels
        · rw [hnil] at hw
          simp at hw
        · rw [if_pos hlabels] at hjoined
          cases hjoined
    | @joined w' p v' q d e hw' hd he hapart =>
        have hlabels := (hd.reads keepsApart_apart).word.resolve_left hw'
        have hjoins' := joins_words w' (mem_labelsets_of_isLabelset hlabels) v'
          (he.reads keepsApart_apart).word
        have hwords := hjoins.joined.symm.trans (hw ▸ hjoins'.joined)
        cases hwords
        exact ⟨d, e, p, q, rfl, ⟨hd, he, b, by rw [hp, List.append_assoc]⟩, hapart⟩
  · rintro ⟨d, e, p, q, rfl, ⟨hd, he, b, hb⟩, hapart⟩
    have hne : l ≠ [] := (Descriptor.namesLabelset_of_isLabelset hl).isWord.ne_nil
    have hspells := SpellsContext.joined hne hd he hapart
    refine ofContext_of_isSpelling keepsApart_apart ⟨_, _, hspells, ?_⟩
    have hdecorated : Decorated (l ++ '_' :: v ++ (p ++ q))
        (Blanks.none.text ++ (l ++ '_' :: v ++ (p ++ q) ++ b.text)) := .plain .none b .core
    rw [htext, hb]
    simpa [Blanks.none] using hdecorated

/-- What follows a label set word is not taken to begin with a comma. -/
theorem labelset_before_comma {t u : Text} (hl : Keyword.isLabelset l = true)
    (hd : SpellsLabelset Apart d l p) (ht : Ends t) (hbracket : peek t ≠ some '<')
    (hcomma : p ++ t = ',' :: u) : p = [] := by
  have hne : l ≠ [] := (Descriptor.namesLabelset_of_isLabelset hl).isWord.ne_nil
  have hreads := (hd.reads keepsApart_apart).reads t ht fun _ _ => hbracket
  have hpeek : peek (p ++ t) = some ',' := by
    rw [hcomma]
    exact peek_cons rfl u
  rcases labelset_of_not_open (by rw [hpeek]; decide) hne hreads with hnil | ⟨gens, hgens⟩
  · exact List.self_eq_append_left.1 hnil
  · rw [gives_alphabet_none (by rw [hpeek]; decide)] at hgens
    have hrest : p ++ t = t := congrArg Prod.snd (Option.some.inj hgens)
    exact List.self_eq_append_left.1 hrest.symm

/-- A context is read behind separated words just when the weight set is spelled there. -/
theorem ofContext_separatedText (hl : Keyword.isLabelset l = true)
    (hv : (Keyword.weightForm? v).isSome = true) (hr : BreaksWord r) :
    Descriptor.ofContext (separatedText l v r) = .ok c ↔
      ∃ d e q, c = .context d e ∧ Parted l v r d e [] q := by
  have hnames := Descriptor.namesLabelset_of_isLabelset hl
  have hword : IsWord v := isWord_of_mem_weightWords v (mem_weightWords hv)
  constructor
  · intro h
    rcases spelled_of_labelset hl h with ⟨p, b, hspells, hp⟩
    have hbreaks : BreaksWord (',' :: ' ' :: (v ++ r)) := rfl
    rw [(hnames.isWord.word_append hbreaks).1] at hspells
    rw [(hnames.isWord.word_append hbreaks).2] at hp
    generalize hw : l = w at hspells
    cases hspells with
    | wrapped => exact absurd hw hnames.context
    | joined hne hd he _ =>
        have hlabels := (hd.reads keepsApart_apart).word.resolve_left hne
        have hjoins := joins_words _ (mem_labelsets_of_isLabelset hlabels) _
          (he.reads keepsApart_apart).word
        have hjoined := hjoins.joined
        rw [← hw, joined?, if_pos hl] at hjoined
        cases hjoined
    | @separated w p s v' q d e hd hs he =>
        subst hw
        have hfollows := hs.follows (v' ++ (q ++ b.text))
        have hp' : p ++ (s ++ (v' ++ (q ++ b.text))) = ',' :: ' ' :: (v ++ r) := by
          rw [hp]
          simp
        have hnil := labelset_before_comma hl hd hfollows.1 hfollows.2 hp'
        subst hnil
        rw [List.nil_append] at hp'
        -- Behind the separator the next word is read from both sides.
        rcases hs.leaves with ⟨b', hleaves⟩
        have hrest := hleaves (v' ++ (q ++ b.text))
        rw [hp', leaves_separator] at hrest
        have hspace : b'.text ++ (v' ++ (q ++ b.text)) = Blanks.space.text ++ (v ++ r) :=
          (Option.some.inj hrest).symm
        have hweights := he.reads keepsApart_apart
        have hread := hweights.opens.word_blanks b'
          (breaksWord_append hweights.opens.breaks (halts_text b).word)
        have hread' := word_blanks Blanks.space (v ++ r)
        rw [hspace, hread'.1, hread'.2, (hword.word_append hr).1, (hword.word_append hr).2] at hread
        rcases hread with ⟨rfl, hr'⟩
        exact ⟨d, e, q, rfl, hd, he, b, hr'⟩
  · rintro ⟨d, e, q, rfl, hd, he, b, hb⟩
    have hspells := SpellsContext.separated hd (.comma .none .space) he
    refine ofContext_of_isSpelling keepsApart_apart ⟨_, _, hspells, ?_⟩
    have hdecorated : Decorated (l ++ (',' :: ' ' :: (v ++ q)))
        (Blanks.none.text ++ (l ++ (',' :: ' ' :: (v ++ q)) ++ b.text)) := .plain .none b .core
    rw [separatedText, hb]
    simpa [Blanks.none, Blanks.space] using hdecorated

/-! ## The texts that tell joined words from separated ones -/

/-- A part of the text `r` goes to the label set. -/
def LabelsBehind (l v r : Text) : Prop := ∃ d e p q, p ≠ [] ∧ Parted l v r d e p q

/-- The text `r` goes to the weight set, with brackets that the label set could have as well. -/
def WeightsTaken (l v r : Text) : Prop :=
  l ∈ openWords ∧ ∃ d e q, q ≠ [] ∧ Parted l v r d e [] q

/-- A label set word that nothing has to follow takes an alphabet or nothing, or is an open one. -/
theorem open_or_stays (hl : Keyword.isLabelset l = true) (hd : SpellsLabelset Apart d l []) :
    l ∈ openWords ∨
      ∀ s d' r, peek s ≠ some '(' → gives (labelset l s) = some (d', r) → r = s := by
  rcases Option.isSome_iff_exists.1 hl with ⟨form, hform⟩
  have hnames := names_of_labelForm hform
  -- The label set is read off its word alone, so it needs no brackets.
  have hreads : gives (labelset l []) = some (d, []) :=
    (hd.reads keepsApart_apart).reads [] (ends_of_halts halts_nil) fun _ _ => halts_nil.bracket
  cases form with
  | lettered shape letters =>
      refine .inr fun s d' r hs h => ?_
      rw [gives_labelset_lettered hform, gives_alphabet_none hs] at h
      cases h
      rfl
  | typed shape => exact .inl (List.mem_append_left _ (List.mem_map_of_mem hnames))
  | nullable => exact .inl (List.mem_append_right _ hnames)
  | one =>
      refine .inr fun s d' r _ h => ?_
      rw [gives_labelset_one hform] at h
      cases h
      rfl
  -- A form that needs brackets could not have been read off a word alone.
  | product =>
      rw [gives_labelset_product hform, gives_product, expect_eq_none halts_nil.bracket] at hreads
      cases hreads
  | expressions usual =>
      rw [gives_labelset_expressions hform, gives_expressionset,
        expect_eq_none halts_nil.bracket] at hreads
      cases hreads

/-- A weight set that nothing follows is a terminal one. -/
theorem terminal_of_nil (he : SpellsWeightset Apart e v []) :
    Keyword.weightForm? v = some .terminal := by
  have hreads : gives (weightset v []) = some (e, []) :=
    (he.reads keepsApart_apart).reads [] halts_nil.alphabet
  refine Decidable.byContradiction fun hv => ?_
  rcases weightset_brackets hv hreads with ⟨r, -, hopen, -⟩
  exact halts_nil.bracket (peek_of_expect hopen)

theorem eq_nil_of_terminal (hv : Keyword.weightForm? v = some .terminal)
    (he : SpellsWeightset Apart e v q) : q = [] := by
  have hreads := (he.reads keepsApart_apart).reads [] halts_nil.alphabet
  rw [gives_weightset_terminal hv, List.append_nil] at hreads
  exact congrArg Prod.snd (Option.some.inj hreads)

/-- Behind what a weight set may have, no alphabet begins. -/
theorem Parted.ends (h : Parted l v r d e [] q) : Ends r := by
  rcases h.text with ⟨b, rfl⟩
  exact (h.weights.reads keepsApart_apart).ends (halts_text b)

/-- The label set is read from the text behind it, up to what is for the weight set. -/
theorem gives_labelset_of_parted (h : Parted l v r d e p q) (hp : p ≠ []) :
    ∃ b : Blanks, r = p ++ (q ++ b.text) ∧ gives (labelset l r) = some (d, q ++ b.text) ∧
      peek (q ++ b.text) ≠ some '(' := by
  rcases h.text with ⟨b, rfl⟩
  have hends := (h.weights.reads keepsApart_apart).ends (halts_text b)
  exact ⟨b, rfl, (h.labels.reads keepsApart_apart).reads _ hends fun _ hnil => absurd hnil hp,
    hends.alphabet⟩

/-- No text goes in part to a label set and as a whole to a weight set. -/
theorem Parted.not_parted_nil {d' e' : Descriptor} {q' : Text} (hl : Keyword.isLabelset l = true)
    (h : Parted l v r d e p q) (hp : p ≠ []) : ¬Parted l v r d' e' [] q' := by
  intro h'
  have hne : l ≠ [] := (Descriptor.namesLabelset_of_isLabelset hl).isWord.ne_nil
  have hparen : peek r ≠ some '(' := h'.ends.alphabet
  rcases gives_labelset_of_parted h hp with ⟨b, hr, hlabels, hclose⟩
  have hmoves : q ++ b.text ≠ r := by
    rw [hr]
    exact fun heq => hp (List.self_eq_append_left.1 heq)
  -- The label set takes brackets, for there is no alphabet.
  have hbracket : peek r = some '<' := by
    refine Decidable.byContradiction fun hnot => ?_
    rcases labelset_of_not_open hnot hne hlabels with hstays | ⟨gens, hgens⟩
    · exact hmoves hstays
    · rw [gives_alphabet_none hparen] at hgens
      exact hmoves (congrArg Prod.snd (Option.some.inj hgens)).symm
  have hopen : l ∈ openWords := by
    rcases open_or_stays hl h'.labels with hopen | hstays
    · exact hopen
    · exact absurd (hstays r d _ hparen hlabels) hmoves
  rcases h'.text with ⟨b', hr'⟩
  rw [List.nil_append] at hr'
  have hweights : gives (weightset v r) = some (e', b'.text) := by
    rw [hr']
    exact (h'.weights.reads keepsApart_apart).reads _ (halts_text b').alphabet
  have hterminal : Keyword.weightForm? v ≠ some .terminal := by
    intro hterminal
    have hq' := eq_nil_of_terminal hterminal h'.weights
    rw [hr', hq', List.nil_append] at hbracket
    exact (halts_text b').bracket hbracket
  -- So both take the same brackets, and nothing is left for the weight set of the other reading.
  have hagree : b'.text = q ++ b.text := brackets_agree hopen hterminal hlabels hweights hclose
  have hq : q = [] := by
    rcases (h.weights.reads keepsApart_apart).bracketed with hq | ⟨b₁, u, hq⟩
    · exact hq
    · have hpeek := (halts_text b').bracket
      rw [hagree, hq, List.append_assoc, List.cons_append, peek_blanks_cons b₁ rfl] at hpeek
      exact absurd rfl hpeek
  exact hterminal (terminal_of_nil (hq ▸ h.weights))

/-- Brackets that a weight set has had are not left out for the same text. -/
theorem Parted.ne_nil_of_ne_nil {d' e' : Descriptor} {q' : Text} (h : Parted l v r d e [] q)
    (h' : Parted l v r d' e' [] q') (hq : q ≠ []) : q' ≠ [] := by
  rintro rfl
  exact hq (eq_nil_of_terminal (terminal_of_nil h'.weights) h.weights)

theorem toOption_eq_iff {ε α : Type} {x y : Except ε α} :
    x.toOption = y.toOption ↔ ∀ a, x = .ok a ↔ y = .ok a := by
  have hok : ∀ (z : Except ε α) a, z.toOption = some a ↔ z = .ok a := by
    intro z a
    cases z with
    | error e => simp [Except.toOption]
    | ok b => simp [Except.toOption]
  constructor
  · intro h a
    rw [← hok, ← hok, h]
  · intro h
    refine Option.ext fun a => ?_
    rw [hok, hok, h]

/--
An underscore between the words does what a comma does, but for two kinds of text behind them.
Where the label set takes a part of the text, only the joined words are read; where a bracket for
the weight set could be one for the label set, only the separated words are.
-/
theorem joined_as_separated_iff (hl : Keyword.isLabelset l = true)
    (hv : (Keyword.weightForm? v).isSome = true) (hr : BreaksWord r) :
    (Descriptor.ofContext (joinedText l v r)).toOption =
        (Descriptor.ofContext (separatedText l v r)).toOption ↔
      ¬LabelsBehind l v r ∧ ¬WeightsTaken l v r := by
  rw [toOption_eq_iff]
  constructor
  · intro h
    constructor
    · rintro ⟨d, e, p, q, hp, hparted⟩
      have hread := (ofContext_joinedText hl hv hr).2
        ⟨d, e, p, q, rfl, hparted, fun _ hnil => absurd hnil hp⟩
      rcases (ofContext_separatedText hl hv hr).1 ((h _).1 hread) with ⟨d', e', q', -, hparted'⟩
      exact hparted.not_parted_nil hl hp hparted'
    · rintro ⟨hopen, d, e, q, hq, hparted⟩
      have hread := (ofContext_separatedText hl hv hr).2 ⟨d, e, q, rfl, hparted⟩
      rcases (ofContext_joinedText hl hv hr).1 ((h _).2 hread) with
        ⟨d', e', p', q', -, hparted', hapart⟩
      have hp' : p' = [] :=
        Decidable.byContradiction fun hp' => hparted'.not_parted_nil hl hp' hparted
      cases hp'
      exact hparted.ne_nil_of_ne_nil hparted' hq (hapart hopen rfl)
  · rintro ⟨hlabels, hweights⟩ c
    rw [ofContext_joinedText hl hv hr, ofContext_separatedText hl hv hr]
    constructor
    · rintro ⟨d, e, p, q, rfl, hparted, -⟩
      have hp : p = [] :=
        Decidable.byContradiction fun hp => hlabels ⟨d, e, p, q, hp, hparted⟩
      exact ⟨d, e, q, rfl, hp ▸ hparted⟩
    · rintro ⟨d, e, q, rfl, hparted⟩
      refine ⟨d, e, [], q, rfl, hparted, fun hopen _ => ?_⟩
      exact Decidable.byContradiction fun hq => hweights ⟨hopen, d, e, q, hq, hparted⟩

end

theorem spells_lat_b : SpellsWeightset Apart (.tupleset [.weightset "b".toList]) "lat".toList
    "<b>".toList :=
  .product (by decide) (.tupleset .none .none .none (.weightset (.terminal (by decide))) .nil)

/-- No brackets behind `lal_char` are for it: `lal_char_lat<b>` is read like `lal_char, lat<b>`. -/
theorem joined_as_separated_lal_char_lat :
    (Keyword.isLabelset "lal_char".toList = true ∧
      (Keyword.weightForm? "lat".toList).isSome = true ∧ BreaksWord "<b>".toList) ∧
    Descriptor.ofContext "lal_char_lat<b>".toList =
      .ok (.context (.letterset (.genset "char_letters".toList none))
        (.tupleset [.weightset "b".toList])) ∧
    ¬LabelsBehind "lal_char".toList "lat".toList "<b>".toList ∧
    ¬WeightsTaken "lal_char".toList "lat".toList "<b>".toList := by
  have hwords : Keyword.isLabelset "lal_char".toList = true ∧
      (Keyword.weightForm? "lat".toList).isSome = true ∧ BreaksWord "<b>".toList :=
    ⟨by decide, by decide, rfl⟩
  have hlabels : SpellsLabelset Apart
      (Shape.letters.over (.genset "char_letters".toList none)) "lal_char".toList [] :=
    .lettered (by decide) .absent
  have hparted := Parted.mk hlabels spells_lat_b ⟨.none, rfl⟩
  have hjoined := (ofContext_joinedText hwords.1 hwords.2.1 hwords.2.2).2
    ⟨_, _, _, _, rfl, hparted, fun hopen => absurd hopen (by decide)⟩
  have hseparated := (ofContext_separatedText hwords.1 hwords.2.1 hwords.2.2).2
    ⟨_, _, _, rfl, hparted⟩
  have hsame := hjoined.trans hseparated.symm
  exact ⟨hwords, hjoined,
    (joined_as_separated_iff hwords.1 hwords.2.1 hwords.2.2).1 (congrArg Except.toOption hsame)⟩

/-- Two texts that are read with a comma or with an underscore only. -/
theorem joined_otherwise_than_separated :
    ((∀ d, Descriptor.ofContext (joinedText "lal".toList "lat".toList "<b>".toList) ≠ .ok d) ∧
      Descriptor.ofContext (separatedText "lal".toList "lat".toList "<b>".toList) =
        .ok (.context (.letterset (.genset "char_letters".toList none))
          (.tupleset [.weightset "b".toList]))) ∧
    (Descriptor.ofContext (joinedText "lal_char".toList "b".toList "(ab)".toList) =
        .ok (.context (.letterset (.genset "char_letters".toList (some "ab".toList)))
          (.weightset "b".toList)) ∧
      ∀ d, Descriptor.ofContext (separatedText "lal_char".toList "b".toList "(ab)".toList) ≠
        .ok d) ∧
    ¬∀ l v r, Keyword.isLabelset l = true → (Keyword.weightForm? v).isSome = true →
      BreaksWord r → (Descriptor.ofContext (joinedText l v r)).toOption =
        (Descriptor.ofContext (separatedText l v r)).toOption := by
  have hlal : SpellsLabelset Apart
      (Shape.letters.over (.genset "char_letters".toList none)) "lal".toList [] :=
    .untyped (by decide) .absent
  have hbreaks : BreaksWord "<b>".toList ∧ BreaksWord "(ab)".toList := ⟨rfl, rfl⟩
  have hbrackets := (ofContext_separatedText (by decide) (by decide) hbreaks.1).2
    ⟨_, _, _, rfl, Parted.mk hlal spells_lat_b ⟨.none, rfl⟩⟩
  have hlalChar : SpellsLabelset Apart
      (Shape.letters.over (.genset "char_letters".toList (some "ab".toList))) "lal_char".toList
      "(ab)".toList :=
    .lettered (by decide) (.given .none
      (.plain (by decide) (by decide) (.plain (by decide) (by decide) .nil)))
  have hb : SpellsWeightset Apart (.weightset "b".toList) "b".toList [] := .terminal (by decide)
  have hparted := Parted.mk hlalChar hb ⟨.none, rfl⟩
  have hletters := (ofContext_joinedText (by decide) (by decide) hbreaks.2).2
    ⟨_, _, _, _, rfl, hparted, fun _ hnil => absurd hnil (by decide)⟩
  refine ⟨⟨ofContext_lal_lat, hbrackets⟩, ⟨hletters, fun d hd => ?_⟩, fun hall => ?_⟩
  · rcases (ofContext_separatedText (by decide) (by decide) hbreaks.2).1 hd with
      ⟨_, _, _, -, hparted'⟩
    exact hparted.not_parted_nil (by decide) (by decide) hparted'
  · have hsame := hall "lal".toList "lat".toList "<b>".toList (by decide) (by decide) hbreaks.1
    exact ofContext_lal_lat _ ((toOption_eq_iff.1 hsame _).2 hbrackets)

end Spelling
end OnDemand
