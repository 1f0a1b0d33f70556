import OnDemand.Proofs.Descriptor.SpellingsRead
import OnDemand.Proofs.Descriptor.TypeNames

/-!
# What is read is spelled

The converse of the reading of spellings: whenever a reading step gives a descriptor, the text that
it has taken off spells that descriptor.  The induction is the reader's own.  Together with the
other direction, the grammar of spellings is exactly what the reader accepts.
-/

namespace OnDemand
namespace Spelling

open Reader

/-! ## Characters and words -/

/-- The word `w` has been read, and `s` is left. -/
structure Begins (w s : Text) : Prop where
  word : w = [] ∨ IsWord w
  blank : w = [] → Text.trimStart s = s
  breaks : w ≠ [] → BreaksWord s

theorem trimStart_split (s : Text) : ∃ b : Blanks, s = b.text ++ Text.trimStart s :=
  ⟨⟨s.takeWhile isBlank, List.all_takeWhile⟩, List.takeWhile_append_dropWhile.symm⟩

theorem trimStart_trimStart (s : Text) : Text.trimStart (Text.trimStart s) = Text.trimStart s := by
  induction s with
  | nil => rfl
  | cons c s ih =>
      cases hc : isBlank c with
      | true =>
          have htrim : Text.trimStart (c :: s) = Text.trimStart s := by simp [Text.trimStart, hc]
          rw [htrim, ih]
      | false => rw [Text.trimStart_cons hc, Text.trimStart_cons hc]

section

variable {s r r₁ : Text} {c : Char}

theorem expect_split (h : leaves (expect c s) = some r) : ∃ b : Blanks, s = b.text ++ c :: r := by
  rcases trimStart_split s with ⟨b, hb⟩
  rw [leaves_expect] at h
  split at h
  · cases h
  next d u htrim =>
      split at h
      next hd =>
          cases h
          subst hd
          exact ⟨b, by rw [← htrim]; exact hb⟩
      next => cases h

theorem word_append_rest (s : Text) : (word s).value ++ (word s).rest = Text.trimStart s := by
  have hvalue : (word s).value = wordOf (Text.trimStart s) := rfl
  have hrest : (word s).rest = afterWord (Text.trimStart s) := rfl
  rw [hvalue, hrest, wordOf, afterWord]
  split
  · exact List.takeWhile_append_dropWhile
  · rfl

theorem begins_word (s : Text) : Begins (word s).value (word s).rest := by
  refine ⟨word_eq_nil_or_isWord s, fun hw => ?_, fun hw => ?_⟩
  · have happend := word_append_rest s
    rw [hw, List.nil_append] at happend
    rw [happend, trimStart_trimStart]
  · have hvalue : (word s).value = wordOf (Text.trimStart s) := rfl
    have hrest : (word s).rest = afterWord (Text.trimStart s) := rfl
    rw [hvalue, wordOf] at hw
    rw [hrest, afterWord]
    split at hw
    next hstart =>
        rw [if_pos hstart]
        exact Descriptor.breaksWord_dropWhile _
    next => exact absurd rfl hw

theorem word_split (s : Text) :
    ∃ b : Blanks, s = b.text ++ ((word s).value ++ (word s).rest) := by
  rw [word_append_rest]
  exact trimStart_split s

/-- What stands between brackets, put together again. -/
theorem within_split {p r₀ : Text} (hopen : leaves (expect '<' s) = some r₀)
    (hinner : (word r₀).rest = p ++ r₁) (hclose : leaves (expect '>' r₁) = some r) :
    ∃ b b₁ b₂ : Blanks, s = within b b₁ (word r₀).value p b₂ ++ r := by
  rcases expect_split hopen with ⟨b, hb⟩
  rcases word_split r₀ with ⟨b₁, hb₁⟩
  rcases expect_split hclose with ⟨b₂, hb₂⟩
  refine ⟨b, b₁, b₂, ?_⟩
  rw [hb, within_append, ← hb₂, ← hinner, ← hb₁]

end

/-! ## Alphabets -/

section

variable {s r : Text}

theorem generators_split {close : Char} {gens : Text}
    (h : gives (generators close s) = some (gens, r)) :
    ∃ raw, s = raw ++ close :: r ∧ Escaped close gens raw := by
  -- The induction is that of the reader: an escaped character takes two off the text.
  induction s using generators.induct close generalizing gens with
  | case1 =>
      rw [generators.eq_def] at h
      cases h
  | case2 t =>
      rw [gives_generators_close] at h
      cases h
      exact ⟨[], rfl, .nil⟩
  | case3 hclose =>
      rw [generators.eq_def] at h
      simp [hclose] at h
  | case4 d t hclose ih =>
      rw [gives_generators_escape hclose] at h
      rcases Option.map_eq_some_iff.1 h with ⟨⟨gens', r'⟩, hgens, heq⟩
      cases heq
      rcases ih hgens with ⟨raw, rfl, hraw⟩
      exact ⟨'\\' :: d :: raw, rfl, .escaped hraw⟩
  | case5 c t hclose hescape ih =>
      rw [gives_generators_plain hclose hescape] at h
      rcases Option.map_eq_some_iff.1 h with ⟨⟨gens', r'⟩, hgens, heq⟩
      cases heq
      rcases ih hgens with ⟨raw, rfl, hraw⟩
      exact ⟨c :: raw, rfl, .plain hclose hescape hraw⟩

theorem alphabet_split {gens : Option Text} (h : gives (alphabet? s) = some (gens, r)) :
    ∃ p, s = p ++ r ∧ SpellsAlphabet gens p := by
  by_cases hpeek : peek s = some '('
  · rw [gives_alphabet_some hpeek] at h
    rcases Option.bind_eq_some_iff.1 h with ⟨r₀, hopen, h⟩
    rcases Option.bind_eq_some_iff.1 h with ⟨⟨gens', r₁⟩, hgens, h⟩
    cases h
    rcases expect_split hopen with ⟨b, hb⟩
    rcases generators_split hgens with ⟨raw, hraw, hescaped⟩
    refine ⟨b.text ++ '(' :: (raw ++ [')']), ?_, .given b hescaped⟩
    rw [hb, hraw]
    simp
  · rw [gives_alphabet_none hpeek] at h
    cases h
    exact ⟨[], rfl, .absent⟩

theorem spellsGenset_of_word {w p : Text} {gens : Option Text} (hw : IsWord w)
    (hset : w ≠ "set_alphabet".toList) (hgens : SpellsAlphabet gens p) :
    SpellsGenset (.genset (Keyword.letterType w) gens) w p := by
  by_cases hshort : w ∈ shortLetters.map Prod.fst
  · rcases List.mem_map.1 hshort with ⟨x, hx, rfl⟩
    rw [(shortLetters_spec x hx).2.2]
    exact .short hx hgens
  · have hletters : Keyword.letterType w = w := letterType_of_not_short hshort
    rw [hletters]
    exact .named hw hshort hset hgens

theorem genset_split {w : Text} {g : Descriptor} (hw : w = [] ∨ IsWord w)
    (h : gives (genset w s) = some (g, r)) : ∃ p, s = p ++ r ∧ SpellsGenset g w p := by
  induction w, s using genset.induct generalizing g r with
  | case1 s ih =>
      rcases gives_genset_wrapped_eq_some_iff.1 h with ⟨r₀, r₁, hopen, hinner, hclose⟩
      rcases ih r₀ (length_lt_of_leaves hopen) _ _ (word r₀).le (word_eq_nil_or_isWord r₀) hinner
        with ⟨p, hp, hspells⟩
      rcases within_split hopen hp hclose with ⟨b, b₁, b₂, hs⟩
      exact ⟨_, hs, .wrapped b b₁ b₂ hspells⟩
  | case2 s hset =>
      rw [genset, if_neg hset] at h
      cases h
  | case3 w s hset hne =>
      rw [gives_genset_bare hset hne] at h
      rcases Option.bind_eq_some_iff.1 h with ⟨⟨gens, r₁⟩, hgens, h⟩
      cases h
      rcases alphabet_split hgens with ⟨p, hp, halphabet⟩
      exact ⟨p, hp, spellsGenset_of_word (hw.resolve_left hne) hset halphabet⟩

theorem bracketed_split {letters : Text} {d : Descriptor}
    (h : gives (bracketed letters s) = some (d, r)) :
    ∃ (b : Blanks) (p : Text), s = b.text ++ (p ++ r) ∧ SpellsBracketed letters d p := by
  rw [gives_bracketed] at h
  rcases Option.bind_eq_some_iff.1 h with ⟨r₀, hopen, h⟩
  rcases Option.bind_eq_some_iff.1 h with ⟨⟨gens, r₁⟩, hgens, h⟩
  rcases expect_split hopen with ⟨b, hb⟩
  rcases generators_split hgens with ⟨raw, hraw, hescaped⟩
  simp only [starred] at h
  split at h
  next r₂ =>
      cases h
      refine ⟨b, '[' :: (raw ++ [']', '*']), ?_, .wordset hescaped⟩
      rw [hb, hraw]
      simp
  next =>
      cases h
      refine ⟨b, '[' :: (raw ++ [']']), ?_, .letterset hescaped⟩
      rw [hb, hraw]
      simp

/-! ## Identities and separators -/

theorem mem_identityWords {w : Text} {i : Identities} (hw : w = [] ∨ IsWord w)
    (h : Identities.ofText? w = some i) : (w, i) ∈ identityWords := by
  have htrim : Text.trim w = w := by
    rcases hw with rfl | hw
    · rfl
    · have hstart : Stripping.StartsPlain w := by
        refine Descriptor.startsPlain_of_takeWhile ?_
        rw [Descriptor.takeWhile_of_all hw.2]
        exact hw.ne_nil
      exact Stripping.trim_of_plain hstart (Descriptor.endsPlain_of_isWord hw)
  rw [Identities.ofText?, htrim] at h
  exact Text.mem_of_lookup h

theorem identities_split {usual i : Identities} (h : gives (identities usual s) = some (i, r)) :
    ∃ p, s = p ++ r ∧ SpellsIdentities usual i p := by
  by_cases hpeek : peek s = some '('
  · rw [gives_identities_some usual hpeek] at h
    rcases Option.bind_eq_some_iff.1 h with ⟨r₀, hopen, h⟩
    rcases Option.bind_eq_some_iff.1 h with ⟨i', hname, h⟩
    rcases Option.bind_eq_some_iff.1 h with ⟨r₁, hclose, h⟩
    cases h
    rcases expect_split hopen with ⟨b, hb⟩
    rcases word_split r₀ with ⟨b₁, hb₁⟩
    rcases expect_split hclose with ⟨b₂, hb₂⟩
    have hmem := mem_identityWords (word_eq_nil_or_isWord r₀) hname
    have htext : s =
        b.text ++ '(' :: (b₁.text ++ ((word r₀).value ++ (b₂.text ++ ')' :: r))) := by
      rw [hb, ← hb₂, ← hb₁]
    refine ⟨_, ?_, .given b b₁ b₂ hmem⟩
    rw [htext]
    simp
  · rw [gives_identities_none usual hpeek] at h
    cases h
    exact ⟨[], rfl, .usual⟩

/-- The blanks behind a separator are passed over with the word that follows. -/
theorem separator_split {p : Text} (hscore : p = [] → s.head? ≠ some '_')
    (h : leaves (separator s) = some r) :
    ∃ u, s = u ++ r ∧ ∀ b : Blanks, SpellsSeparator p (u ++ b.text) := by
  rcases trimStart_split s with ⟨b, hb⟩
  rw [leaves_separator] at h
  split at h
  · cases h
  next c u htrim =>
      rw [htrim] at hb
      split at h
      next hc =>
          cases h
          rcases hc with rfl | rfl
          · refine ⟨b.text ++ [','], by simpa using hb, fun b' => ?_⟩
            rw [List.append_assoc]
            exact .comma b b'
          · refine ⟨b.text ++ ['_'], by simpa using hb, fun b' => ?_⟩
            rw [List.append_assoc]
            refine .underscore b b' fun hnil => ?_
            rcases List.append_eq_nil_iff.1 hnil with ⟨hp, hblank⟩
            rw [hblank] at hb
            exact hscore hp (by rw [hb]; rfl)
      next hc =>
          split at h
          next u' =>
              cases h
              refine ⟨b.text ++ ['-', '>'], by simpa using hb, fun b' => ?_⟩
              rw [List.append_assoc]
              exact .arrow b b'
          next => cases h

end

/-! ## The words that the reader knows -/

/-- The word is one of those that open a label set of this form. -/
def Names (w : Text) : LabelForm → Prop
  | .lettered shape letters => (w, shape, letters) ∈ letteredWords
  | .typed shape => (w, shape) ∈ typedWords
  | .nullable => w ∈ nullableWords
  | .one => w ∈ oneWords
  | .product => w ∈ productWords
  | .expressions usual => (w, usual) ∈ expressionWords

instance (w : Text) : (form : LabelForm) → Decidable (Names w form)
  | .lettered _ _ => inferInstanceAs (Decidable (_ ∈ _))
  | .typed _ => inferInstanceAs (Decidable (_ ∈ _))
  | .nullable => inferInstanceAs (Decidable (_ ∈ _))
  | .one => inferInstanceAs (Decidable (_ ∈ _))
  | .product => inferInstanceAs (Decidable (_ ∈ _))
  | .expressions _ => inferInstanceAs (Decidable (_ ∈ _))

theorem names_of_labelForm {w : Text} {form : LabelForm} (h : Keyword.labelForm? w = some form) :
    Names w form := by
  have hall : ∀ x ∈ Keyword.labelsets, Names x.1 x.2 := by decide
  exact hall _ (mem_labelsets h)

/-- The word is one of those that open a weight set of this form. -/
def NamesWeights (w : Text) : WeightForm → Prop
  | .terminal => w ∈ terminalWords
  | .expressions usual => (w, usual) ∈ expressionWords
  | .polynomials => w = "polynomialset".toList
  | .product => w ∈ productWords

instance (w : Text) : (form : WeightForm) → Decidable (NamesWeights w form)
  | .terminal => inferInstanceAs (Decidable (_ ∈ _))
  | .expressions _ => inferInstanceAs (Decidable (_ ∈ _))
  | .polynomials => inferInstanceAs (Decidable (_ = _))
  | .product => inferInstanceAs (Decidable (_ ∈ _))

theorem names_of_weightForm {w : Text} {form : WeightForm}
    (h : Keyword.weightForm? w = some form) : NamesWeights w form := by
  have hterminals : ∀ w ∈ Keyword.terminals, w ∈ terminalWords := by decide
  have hcomposites : ∀ x ∈ Keyword.composites, NamesWeights x.1 x.2 := by decide
  unfold Keyword.weightForm? at h
  split at h
  next hterminal =>
      cases h
      exact hterminals w (List.contains_iff_mem.1 hterminal)
  next => exact hcomposites (w, form) (Text.mem_of_lookup h)

/-! ## What each step takes off -/

/-- A label set is spelled by what is taken off for it. -/
def SplitsLabelset (w s : Text) : Prop :=
  Begins w s → ∀ d r, gives (labelset w s) = some (d, r) →
    ∃ p, s = p ++ r ∧ SpellsLabelset Apart d w p ∧
      (w ∈ openWords → p = [] → peek r ≠ some '<')

/-- What is taken off behind the word of a label set with the empty word added. -/
def SplitsNullable (s : Text) : Prop :=
  ∀ d r, gives (nullableBody s) = some (d, r) →
    ∃ p, s = p ++ r ∧ (∀ w ∈ nullableWords, SpellsLabelset Apart (.nullableset d) w p) ∧
      (p = [] → peek r ≠ some '<')

/-- A weight set is spelled by what is taken off for it. -/
def SplitsWeightset (w s : Text) : Prop :=
  ∀ d r, gives (weightset w s) = some (d, r) → ∃ p, s = p ++ r ∧ SpellsWeightset Apart d w p

/-- Polynomials are spelled by what is taken off for them. -/
def SplitsPolynomials (s : Text) : Prop :=
  ∀ d r, gives (polynomialset s) = some (d, r) →
    ∃ p, s = p ++ r ∧ SpellsWeightset Apart d "polynomialset".toList p

/-- A member of a product is spelled by what is taken off for it. -/
def SplitsMember (s : Text) : Prop :=
  ∀ d r, gives (member s) = some (d, r) →
    ∃ p, (word s).rest = p ++ r ∧ SpellsMember Apart d (word s).value p

/-- Further members of a product are spelled by what is taken off for them. -/
def SplitsMembers (s : Text) : Prop :=
  ∀ ds r, gives (members s) = some (ds, r) → ∃ p, s = p ++ r ∧ SpellsMembers Apart ds p

/-- A product is spelled by what is taken off for it. -/
def SplitsProduct (s : Text) : Prop :=
  ∀ d r, gives (product s) = some (d, r) → ∃ p, s = p ++ r ∧ SpellsProduct Apart d p

/-- An expression set is spelled by what is taken off for it. -/
def SplitsExpressions (usual : Identities) (s : Text) : Prop :=
  ∀ d r, gives (expressionset usual s) = some (d, r) →
    ∃ p, s = p ++ r ∧ SpellsExpressions Apart usual d p

/-- A context is spelled by what is taken off for it. -/
def SplitsContext (w s : Text) : Prop :=
  Begins w s → ∀ d r, gives (context w s) = some (d, r) →
    ∃ p, s = p ++ r ∧ SpellsContext Apart d w p

theorem keepsApart_apart : KeepsApart Apart := fun _ _ _ h => h

section

variable {w s : Text}

theorem splits_lettered {shape : Shape} {letters : Text}
    (hform : Keyword.labelForm? w = some (.lettered shape letters)) : SplitsLabelset w s := by
  have hw : (w, shape, letters) ∈ letteredWords := names_of_labelForm hform
  intro _ d r h
  rw [gives_labelset_lettered hform] at h
  rcases Option.bind_eq_some_iff.1 h with ⟨⟨gens, r₁⟩, hgens, h⟩
  cases h
  rcases alphabet_split hgens with ⟨p, hp, halphabet⟩
  refine ⟨p, hp, .lettered hw halphabet, fun hopen => ?_⟩
  have hnot : ∀ x ∈ letteredWords, x.1 ∉ openWords := by decide
  exact absurd hopen (hnot _ hw)

theorem splits_typed {shape : Shape} (hform : Keyword.labelForm? w = some (.typed shape)) :
    SplitsLabelset w s := by
  have hw : (w, shape) ∈ typedWords := names_of_labelForm hform
  intro _ d r h
  rw [gives_labelset_typed hform] at h
  rcases Option.bind_eq_some_iff.1 h with ⟨⟨g, r₁⟩, hg, h⟩
  cases h
  by_cases htyped : peek s = some '<'
  · rcases (gives_typedGenset_typed_eq_some_iff htyped).1 hg with ⟨r₀, r₂, hopen, hinner, hclose⟩
    rcases genset_split (word_eq_nil_or_isWord r₀) hinner with ⟨p, hp, hspells⟩
    rcases within_split hopen hp hclose with ⟨b, b₁, b₂, hs⟩
    exact ⟨_, hs, .typed b b₁ b₂ hw hspells, fun _ hnil => by simp [within] at hnil⟩
  · rw [gives_typedGenset_untyped htyped] at hg
    rcases Option.bind_eq_some_iff.1 hg with ⟨⟨gens, r₂⟩, hgens, hg⟩
    cases hg
    rcases alphabet_split hgens with ⟨p, hp, halphabet⟩
    refine ⟨p, hp, .untyped hw halphabet, fun _ hnil => ?_⟩
    rwa [hp, hnil, List.nil_append] at htyped

theorem splits_nullable (hform : Keyword.labelForm? w = some .nullable) (ih : SplitsNullable s) :
    SplitsLabelset w s := by
  have hw : w ∈ nullableWords := names_of_labelForm hform
  intro _ d r h
  rw [gives_labelset_nullable hform] at h
  rcases Option.bind_eq_some_iff.1 h with ⟨⟨l, r₁⟩, hl, h⟩
  cases h
  rcases ih _ _ hl with ⟨p, hp, hspells, hbracket⟩
  exact ⟨p, hp, hspells w hw, fun _ => hbracket⟩

theorem splits_one (hform : Keyword.labelForm? w = some .one) : SplitsLabelset w s := by
  have hw : w ∈ oneWords := names_of_labelForm hform
  intro _ d r h
  rw [gives_labelset_one hform] at h
  cases h
  refine ⟨[], rfl, .one hw, fun hopen => ?_⟩
  have hnot : ∀ w ∈ oneWords, w ∉ openWords := by decide
  exact absurd hopen (hnot _ hw)

theorem splits_product (hform : Keyword.labelForm? w = some .product) (ih : SplitsProduct s) :
    SplitsLabelset w s := by
  have hw : w ∈ productWords := names_of_labelForm hform
  intro _ d r h
  rw [gives_labelset_product hform] at h
  rcases ih _ _ h with ⟨p, hp, hspells⟩
  refine ⟨p, hp, .product hw hspells, fun hopen => ?_⟩
  have hnot : ∀ w ∈ productWords, w ∉ openWords := by decide
  exact absurd hopen (hnot _ hw)

theorem splits_expressions {usual : Identities}
    (hform : Keyword.labelForm? w = some (.expressions usual)) (ih : SplitsExpressions usual s) :
    SplitsLabelset w s := by
  have hw : (w, usual) ∈ expressionWords := names_of_labelForm hform
  intro _ d r h
  rw [gives_labelset_expressions hform] at h
  rcases ih _ _ h with ⟨p, hp, hspells⟩
  refine ⟨p, hp, .expressions hw hspells, fun hopen => ?_⟩
  have hnot : ∀ x ∈ expressionWords, x.1 ∉ openWords := by decide
  exact absurd hopen (hnot _ hw)

/-- A text that begins with a bracket has no blanks before it. -/
theorem blanks_eq_nil {b : Blanks} {c : Char} {t : Text} (hc : isBlank c = false)
    (h : Text.trimStart (b.text ++ c :: t) = b.text ++ c :: t) : b.text = [] := by
  rw [trimStart_blanks, Text.trimStart_cons hc] at h
  exact List.self_eq_append_left.1 h

theorem mem_usualLetters {v : Text} (h : Keyword.isLetterType v = true) :
    (v, Keyword.letterType v) ∈ usualLetters := by
  simp only [Keyword.isLetterType, Bool.or_eq_true, beq_iff_eq] at h
  rcases h with ((rfl | rfl) | rfl) | rfl <;> decide

theorem splits_unnamed : SplitsLabelset [] s := by
  intro hbegins d r h
  have hblank := hbegins.blank rfl
  have hclosed : ([] : Text) ∉ openWords := by decide
  rw [gives_labelset_unnamed] at h
  by_cases hbracket : peek s = some '['
  · rw [gives_unnamedLabelset_bracket hbracket] at h
    rcases bracketed_split h with ⟨b, p, hp, hspells⟩
    -- Without a word, blanks before the bracket would belong to what stands before.
    have hnil : b.text = [] := by
      have hhead := hspells.head
      cases p with
      | nil => cases hhead
      | cons c p =>
          cases hhead
          rw [hp] at hblank
          exact blanks_eq_nil rfl hblank
    rw [hnil, List.nil_append] at hp
    exact ⟨p, hp, .bracketed hspells, fun hopen => absurd hopen hclosed⟩
  · by_cases htyped : peek s = some '<'
    · rw [gives_unnamedLabelset_typed htyped] at h
      rcases Option.bind_eq_some_iff.1 h with ⟨r₀, hopen, h⟩
      split at h
      next hletters =>
          rcases Option.bind_eq_some_iff.1 h with ⟨r₂, hclose, h⟩
          rcases expect_split hopen with ⟨b, hb⟩
          rcases word_split r₀ with ⟨b₁, hb₁⟩
          rcases expect_split hclose with ⟨b₂, hb₂⟩
          rcases bracketed_split h with ⟨b₃, p, hp, hspells⟩
          have hnil : b.text = [] := by
            rw [hb] at hblank
            exact blanks_eq_nil rfl hblank
          have htext : s = '<' :: (b₁.text ++ ((word r₀).value ++
              (b₂.text ++ '>' :: (b₃.text ++ (p ++ r))))) := by
            rw [hb, hnil, List.nil_append, ← hp, ← hb₂, ← hb₁]
          refine ⟨_, ?_, .prefixed b₁ b₂ b₃ (mem_usualLetters hletters) hspells,
            fun hopen => absurd hopen hclosed⟩
          rw [htext]
          simp
      next => cases h
    · rw [gives_unnamedLabelset_none hbracket htyped] at h
      cases h

theorem splits_enclosed (henclosed : peek s = some '<')
    (ih : ∀ r : Text, r.length < s.length → SplitsLabelset (word r).value (word r).rest) :
    SplitsNullable s := by
  intro d r h
  rcases (gives_nullableBody_inner_eq_some_iff henclosed).1 h with ⟨r₀, r₁, hopen, hinner, hclose⟩
  unfold nullableInner at hinner
  split at hinner
  next hletters =>
      rcases Option.bind_eq_some_iff.1 hinner with ⟨⟨g, r₂⟩, hg, hinner⟩
      cases hinner
      rcases genset_split (word_eq_nil_or_isWord r₀) hg with ⟨p, hp, hspells⟩
      rcases within_split hopen hp hclose with ⟨b, b₁, b₂, hs⟩
      have husual : (word r₀).value ∈ usualLetters.map Prod.fst ∨
          (word r₀).value = "set_alphabet".toList :=
        hletters.imp_left fun h => List.mem_map_of_mem (mem_usualLetters h)
      exact ⟨_, hs, fun w hw => .nullableGenset b b₁ b₂ hw husual hspells,
        fun hnil => by simp [within] at hnil⟩
  next =>
      rcases ih r₀ (length_lt_of_leaves hopen) (begins_word r₀) _ _ hinner with
        ⟨p, hp, hspells, -⟩
      rcases within_split hopen hp hclose with ⟨b, b₁, b₂, hs⟩
      exact ⟨_, hs, fun w hw => .nullable b b₁ b₂ hw hspells,
        fun hnil => by simp [within] at hnil⟩

theorem splits_bare (hbare : peek s ≠ some '<') : SplitsNullable s := by
  intro d r h
  rw [gives_nullableBody_bare hbare] at h
  rcases Option.bind_eq_some_iff.1 h with ⟨⟨gens, r₁⟩, hgens, h⟩
  cases h
  rcases alphabet_split hgens with ⟨p, hp, halphabet⟩
  refine ⟨p, hp, fun w hw => .nullableBare hw halphabet, fun hnil => ?_⟩
  rwa [hp, hnil, List.nil_append] at hbare

/-! ## Weight sets, products and contexts -/

theorem splits_member_weightset (ih : SplitsWeightset (word s).value (word s).rest)
    (hw : Keyword.isTerminal (word s).value = true ∨ (word s).value = "polynomialset".toList) :
    SplitsMember s := by
  intro d r h
  rw [gives_member, if_pos hw] at h
  rcases ih _ _ h with ⟨p, hp, hspells⟩
  exact ⟨p, hp, .weightset hspells⟩

theorem splits_member_labelset (ih : SplitsLabelset (word s).value (word s).rest)
    (hnot : ¬(Keyword.isTerminal (word s).value = true ∨
      (word s).value = "polynomialset".toList))
    (hw : Keyword.isLabelset (word s).value = true ∨ (word s).value = []) : SplitsMember s := by
  intro d r h
  rw [gives_member, if_neg hnot, if_pos hw] at h
  rcases ih (begins_word s) _ _ h with ⟨p, hp, hspells, -⟩
  exact ⟨p, hp, .labelset hspells⟩

theorem splits_members (hmore : peek s = some ',')
    (ihd : ∀ r : Text, r.length < s.length → SplitsMember r)
    (ihds : ∀ r : Text, r.length < s.length → SplitsMembers r) : SplitsMembers s := by
  intro ds r h
  rcases (gives_members_more_eq_some_iff hmore).1 h with ⟨e, es, ⟨r₀, r₁, hcomma, he, hes⟩, rfl⟩
  have hlt := length_lt_of_leaves hcomma
  rcases expect_split hcomma with ⟨b, hb⟩
  rcases word_split r₀ with ⟨b₁, hb₁⟩
  rcases ihd r₀ hlt _ _ he with ⟨p, hp, hfirst⟩
  rcases ihds r₁ (Nat.lt_of_le_of_lt (length_le_of_gives he) hlt) _ _ hes with ⟨q, hq, hothers⟩
  have htext : s = b.text ++ ',' :: (b₁.text ++ ((word r₀).value ++ (p ++ (q ++ r)))) := by
    rw [hb, ← hq, ← hp, ← hb₁]
  refine ⟨_, ?_, .cons b b₁ hfirst hothers⟩
  rw [htext]
  simp

theorem splits_tupleset (ihd : ∀ r : Text, r.length < s.length → SplitsMember r)
    (ihds : ∀ r : Text, r.length < s.length → SplitsMembers r) : SplitsProduct s := by
  intro d r h
  rcases gives_product_eq_some_iff.1 h with ⟨e, es, r₂, ⟨r₀, r₁, hopen, he, hes⟩, hclose, rfl⟩
  have hlt := length_lt_of_leaves hopen
  rcases ihd r₀ hlt _ _ he with ⟨p, hp, hfirst⟩
  rcases ihds r₁ (Nat.lt_of_le_of_lt (length_le_of_gives he) hlt) _ _ hes with ⟨q, hq, hothers⟩
  have hinner : (word r₀).rest = (p ++ q) ++ r₂ := by rw [hp, hq, List.append_assoc]
  rcases within_split hopen hinner hclose with ⟨b, b₁, b₂, hs⟩
  exact ⟨_, hs, .tupleset b b₁ b₂ hfirst hothers⟩

theorem splits_expressionset {usual : Identities}
    (ih : ∀ r : Text, r.length < s.length → SplitsContext (word r).value (word r).rest) :
    SplitsExpressions usual s := by
  intro d r h
  rcases gives_expressionset_eq_some_iff.1 h with ⟨c, r₂, i, ⟨r₀, r₁, hopen, hc, hclose⟩, hi, rfl⟩
  rcases ih r₀ (length_lt_of_leaves hopen) (begins_word r₀) _ _ hc with ⟨p, hp, hspells⟩
  rcases within_split hopen hp hclose with ⟨b, b₁, b₂, hs⟩
  rcases identities_split hi with ⟨q, hq, hidentities⟩
  refine ⟨_, ?_, .expressionset b b₁ b₂ hspells hidentities⟩
  rw [hs, hq, List.append_assoc]

theorem splits_polynomialset
    (ih : ∀ r : Text, r.length < s.length → SplitsContext (word r).value (word r).rest) :
    SplitsPolynomials s := by
  intro d r h
  rcases gives_polynomialset_eq_some_iff.1 h with ⟨c, ⟨r₀, r₁, hopen, hc, hclose⟩, rfl⟩
  rcases ih r₀ (length_lt_of_leaves hopen) (begins_word r₀) _ _ hc with ⟨p, hp, hspells⟩
  rcases within_split hopen hp hclose with ⟨b, b₁, b₂, hs⟩
  exact ⟨_, hs, .polynomials b b₁ b₂ hspells⟩

theorem splits_wrapped
    (ih : ∀ r : Text, r.length < s.length → SplitsContext (word r).value (word r).rest) :
    SplitsContext "context".toList s := by
  intro _ d r h
  rcases gives_context_wrapped_eq_some_iff.1 h with ⟨r₀, r₁, hopen, hc, hclose⟩
  rcases ih r₀ (length_lt_of_leaves hopen) (begins_word r₀) _ _ hc with ⟨p, hp, hspells⟩
  rcases within_split hopen hp hclose with ⟨b, b₁, b₂, hs⟩
  exact ⟨_, hs, .wrapped b b₁ b₂ hspells⟩

theorem splits_joined {l v : Text} (hw : w ≠ "context".toList) (hjoined : joined? w = some (l, v))
    (ihl : SplitsLabelset l s)
    (ihv : ∀ r : Text, r.length ≤ s.length → SplitsWeightset v r) : SplitsContext w s := by
  intro hbegins d r h
  rcases (gives_context_joined_eq_some_iff hw hjoined).1 h with
    ⟨labels, r₁, weights, hlabels, hweights, rfl⟩
  have hsplit : Keyword.splitJoined? w = some (l, v) := by
    unfold joined? at hjoined
    split at hjoined
    · cases hjoined
    · exact hjoined
  rcases Descriptor.splitJoined_eq hsplit with ⟨hmem, rfl⟩
  have hword : IsWord l := by
    have hall : ∀ l ∈ Keyword.labelsets.map Prod.fst, IsWord l := by decide
    exact hall l hmem
  have hbegins' : Begins l s :=
    ⟨.inr hword, fun hl => absurd hl hword.ne_nil, fun _ => hbegins.breaks (by simp)⟩
  rcases ihl hbegins' _ _ hlabels with ⟨p, hp, hspells, hbracket⟩
  rcases ihv r₁ (length_le_of_gives hlabels) _ _ hweights with ⟨q, hq, hspellsWeights⟩
  have hapart : Apart l p q := by
    -- Brackets behind an open word would have been read for the label set.
    intro hopen hnil
    rcases (hspellsWeights.reads keepsApart_apart).bracketed with hq' | ⟨b, u, hq'⟩
    · exact hq'
    · have hpeek := hbracket hopen hnil
      rw [hq, hq', List.append_assoc, List.cons_append, peek_blanks_cons b rfl] at hpeek
      exact absurd rfl hpeek
  refine ⟨p ++ q, ?_, .joined hword.ne_nil hspells hspellsWeights hapart⟩
  rw [hp, hq, List.append_assoc]

theorem splits_separated (hw : w ≠ "context".toList) (hjoined : joined? w = none)
    (ihl : SplitsLabelset w s)
    (ihv : ∀ r : Text, r.length < s.length → SplitsWeightset (word r).value (word r).rest) :
    SplitsContext w s := by
  intro hbegins d r h
  rcases (gives_context_separated_eq_some_iff hw hjoined).1 h with
    ⟨labels, r₁, r₂, weights, hlabels, hseparator, hweights, rfl⟩
  rcases ihl hbegins _ _ hlabels with ⟨p, hp, hspells, -⟩
  have hscore : p = [] → r₁.head? ≠ some '_' := by
    -- Right behind a word an underscore would belong to it, and brackets are not empty.
    rintro rfl hhead
    rcases (hspells.reads keepsApart_apart).opens.opener with hword | ⟨-, hbracket⟩
    · have hbreaks := hbegins.breaks hword.ne_nil
      rw [hp, List.nil_append, BreaksWord, hhead] at hbreaks
      exact absurd hbreaks (by decide)
    · simp at hbracket
  rcases separator_split hscore hseparator with ⟨u, hu, hspellsSeparator⟩
  rcases word_split r₂ with ⟨b, hb⟩
  have hlt : r₂.length < s.length :=
    Nat.lt_of_lt_of_le (length_lt_of_leaves hseparator) (length_le_of_gives hlabels)
  rcases ihv r₂ hlt _ _ hweights with ⟨q, hq, hspellsWeights⟩
  have htext : s = p ++ (u ++ (b.text ++ ((word r₂).value ++ (q ++ r)))) := by
    rw [hp, ← hq, ← hb, ← hu]
  refine ⟨_, ?_, .separated hspells (hspellsSeparator b) hspellsWeights⟩
  rw [htext]
  simp

end

/-- What is read is spelled by what is taken off for it. -/
def SplitsContexts : ContextProperty where
  labelset := SplitsLabelset
  expressionset := SplitsExpressions
  context := SplitsContext
  weightset := SplitsWeightset
  product := SplitsProduct
  members := SplitsMembers
  member := SplitsMember
  polynomialset := SplitsPolynomials
  nullableBody := SplitsNullable

theorem splitsContexts : SplitsContexts.Holds := by
  apply ContextProperty.holds <;> dsimp only [SplitsContexts]
  -- Label sets.
  case lettered => exact fun w s shape letters hform => splits_lettered hform
  case typed => exact fun w s shape hform => splits_typed hform
  case nullable => exact fun w s hform ih => splits_nullable hform ih
  case one => exact fun w s hform => splits_one hform
  case labelProduct => exact fun w s hform ih => splits_product hform ih
  case labelExpressions => exact fun w s usual hform ih => splits_expressions hform ih
  case unnamedLabelset => exact fun s => splits_unnamed
  case unknownLabelset =>
    intro w s hform hw _ d r h
    rw [gives_labelset_unknown hform hw] at h
    cases h
  case enclosed => exact fun s henclosed ih => splits_enclosed henclosed ih
  case bare => exact fun s hbare => splits_bare hbare
  -- Expression sets and contexts.
  case expressionset => exact fun usual s ih => splits_expressionset ih
  case wrapped => exact fun s ih => splits_wrapped ih
  case joined => exact fun w s l v hw hjoined ihl ihv => splits_joined hw hjoined ihl ihv
  case separated => exact fun w s hw hjoined ihl ihv => splits_separated hw hjoined ihl ihv
  -- Weight sets.
  case terminal =>
    intro w s hform d r h
    rw [gives_weightset_terminal hform] at h
    cases h
    exact ⟨[], rfl, .terminal (names_of_weightForm hform)⟩
  case weightExpressions =>
    intro w s usual hform ih d r h
    rw [gives_weightset_expressions hform] at h
    rcases ih _ _ h with ⟨p, hp, hspells⟩
    exact ⟨p, hp, .expressions (names_of_weightForm hform) hspells⟩
  case weightPolynomials =>
    intro w s hform ih d r h
    rw [gives_weightset_polynomials hform] at h
    rcases ih _ _ h with ⟨p, hp, hspells⟩
    cases names_of_weightForm hform
    exact ⟨p, hp, hspells⟩
  case weightProduct =>
    intro w s hform ih d r h
    rw [gives_weightset_product hform] at h
    rcases ih _ _ h with ⟨p, hp, hspells⟩
    exact ⟨p, hp, .product (names_of_weightForm hform) hspells⟩
  case unknownWeightset =>
    intro w s hform d r h
    rw [gives_weightset_unknown hform] at h
    cases h
  case polynomialset => exact fun s ih => splits_polynomialset ih
  -- Products and their members.
  case product => exact fun s ihd ihds => splits_tupleset ihd ihds
  case moreMembers => exact fun s hmore ihd ihds => splits_members hmore ihd ihds
  case noMembers =>
    intro s hmore ds r h
    rw [gives_members_none hmore] at h
    cases h
    exact ⟨[], rfl, .nil⟩
  case weightMember => exact fun s hopens ih => splits_member_weightset ih hopens
  case labelMember => exact fun s hopens hlabels ih => splits_member_labelset ih hopens hlabels
  case unknownMember =>
    intro s hopens hlabels d r h
    rw [gives_member, if_neg hopens, if_neg hlabels] at h
    cases h

end Spelling
end OnDemand
