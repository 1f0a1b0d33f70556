import OnDemand.Proofs.Descriptor.Continuation
import OnDemand.Proofs.Descriptor.Decoration
import OnDemand.Proofs.Descriptor.Spellings

/-!
# Spellings are read

Every spelling of a context is read as the context that it spells, whatever follows it that cannot
belong to it.  The induction is on the spelling.  Only the words that the grammar leaves open have
to be dealt with by a condition: a label set word and a weight set word that are joined must be kept
apart by what follows them.
-/

namespace OnDemand
namespace Spelling

open Reader

/-! ## Blanks -/

section

variable (b : Blanks) {c : Char} {t : Text}

theorem trimStart_blanks (t : Text) : Text.trimStart (b.text ++ t) = Text.trimStart t :=
  Text.trimStart_append_of_blank (List.all_eq_true.1 b.blank) t

theorem peek_blanks (t : Text) : peek (b.text ++ t) = peek t := by
  rw [peek, trimStart_blanks, peek]

theorem peek_blanks_cons (hc : isBlank c = false) (t : Text) :
    peek (b.text ++ c :: t) = some c := by
  rw [peek_blanks, peek_cons hc]

theorem expect_blanks (hc : isBlank c = false) (t : Text) :
    leaves (expect c (b.text ++ c :: t)) = some t := by
  rw [leaves_expect, trimStart_blanks, Text.trimStart_cons hc]
  simp

theorem word_blanks (t : Text) :
    (word (b.text ++ t)).value = (word t).value ∧ (word (b.text ++ t)).rest = (word t).rest := by
  have hvalue : ∀ s, (word s).value = wordOf (Text.trimStart s) := fun _ => rfl
  have hrest : ∀ s, (word s).rest = afterWord (Text.trimStart s) := fun _ => rfl
  rw [hvalue, hrest, hvalue, hrest, trimStart_blanks]
  exact ⟨rfl, rfl⟩

theorem head?_blanks_ne {d : Char} (hd : isBlank d = false) (hne : c ≠ d) (t : Text) :
    (b.text ++ c :: t).head? ≠ some d := by
  rcases b with ⟨text, hblank⟩
  cases text with
  | nil => simpa using hne
  | cons e text =>
      have he : isBlank e = true := List.all_eq_true.1 hblank e List.mem_cons_self
      rintro h
      cases h
      rw [hd] at he
      cases he

theorem breaksWord_blanks (hc : inWord c = false) (t : Text) :
    BreaksWord (b.text ++ c :: t) := by
  rcases b with ⟨text, hblank⟩
  cases text with
  | nil => simpa [BreaksWord] using hc
  | cons e text =>
      have he : isBlank e = true := List.all_eq_true.1 hblank e List.mem_cons_self
      cases hword : inWord e with
      | false => simpa [BreaksWord] using hword
      | true =>
          rw [isBlank_of_inWord hword] at he
          cases he

end

theorem breaksWord_append {p t : Text} (hp : BreaksWord p) (ht : BreaksWord t) :
    BreaksWord (p ++ t) := by
  cases p with
  | nil => exact ht
  | cons c p => exact hp

/-- What may follow a set so that no star and no parenthesis is taken for a part of it. -/
structure Ends (t : Text) : Prop where
  star : t.head? ≠ some '*'
  alphabet : peek t ≠ some '('

theorem ends_blanks (b : Blanks) {c : Char} (hblank : isBlank c = false) (hstar : c ≠ '*')
    (hopen : c ≠ '(') (t : Text) : Ends (b.text ++ c :: t) where
  star := head?_blanks_ne b (by decide) hstar t
  alphabet := by
    rw [peek_blanks_cons b hblank]
    simpa using hopen

theorem ends_of_halts {t : Text} (h : Halts t) : Ends t := ⟨h.star, h.alphabet⟩

/-- A comma or a closing bracket ends whatever stands before it. -/
theorem halts_blanks (b : Blanks) {c : Char} (hc : c = ',' ∨ c = '>') (t : Text) :
    Halts (b.text ++ c :: t) := by
  have hblank : isBlank c = false := by
    rcases hc with rfl | rfl <;> rfl
  have hword : inWord c = false := by
    rcases hc with rfl | rfl <;> rfl
  have hne : c ≠ '*' ∧ c ≠ '(' ∧ c ≠ '<' := by
    rcases hc with rfl | rfl <;> decide
  have hends := ends_blanks b hblank hne.1 hne.2.1 t
  refine ⟨breaksWord_blanks b hword t, hends.star, hends.alphabet, ?_⟩
  rw [peek_blanks_cons b hblank]
  simpa using hne.2.2

theorem halts_nil : Halts [] := by
  refine ⟨rfl, by decide, ?_, ?_⟩
  · simp [peek, Text.trimStart]
  · simp [peek, Text.trimStart]

/-! ## Words and what follows them -/

/-- The text begins with the word `w`, or with a bracket where there is none, and `p` follows. -/
structure Opens (w p : Text) : Prop where
  opener : IsWord w ∨ w = [] ∧ (p.head? = some '[' ∨ p.head? = some '<')
  breaks : BreaksWord p

theorem Opens.word_blanks {w p : Text} (h : Opens w p) (b : Blanks) {t : Text}
    (ht : BreaksWord (p ++ t)) :
    (word (b.text ++ (w ++ (p ++ t)))).value = w ∧
      (word (b.text ++ (w ++ (p ++ t)))).rest = p ++ t := by
  rw [(Spelling.word_blanks b _).1, (Spelling.word_blanks b _).2]
  rcases h.opener with hw | ⟨rfl, hp⟩
  · exact hw.word_append ht
  · cases p with
    | nil => simp at hp
    | cons c p =>
        have hc : c = '[' ∨ c = '<' := by simpa using hp
        rcases hc with rfl | rfl
        · exact ⟨rfl, rfl⟩
        · exact ⟨rfl, rfl⟩

theorem opens_within {w : Text} (hw : IsWord w) (b b₁ : Blanks) (v p : Text) (b₂ : Blanks) :
    Opens w (within b b₁ v p b₂) :=
  ⟨.inl hw, breaksWord_blanks b rfl _⟩

theorem within_append (b b₁ : Blanks) (w p : Text) (b₂ : Blanks) (t : Text) :
    within b b₁ w p b₂ ++ t =
      b.text ++ '<' :: (b₁.text ++ (w ++ (p ++ (b₂.text ++ '>' :: t)))) := by
  simp [within]

theorem peek_within (b b₁ : Blanks) (w p : Text) (b₂ : Blanks) (t : Text) :
    peek (within b b₁ w p b₂ ++ t) = some '<' := by
  rw [within_append]
  exact peek_blanks_cons b rfl _

/-- The text begins with a bracket, blanks aside. -/
def Bracketed (p : Text) : Prop := ∃ (b : Blanks) (u : Text), p = b.text ++ '<' :: u

theorem bracketed_within (b b₁ : Blanks) (w p : Text) (b₂ : Blanks) :
    Bracketed (within b b₁ w p b₂) := ⟨b, _, rfl⟩

theorem Bracketed.append {p : Text} (h : Bracketed p) (t : Text) : Bracketed (p ++ t) := by
  rcases h with ⟨b, u, rfl⟩
  exact ⟨b, u ++ t, by simp⟩

theorem Bracketed.breaks {p : Text} (h : Bracketed p) : BreaksWord p := by
  rcases h with ⟨b, u, rfl⟩
  exact breaksWord_blanks b rfl u

theorem Bracketed.ends {p : Text} (h : Bracketed p) : Ends p := by
  rcases h with ⟨b, u, rfl⟩
  exact ends_blanks b rfl (by decide) (by decide) u

/-- What is spelled in brackets is read there when its steps read it before a closing bracket. -/
theorem gives_within {α β : Type} {F : Text → Text → Option (α × Text)}
    {G : α → Text → Option (β × Text)} {w p t : Text} {a : α} (b b₁ b₂ : Blanks)
    (hopens : Opens w p)
    (hF : F w (p ++ (b₂.text ++ '>' :: t)) = some (a, b₂.text ++ '>' :: t)) :
    ((leaves (expect '<' (within b b₁ w p b₂ ++ t))).bind fun r =>
      (F (word r).value (word r).rest).bind fun x =>
        (leaves (expect '>' x.2)).bind fun r₃ => G x.1 r₃) = G a t := by
  have hbreaks : BreaksWord (p ++ (b₂.text ++ '>' :: t)) :=
    breaksWord_append hopens.breaks (breaksWord_blanks b₂ rfl t)
  rcases hopens.word_blanks b₁ hbreaks with ⟨hvalue, hrest⟩
  rw [within_append, expect_blanks b rfl, Option.bind_some, hvalue, hrest, hF, Option.bind_some,
    expect_blanks b₂ rfl, Option.bind_some]

/-! ## Alphabets -/

theorem Escaped.gives {close : Char} (hclose : close ≠ '\\') {gens raw : Text}
    (h : Escaped close gens raw) (t : Text) :
    gives (generators close (raw ++ close :: t)) = some (gens, t) := by
  induction h with
  | nil => exact gives_generators_close close t
  | plain hne hescape _ ih =>
      rw [List.cons_append, gives_generators_plain hne hescape, ih]
      rfl
  | escaped _ ih =>
      rw [List.cons_append, List.cons_append, gives_generators_escape hclose.symm, ih]
      rfl

theorem SpellsAlphabet.breaks {gens : Option Text} {p : Text} (h : SpellsAlphabet gens p) :
    BreaksWord p := by
  cases h with
  | absent => rfl
  | given b _ => exact breaksWord_blanks b rfl _

theorem SpellsAlphabet.gives {gens : Option Text} {p : Text} (h : SpellsAlphabet gens p) {t : Text}
    (ht : peek t ≠ some '(') : gives (alphabet? (p ++ t)) = some (gens, t) := by
  cases h with
  | absent => exact gives_alphabet_none ht
  | @given gens raw b hraw =>
      have htext : b.text ++ '(' :: (raw ++ [')']) ++ t = b.text ++ '(' :: (raw ++ ')' :: t) := by
        simp
      rw [htext, gives_alphabet_some (peek_blanks_cons b rfl _), expect_blanks b rfl,
        Option.bind_some, hraw.gives (by decide), Option.bind_some]

/-- What may stand before an alphabet without being taken for more. -/
theorem SpellsAlphabet.peek_append_ne {gens : Option Text} {p : Text} (h : SpellsAlphabet gens p)
    {t : Text} (ht : p = [] → peek t ≠ some '<') : peek (p ++ t) ≠ some '<' := by
  cases h with
  | absent => exact ht rfl
  | given b _ =>
      rw [List.append_assoc, List.cons_append, peek_blanks_cons b rfl]
      decide

theorem shortLetters_spec : ∀ x ∈ shortLetters,
    IsWord x.1 ∧ x.1 ≠ "set_alphabet".toList ∧ Keyword.letterType x.1 = x.2 := by
  decide

theorem usualLetters_spec : ∀ x ∈ usualLetters,
    IsWord x.1 ∧ Keyword.isLetterType x.1 = true ∧ Keyword.letterType x.1 = x.2 := by
  decide

theorem letterType_of_not_short {w : Text} (h : w ∉ shortLetters.map Prod.fst) :
    Keyword.letterType w = w := by
  simp only [shortLetters, List.map_cons, List.map_nil, List.mem_cons, List.not_mem_nil,
    or_false, not_or] at h
  rw [Keyword.letterType, if_neg h.1, if_neg h.2]

theorem SpellsGenset.opens {g : Descriptor} {w p : Text} (h : SpellsGenset g w p) : Opens w p := by
  cases h with
  | short hw hgens => exact ⟨.inl (shortLetters_spec _ hw).1, hgens.breaks⟩
  | named hw _ _ hgens => exact ⟨.inl hw, hgens.breaks⟩
  | wrapped b b₁ b₂ _ => exact opens_within (by decide) b b₁ _ _ b₂

theorem SpellsGenset.gives {g : Descriptor} {w p : Text} (h : SpellsGenset g w p) {t : Text}
    (ht : peek t ≠ some '(') : gives (genset w (p ++ t)) = some (g, t) := by
  induction h generalizing t with
  | short hw hgens =>
      rcases shortLetters_spec _ hw with ⟨hword, hset, hletters⟩
      rw [gives_genset_bare hset hword.ne_nil, hgens.gives ht, Option.bind_some, hletters]
  | @named w p gens hword hshort hset hgens =>
      rw [gives_genset_bare hset hword.ne_nil, hgens.gives ht, Option.bind_some,
        letterType_of_not_short hshort]
  | wrapped b b₁ b₂ hinner ih =>
      rw [gives_genset_wrapped]
      refine gives_within (F := fun w s => Reader.gives (genset w s))
        (G := fun g r => some (g, r)) b b₁ b₂ hinner.opens (ih ?_)
      exact (halts_blanks b₂ (.inr rfl) t).alphabet

theorem SpellsGenset.gives_typed {g : Descriptor} {w p : Text} (h : SpellsGenset g w p)
    (b b₁ b₂ : Blanks) (t : Text) :
    Reader.gives (typedGenset (within b b₁ w p b₂ ++ t)) = some (g, t) := by
  rw [gives_typedGenset_typed (peek_within b b₁ w p b₂ t)]
  refine gives_within (F := fun w s => Reader.gives (genset w s)) (G := fun g r => some (g, r))
    b b₁ b₂ h.opens (h.gives ?_)
  exact (halts_blanks b₂ (.inr rfl) t).alphabet

theorem starred_of_ne {letters gens t : Text} (ht : t.head? ≠ some '*') :
    starred letters gens t = (.letterset (.genset letters (some gens)), t) := by
  unfold starred
  split
  · exact absurd rfl ht
  · rfl

theorem SpellsBracketed.head {letters p : Text} {d : Descriptor} (h : SpellsBracketed letters d p) :
    p.head? = some '[' := by
  cases h with
  | letterset _ => rfl
  | wordset _ => rfl

theorem SpellsBracketed.gives {letters p : Text} {d : Descriptor}
    (h : SpellsBracketed letters d p) (b : Blanks) {t : Text} (ht : t.head? ≠ some '*') :
    gives (bracketed letters (b.text ++ (p ++ t))) = some (d, t) := by
  cases h with
  | @letterset gens raw hraw =>
      have htext : '[' :: (raw ++ [']']) ++ t = '[' :: (raw ++ ']' :: t) := by simp
      rw [gives_bracketed, htext, expect_blanks b rfl, Option.bind_some, hraw.gives (by decide),
        Option.bind_some, starred_of_ne ht]
  | @wordset gens raw hraw =>
      have htext : '[' :: (raw ++ [']', '*']) ++ t = '[' :: (raw ++ ']' :: '*' :: t) := by simp
      rw [gives_bracketed, htext, expect_blanks b rfl, Option.bind_some, hraw.gives (by decide)]
      rfl

/-! ## Identities and separators -/

theorem identityWords_spec : ∀ x ∈ identityWords,
    IsWord x.1 ∧ Identities.ofText? x.1 = some x.2 := by
  decide

theorem SpellsIdentities.gives {usual i : Identities} {p : Text} (h : SpellsIdentities usual i p)
    {t : Text} (ht : peek t ≠ some '(') : gives (identities usual (p ++ t)) = some (i, t) := by
  cases h with
  | usual => exact gives_identities_none _ ht
  | @given w i b b₁ b₂ hw =>
      rcases identityWords_spec _ hw with ⟨hword, hname⟩
      have htext : b.text ++ '(' :: (b₁.text ++ (w ++ (b₂.text ++ [')']))) ++ t =
          b.text ++ '(' :: (b₁.text ++ (w ++ ([] ++ (b₂.text ++ ')' :: t)))) := by
        simp
      have hopens : Opens w [] := ⟨.inl hword, rfl⟩
      have hbreaks : BreaksWord ([] ++ (b₂.text ++ ')' :: t)) := breaksWord_blanks b₂ rfl t
      rcases hopens.word_blanks b₁ hbreaks with ⟨hvalue, hrest⟩
      rw [htext, gives_identities_some usual (peek_blanks_cons b rfl _), expect_blanks b rfl,
        Option.bind_some, hvalue, hrest, hname, Option.bind_some, List.nil_append,
        expect_blanks b₂ rfl, Option.bind_some]

theorem SpellsSeparator.breaks {p s : Text} (h : SpellsSeparator p s) (hp : BreaksWord p)
    (t : Text) : BreaksWord (p ++ (s ++ t)) := by
  cases h with
  | comma b b' =>
      rw [List.append_assoc]
      exact breaksWord_append hp (breaksWord_blanks b rfl _)
  | arrow b b' =>
      rw [List.append_assoc]
      exact breaksWord_append hp (breaksWord_blanks b rfl _)
  | underscore b b' hne =>
      -- The underscore is behind a parameter or a blank.
      cases p with
      | cons c p => exact hp
      | nil =>
          rcases b with ⟨text, hblank⟩
          cases text with
          | nil => exact absurd rfl hne
          | cons c text =>
              have hbreaks := breaksWord_blanks ⟨c :: text, hblank⟩ (c := ' ') rfl []
              exact hbreaks

theorem SpellsSeparator.follows {p s : Text} (h : SpellsSeparator p s) (t : Text) :
    Ends (s ++ t) ∧ peek (s ++ t) ≠ some '<' := by
  cases h with
  | comma b b' =>
      rw [List.append_assoc]
      refine ⟨ends_blanks b rfl (by decide) (by decide) _, ?_⟩
      rw [List.cons_append, peek_blanks_cons b rfl]
      decide
  | arrow b b' =>
      rw [List.append_assoc]
      refine ⟨ends_blanks b rfl (by decide) (by decide) _, ?_⟩
      rw [List.cons_append, peek_blanks_cons b rfl]
      decide
  | underscore b b' _ =>
      rw [List.append_assoc]
      refine ⟨ends_blanks b rfl (by decide) (by decide) _, ?_⟩
      rw [List.cons_append, peek_blanks_cons b rfl]
      decide

theorem SpellsSeparator.leaves {p s : Text} (h : SpellsSeparator p s) :
    ∃ b' : Blanks, ∀ t, leaves (separator (s ++ t)) = some (b'.text ++ t) := by
  cases h with
  | comma b b' =>
      refine ⟨b', fun t => ?_⟩
      rw [leaves_separator, List.append_assoc, trimStart_blanks, List.cons_append,
        Text.trimStart_cons rfl]
      rfl
  | arrow b b' =>
      refine ⟨b', fun t => ?_⟩
      rw [leaves_separator, List.append_assoc, trimStart_blanks, List.cons_append,
        Text.trimStart_cons rfl]
      rfl
  | underscore b b' _ =>
      refine ⟨b', fun t => ?_⟩
      rw [leaves_separator, List.append_assoc, trimStart_blanks, List.cons_append,
        Text.trimStart_cons rfl]
      rfl

/-! ## Words that open sets -/

theorem letteredWords_spec : ∀ x ∈ letteredWords,
    Keyword.labelForm? x.1 = some (.lettered x.2.1 x.2.2) := by
  decide

theorem typedWords_spec : ∀ x ∈ typedWords, Keyword.labelForm? x.1 = some (.typed x.2) := by
  decide

theorem nullableWords_spec : ∀ w ∈ nullableWords, Keyword.labelForm? w = some .nullable := by
  decide

theorem oneWords_spec : ∀ w ∈ oneWords, Keyword.labelForm? w = some .one := by
  decide

theorem productWords_spec : ∀ w ∈ productWords,
    Keyword.labelForm? w = some .product ∧ Keyword.weightForm? w = some .product := by
  decide

theorem expressionWords_spec : ∀ x ∈ expressionWords,
    Keyword.labelForm? x.1 = some (.expressions x.2) ∧
      Keyword.weightForm? x.1 = some (.expressions x.2) := by
  decide

theorem terminalWords_spec : ∀ w ∈ terminalWords, Keyword.isTerminal w = true := by
  decide

/-- The words of weight sets. -/
def weightWords : List Text :=
  terminalWords ++ "polynomialset".toList :: (productWords ++ expressionWords.map Prod.fst)

theorem isWord_of_mem_weightWords : ∀ w ∈ weightWords, IsWord w := by
  decide

/-- What the reader takes a label set word and a weight set word for when they are joined. -/
structure Joins (l v : Text) : Prop where
  isWord : IsWord (l ++ '_' :: v)
  context : l ++ '_' :: v ≠ "context".toList
  joined : joined? (l ++ '_' :: v) = some (l, v)

instance (l v : Text) : Decidable (Joins l v) :=
  decidable_of_iff (IsWord (l ++ '_' :: v) ∧ l ++ '_' :: v ≠ "context".toList ∧
      joined? (l ++ '_' :: v) = some (l, v))
    ⟨fun ⟨h₁, h₂, h₃⟩ => ⟨h₁, h₂, h₃⟩, fun ⟨h₁, h₂, h₃⟩ => ⟨h₁, h₂, h₃⟩⟩

/-- No weight set word makes a label set word out of another. -/
theorem joins_words : ∀ l ∈ Keyword.labelsets.map Prod.fst, ∀ v ∈ weightWords, Joins l v := by
  decide +kernel

/-! ## Sets as they are read -/

/-- The label set is read from its word and the text after it. -/
structure ReadsLabelset (d : Descriptor) (w p : Text) : Prop where
  opens : Opens w p
  word : w = [] ∨ Keyword.isLabelset w = true
  reads : ∀ t, Ends t → (w ∈ openWords → p = [] → peek t ≠ some '<') →
    gives (labelset w (p ++ t)) = some (d, t)

/-- The weight set is read from its word and the text after it. -/
structure ReadsWeightset (d : Descriptor) (w p : Text) : Prop where
  bracketed : p = [] ∨ Bracketed p
  word : w ∈ weightWords
  reads : ∀ t, peek t ≠ some '(' → gives (weightset w (p ++ t)) = some (d, t)

/-- The member is read from its word and the text after it. -/
structure ReadsMember (d : Descriptor) (w p : Text) : Prop where
  opens : Opens w p
  reads : ∀ t, Halts t → memberFrom w (p ++ t) = some (d, t)

/-- The further members are read, up to the bracket that closes the product. -/
def ReadsMembers (ds : List Descriptor) (p : Text) : Prop :=
  ∀ (b : Blanks) (t : Text), Halts (p ++ (b.text ++ '>' :: t)) ∧
    gives (members (p ++ (b.text ++ '>' :: t))) = some (ds, b.text ++ '>' :: t)

/-- The product is read from the text after its word. -/
structure ReadsProduct (d : Descriptor) (p : Text) : Prop where
  bracketed : Bracketed p
  reads : ∀ t, gives (product (p ++ t)) = some (d, t)

/-- The expression set is read from the text after its word. -/
structure ReadsExpressions (usual : Identities) (d : Descriptor) (p : Text) : Prop where
  bracketed : Bracketed p
  reads : ∀ t, peek t ≠ some '(' → gives (expressionset usual (p ++ t)) = some (d, t)

/-- The context is read from its word and the text after it. -/
structure ReadsContext (d : Descriptor) (w p : Text) : Prop where
  opens : Opens w p
  word : w = [] ∨ opensContext w = true
  reads : ∀ t, Halts t → gives (context w (p ++ t)) = some (d, t)

theorem ReadsWeightset.opens {d : Descriptor} {w p : Text} (h : ReadsWeightset d w p) :
    Opens w p := by
  refine ⟨.inl (isWord_of_mem_weightWords w h.word), ?_⟩
  rcases h.bracketed with rfl | hp
  · rfl
  · exact hp.breaks

/-- What follows a weight set word is no alphabet. -/
theorem ReadsWeightset.ends {d : Descriptor} {w p : Text} (h : ReadsWeightset d w p) {t : Text}
    (ht : Halts t) : Ends (p ++ t) := by
  rcases h.bracketed with rfl | hp
  · exact ends_of_halts ht
  · exact (hp.append t).ends

/-! ### Label sets -/

section

variable {w v p : Text} {shape : Shape} {g d : Descriptor} {gens : Option Text}

theorem isLabelset_of_labelForm {form : LabelForm} (h : Keyword.labelForm? w = some form) :
    Keyword.isLabelset w = true := by
  rw [Keyword.isLabelset, h]
  rfl

theorem isWord_of_labelForm {form : LabelForm} (h : Keyword.labelForm? w = some form) :
    IsWord w :=
  (Descriptor.namesLabelset_of_isLabelset (isLabelset_of_labelForm h)).isWord

theorem readsLabelset_of_labelForm {form : LabelForm} (hform : Keyword.labelForm? w = some form)
    (hp : BreaksWord p)
    (h : ∀ t, Ends t → (w ∈ openWords → p = [] → peek t ≠ some '<') →
      gives (labelset w (p ++ t)) = some (d, t)) : ReadsLabelset d w p :=
  ⟨⟨.inl (isWord_of_labelForm hform), hp⟩, .inr (isLabelset_of_labelForm hform), h⟩

theorem readsLabelset_lettered {letters : Text} (hw : (w, shape, letters) ∈ letteredWords)
    (hgens : SpellsAlphabet gens p) : ReadsLabelset (shape.over (.genset letters gens)) w p := by
  have hform := letteredWords_spec _ hw
  refine readsLabelset_of_labelForm hform hgens.breaks fun t ht _ => ?_
  rw [gives_labelset_lettered hform, hgens.gives ht.alphabet]
  rfl

theorem readsLabelset_untyped (hw : (w, shape) ∈ typedWords) (hgens : SpellsAlphabet gens p) :
    ReadsLabelset (shape.over (.genset "char_letters".toList gens)) w p := by
  have hform := typedWords_spec _ hw
  have hopen : w ∈ openWords := List.mem_append_left _ (List.mem_map_of_mem hw)
  refine readsLabelset_of_labelForm hform hgens.breaks fun t ht hbracket => ?_
  rw [gives_labelset_typed hform,
    gives_typedGenset_untyped (hgens.peek_append_ne (hbracket hopen)), hgens.gives ht.alphabet]
  rfl

theorem readsLabelset_typed (b b₁ b₂ : Blanks) (hw : (w, shape) ∈ typedWords)
    (hg : SpellsGenset g v p) : ReadsLabelset (shape.over g) w (within b b₁ v p b₂) := by
  have hform := typedWords_spec _ hw
  refine readsLabelset_of_labelForm hform (bracketed_within _ _ _ _ _).breaks fun t _ _ => ?_
  rw [gives_labelset_typed hform, hg.gives_typed]
  rfl

theorem readsLabelset_bracketed (h : SpellsBracketed "char_letters".toList d p) :
    ReadsLabelset d [] p := by
  have hhead := h.head
  have hbreaks : BreaksWord p := by
    rw [BreaksWord, hhead]
    rfl
  refine ⟨⟨.inr ⟨rfl, .inl hhead⟩, hbreaks⟩, .inl rfl, fun t ht _ => ?_⟩
  have hpeek : peek (p ++ t) = some '[' := by
    cases p with
    | nil => cases hhead
    | cons c p =>
        cases hhead
        exact peek_cons rfl _
  rw [gives_labelset_unnamed, gives_unnamedLabelset_bracket hpeek]
  exact h.gives .none ht.star

theorem readsLabelset_prefixed {letters : Text} (b₁ b₂ b₃ : Blanks)
    (hv : (v, letters) ∈ usualLetters) (h : SpellsBracketed letters d p) :
    ReadsLabelset d [] ('<' :: (b₁.text ++ (v ++ (b₂.text ++ '>' :: (b₃.text ++ p))))) := by
  rcases usualLetters_spec _ hv with ⟨hword, hletters, htype⟩
  refine ⟨⟨.inr ⟨rfl, .inr rfl⟩, rfl⟩, .inl rfl, fun t ht _ => ?_⟩
  have htext : '<' :: (b₁.text ++ (v ++ (b₂.text ++ '>' :: (b₃.text ++ p)))) ++ t =
      Blanks.none.text ++ '<' :: (b₁.text ++ (v ++ ([] ++ (b₂.text ++ '>' ::
        (b₃.text ++ (p ++ t)))))) := by
    simp [Blanks.none]
  have hopens : Opens v [] := ⟨.inl hword, rfl⟩
  have hbreaks : BreaksWord ([] ++ (b₂.text ++ '>' :: (b₃.text ++ (p ++ t)))) :=
    breaksWord_blanks b₂ rfl _
  rcases hopens.word_blanks b₁ hbreaks with ⟨hvalue, hrest⟩
  rw [htext, gives_labelset_unnamed, gives_unnamedLabelset_typed (peek_blanks_cons _ rfl _),
    expect_blanks _ rfl, Option.bind_some, hvalue, hrest, if_pos hletters, List.nil_append,
    expect_blanks _ rfl, Option.bind_some, htype]
  exact h.gives b₃ ht.star

theorem readsLabelset_nullableBare (hw : w ∈ nullableWords) (hgens : SpellsAlphabet gens p) :
    ReadsLabelset (.nullableset (.letterset (.genset "char_letters".toList gens))) w p := by
  have hform := nullableWords_spec _ hw
  have hopen : w ∈ openWords := List.mem_append_right _ hw
  refine readsLabelset_of_labelForm hform hgens.breaks fun t ht hbracket => ?_
  rw [gives_labelset_nullable hform,
    gives_nullableBody_bare (hgens.peek_append_ne (hbracket hopen)), hgens.gives ht.alphabet]
  rfl

theorem readsLabelset_nullableInner (b b₁ b₂ : Blanks) (hw : w ∈ nullableWords)
    (hopens : Opens v p)
    (hinner : ∀ t, Halts t → nullableInner v (p ++ t) = some (d, t)) :
    ReadsLabelset (.nullableset d) w (within b b₁ v p b₂) := by
  have hform := nullableWords_spec _ hw
  refine readsLabelset_of_labelForm hform (bracketed_within _ _ _ _ _).breaks fun t _ _ => ?_
  have hbody : gives (nullableBody (within b b₁ v p b₂ ++ t)) = some (d, t) := by
    rw [gives_nullableBody_inner (peek_within b b₁ v p b₂ t)]
    exact gives_within (G := fun d r => some (d, r)) b b₁ b₂ hopens
      (hinner _ (halts_blanks b₂ (.inr rfl) t))
  rw [gives_labelset_nullable hform, hbody]
  rfl

theorem readsLabelset_nullableGenset (b b₁ b₂ : Blanks) (hw : w ∈ nullableWords)
    (hv : v ∈ usualLetters.map Prod.fst ∨ v = "set_alphabet".toList) (hg : SpellsGenset g v p) :
    ReadsLabelset (.nullableset (.letterset g)) w (within b b₁ v p b₂) := by
  have hletters : Keyword.isLetterType v ∨ v = "set_alphabet".toList := by
    refine hv.imp_left fun hv => ?_
    rcases List.mem_map.1 hv with ⟨x, hx, rfl⟩
    exact (usualLetters_spec x hx).2.1
  refine readsLabelset_nullableInner b b₁ b₂ hw hg.opens fun t ht => ?_
  rw [nullableInner, if_pos hletters, hg.gives ht.alphabet]
  rfl

theorem readsLabelset_nullable (b b₁ b₂ : Blanks) (hw : w ∈ nullableWords)
    (h : ReadsLabelset d v p) : ReadsLabelset (.nullableset d) w (within b b₁ v p b₂) := by
  have hnot : ¬(Keyword.isLetterType v = true ∨ v = "set_alphabet".toList) := by
    rcases h.word with rfl | hlabels
    · decide
    · have hnames := Descriptor.namesLabelset_of_isLabelset hlabels
      rw [hnames.letterType]
      simpa using hnames.setAlphabet
  refine readsLabelset_nullableInner b b₁ b₂ hw h.opens fun t ht => ?_
  rw [nullableInner, if_neg hnot]
  exact h.reads t (ends_of_halts ht) fun _ _ => ht.bracket

theorem readsLabelset_one (hw : w ∈ oneWords) : ReadsLabelset .oneset w [] := by
  have hform := oneWords_spec _ hw
  exact readsLabelset_of_labelForm hform rfl fun t _ _ => gives_labelset_one hform t

theorem readsLabelset_product (hw : w ∈ productWords) (h : ReadsProduct d p) :
    ReadsLabelset d w p := by
  have hform := (productWords_spec _ hw).1
  refine readsLabelset_of_labelForm hform h.bracketed.breaks fun t _ _ => ?_
  rw [gives_labelset_product hform]
  exact h.reads t

theorem readsLabelset_expressions {usual : Identities} (hw : (w, usual) ∈ expressionWords)
    (h : ReadsExpressions usual d p) : ReadsLabelset d w p := by
  have hform := (expressionWords_spec _ hw).1
  refine readsLabelset_of_labelForm hform h.bracketed.breaks fun t ht _ => ?_
  rw [gives_labelset_expressions hform]
  exact h.reads t ht.alphabet

/-! ### Weight sets and products -/

theorem weightForm_of_terminal (hw : w ∈ terminalWords) :
    Keyword.weightForm? w = some .terminal := by
  rw [Keyword.weightForm?, if_pos (terminalWords_spec _ hw)]

theorem readsWeightset_terminal (hw : w ∈ terminalWords) :
    ReadsWeightset (.weightset w) w [] :=
  ⟨.inl rfl, List.mem_append_left _ hw,
    fun t _ => gives_weightset_terminal (weightForm_of_terminal hw) t⟩

theorem readsWeightset_polynomials (b b₁ b₂ : Blanks) (h : ReadsContext d v p) :
    ReadsWeightset (.polynomialset d) "polynomialset".toList (within b b₁ v p b₂) := by
  refine ⟨.inr (bracketed_within _ _ _ _ _), by decide, fun t _ => ?_⟩
  rw [gives_weightset_polynomials (by decide), gives_polynomialset]
  exact gives_within (F := fun w s => gives (context w s))
    (G := fun c r => some (Descriptor.polynomialset c, r)) b b₁ b₂ h.opens
    (h.reads _ (halts_blanks b₂ (.inr rfl) t))

theorem readsWeightset_product (hw : w ∈ productWords) (h : ReadsProduct d p) :
    ReadsWeightset d w p := by
  refine ⟨.inr h.bracketed, ?_, fun t _ => ?_⟩
  · simp only [weightWords, List.mem_append, List.mem_cons]
    exact .inr (.inr (.inl hw))
  · rw [gives_weightset_product (productWords_spec _ hw).2]
    exact h.reads t

theorem readsWeightset_expressions {usual : Identities} (hw : (w, usual) ∈ expressionWords)
    (h : ReadsExpressions usual d p) : ReadsWeightset d w p := by
  refine ⟨.inr h.bracketed, ?_, fun t ht => ?_⟩
  · simp only [weightWords, List.mem_append, List.mem_cons]
    exact .inr (.inr (.inr (List.mem_map_of_mem hw)))
  · rw [gives_weightset_expressions (expressionWords_spec _ hw).2]
    exact h.reads t ht

theorem ReadsLabelset.member (h : ReadsLabelset d w p) : ReadsMember d w p := by
  refine ⟨h.opens, fun t ht => ?_⟩
  have hreads := h.reads t (ends_of_halts ht) fun _ _ => ht.bracket
  have hnot : ¬(Keyword.isTerminal w = true ∨ w = "polynomialset".toList) := by
    rcases h.word with rfl | hlabels
    · decide
    · have hnames := Descriptor.namesLabelset_of_isLabelset hlabels
      rw [hnames.terminal]
      simpa using hnames.polynomials
  rw [memberFrom, if_neg hnot, if_pos h.word.symm]
  exact hreads

/-- Products and expression sets are read as label sets, which does not matter. -/
theorem memberFrom_of_mem_weightWords (hw : w ∈ weightWords) (s : Text) :
    memberFrom w s = gives (weightset w s) := by
  simp only [weightWords, List.mem_append, List.mem_cons] at hw
  rcases hw with hw | rfl | hw | hw
  · rw [memberFrom, if_pos (.inl (terminalWords_spec w hw))]
  · rw [memberFrom, if_pos (.inr rfl)]
  · rcases productWords_spec w hw with ⟨hlabels, hweights⟩
    have hnames := Descriptor.namesLabelset_of_isLabelset (isLabelset_of_labelForm hlabels)
    rw [memberFrom, hnames.terminal, if_neg (by simpa using hnames.polynomials),
      if_pos (.inl hnames.isLabelset), gives_labelset_product hlabels,
      gives_weightset_product hweights]
  · rcases List.mem_map.1 hw with ⟨x, hx, rfl⟩
    rcases expressionWords_spec x hx with ⟨hlabels, hweights⟩
    have hnames := Descriptor.namesLabelset_of_isLabelset (isLabelset_of_labelForm hlabels)
    rw [memberFrom, hnames.terminal, if_neg (by simpa using hnames.polynomials),
      if_pos (.inl hnames.isLabelset), gives_labelset_expressions hlabels,
      gives_weightset_expressions hweights]

theorem ReadsWeightset.member (h : ReadsWeightset d w p) : ReadsMember d w p := by
  refine ⟨h.opens, fun t ht => ?_⟩
  rw [memberFrom_of_mem_weightWords h.word]
  exact h.reads t ht.alphabet

theorem readsMembers_nil : ReadsMembers [] [] := by
  intro b t
  refine ⟨halts_blanks b (.inr rfl) t, gives_members_none ?_⟩
  rw [List.nil_append, peek_blanks_cons b rfl]
  decide

theorem readsMembers_cons {ds : List Descriptor} {q : Text} (b b₁ : Blanks)
    (h : ReadsMember d w p) (hs : ReadsMembers ds q) :
    ReadsMembers (d :: ds) (b.text ++ ',' :: (b₁.text ++ (w ++ (p ++ q)))) := by
  intro b₂ t
  rcases hs b₂ t with ⟨hhalts, hreads⟩
  have htext : b.text ++ ',' :: (b₁.text ++ (w ++ (p ++ q))) ++ (b₂.text ++ '>' :: t) =
      b.text ++ ',' :: (b₁.text ++ (w ++ (p ++ (q ++ (b₂.text ++ '>' :: t))))) := by
    simp
  rcases h.opens.word_blanks b₁ (breaksWord_append h.opens.breaks hhalts.word) with
    ⟨hvalue, hrest⟩
  have hmember : gives (member (b₁.text ++ (w ++ (p ++ (q ++ (b₂.text ++ '>' :: t)))))) =
      some (d, q ++ (b₂.text ++ '>' :: t)) := by
    rw [gives_member, hvalue, hrest]
    exact h.reads _ hhalts
  rw [htext]
  refine ⟨halts_blanks b (.inl rfl) _, ?_⟩
  rw [gives_members_more (peek_blanks_cons b rfl _), expect_blanks b rfl, Option.bind_some,
    hmember, Option.bind_some, hreads]
  rfl

theorem readsProduct_tupleset {ds : List Descriptor} {q : Text} (b b₁ b₂ : Blanks)
    (h : ReadsMember d w p) (hs : ReadsMembers ds q) :
    ReadsProduct (.tupleset (d :: ds)) (within b b₁ w (p ++ q) b₂) := by
  refine ⟨bracketed_within _ _ _ _ _, fun t => ?_⟩
  rcases hs b₂ t with ⟨hhalts, hreads⟩
  have htext : within b b₁ w (p ++ q) b₂ ++ t =
      b.text ++ '<' :: (b₁.text ++ (w ++ (p ++ (q ++ (b₂.text ++ '>' :: t))))) := by
    simp [within]
  rcases h.opens.word_blanks b₁ (breaksWord_append h.opens.breaks hhalts.word) with
    ⟨hvalue, hrest⟩
  have hmember : gives (member (b₁.text ++ (w ++ (p ++ (q ++ (b₂.text ++ '>' :: t)))))) =
      some (d, q ++ (b₂.text ++ '>' :: t)) := by
    rw [gives_member, hvalue, hrest]
    exact h.reads _ hhalts
  rw [htext, gives_product, expect_blanks b rfl, Option.bind_some, hmember, Option.bind_some,
    hreads, Option.bind_some, expect_blanks b₂ rfl]
  rfl

/-! ### Contexts -/

theorem readsExpressions_expressionset {usual i : Identities} {q : Text} (b b₁ b₂ : Blanks)
    (h : ReadsContext d w p) (hi : SpellsIdentities usual i q) :
    ReadsExpressions usual (.expressionset d i) (within b b₁ w p b₂ ++ q) := by
  refine ⟨(bracketed_within _ _ _ _ _).append q, fun t ht => ?_⟩
  rw [List.append_assoc, gives_expressionset]
  have hbody := gives_within (F := fun w s => gives (context w s))
    (G := fun c r => (gives (identities usual r)).bind fun x =>
      some (Descriptor.expressionset c x.1, x.2)) b b₁ b₂ h.opens
    (h.reads _ (halts_blanks b₂ (.inr rfl) (q ++ t)))
  refine hbody.trans ?_
  rw [hi.gives ht]
  rfl

theorem readsContext_wrapped (b b₁ b₂ : Blanks) (h : ReadsContext d w p) :
    ReadsContext d "context".toList (within b b₁ w p b₂) := by
  refine ⟨opens_within (by decide) _ _ _ _ _, .inr (by decide), fun t _ => ?_⟩
  rw [gives_context_wrapped]
  exact gives_within (F := fun w s => gives (context w s)) (G := fun c r => some (c, r)) b b₁ b₂
    h.opens (h.reads _ (halts_blanks b₂ (.inr rfl) t))

theorem readsContext_separated {l : Descriptor} {s q : Text} (hl : ReadsLabelset l w p)
    (hs : SpellsSeparator p s) (hd : ReadsWeightset d v q) :
    ReadsContext (.context l d) w (p ++ (s ++ (v ++ q))) := by
  have hfirst : w ≠ "context".toList ∧ joined? w = none := by
    rcases hl.word with rfl | hlabels
    · decide
    · refine ⟨(Descriptor.namesLabelset_of_isLabelset hlabels).context, ?_⟩
      rw [joined?, if_pos hlabels]
  have hopens : Opens w (p ++ (s ++ (v ++ q))) := by
    refine ⟨hl.opens.opener.imp_right fun ⟨hw, hp⟩ => ⟨hw, ?_⟩, hs.breaks hl.opens.breaks _⟩
    cases p with
    | nil => simp at hp
    | cons c p => exact hp
  refine ⟨hopens, hl.word.imp_right fun hlabels => by simp [opensContext, hlabels],
    fun t ht => ?_⟩
  have htext : p ++ (s ++ (v ++ q)) ++ t = p ++ (s ++ (v ++ (q ++ t))) := by simp
  rcases hs.follows (v ++ (q ++ t)) with ⟨hends, hbracket⟩
  rcases hs.leaves with ⟨b', hleaves⟩
  rcases hd.opens.word_blanks b' (breaksWord_append hd.opens.breaks ht.word) with ⟨hvalue, hrest⟩
  rw [htext, gives_context_separated hfirst.1 hfirst.2, hl.reads _ hends fun _ _ => hbracket,
    Option.bind_some, hleaves, Option.bind_some, hvalue, hrest, hd.reads t ht.alphabet]
  rfl

theorem readsContext_joined {l : Descriptor} {q : Text} (hw : w ≠ []) (hl : ReadsLabelset l w p)
    (hd : ReadsWeightset d v q) (hapart : Apart w p q) :
    ReadsContext (.context l d) (w ++ '_' :: v) (p ++ q) := by
  have hlabels : Keyword.isLabelset w = true := hl.word.resolve_left hw
  have hjoins : Joins w v := by
    rcases Option.isSome_iff_exists.1 hlabels with ⟨form, hform⟩
    exact joins_words w (List.mem_map_of_mem (mem_labelsets hform)) v hd.word
  have hopens : Opens (w ++ '_' :: v) (p ++ q) :=
    ⟨.inl hjoins.isWord, breaksWord_append hl.opens.breaks hd.opens.breaks⟩
  have hopensContext : opensContext (w ++ '_' :: v) = true := by
    have hjoined := hjoins.joined
    unfold joined? at hjoined
    split at hjoined
    · cases hjoined
    · simp [opensContext, hjoined]
  refine ⟨hopens, .inr hopensContext, fun t ht => ?_⟩
  have hbracket : w ∈ openWords → p = [] → peek (q ++ t) ≠ some '<' := by
    intro hopen hp
    rw [hapart hopen hp, List.nil_append]
    exact ht.bracket
  rw [List.append_assoc, gives_context_joined hjoins.context hjoins.joined,
    hl.reads _ (hd.ends ht) hbracket, Option.bind_some, hd.reads t ht.alphabet]
  rfl

end

/-! ## Every spelling is read -/

section

variable {joins : (w p q : Text) → Prop}

mutual

theorem SpellsLabelset.reads (hjoins : KeepsApart joins) :
    ∀ {d : Descriptor} {w p : Text}, SpellsLabelset joins d w p → ReadsLabelset d w p
  | _, _, _, .lettered hw hgens => readsLabelset_lettered hw hgens
  | _, _, _, .untyped hw hgens => readsLabelset_untyped hw hgens
  | _, _, _, .typed b b₁ b₂ hw hg => readsLabelset_typed b b₁ b₂ hw hg
  | _, _, _, .bracketed h => readsLabelset_bracketed h
  | _, _, _, .prefixed b₁ b₂ b₃ hv h => readsLabelset_prefixed b₁ b₂ b₃ hv h
  | _, _, _, .nullableBare hw hgens => readsLabelset_nullableBare hw hgens
  | _, _, _, .nullableGenset b b₁ b₂ hw hv hg => readsLabelset_nullableGenset b b₁ b₂ hw hv hg
  | _, _, _, .nullable b b₁ b₂ hw h => readsLabelset_nullable b b₁ b₂ hw (h.reads hjoins)
  | _, _, _, .one hw => readsLabelset_one hw
  | _, _, _, .product hw h => readsLabelset_product hw (h.reads hjoins)
  | _, _, _, .expressions hw h => readsLabelset_expressions hw (h.reads hjoins)

theorem SpellsWeightset.reads (hjoins : KeepsApart joins) :
    ∀ {d : Descriptor} {w p : Text}, SpellsWeightset joins d w p → ReadsWeightset d w p
  | _, _, _, .terminal hw => readsWeightset_terminal hw
  | _, _, _, .polynomials b b₁ b₂ h => readsWeightset_polynomials b b₁ b₂ (h.reads hjoins)
  | _, _, _, .product hw h => readsWeightset_product hw (h.reads hjoins)
  | _, _, _, .expressions hw h => readsWeightset_expressions hw (h.reads hjoins)

theorem SpellsMember.reads (hjoins : KeepsApart joins) :
    ∀ {d : Descriptor} {w p : Text}, SpellsMember joins d w p → ReadsMember d w p
  | _, _, _, .labelset h => (h.reads hjoins).member
  | _, _, _, .weightset h => (h.reads hjoins).member

theorem SpellsMembers.reads (hjoins : KeepsApart joins) :
    ∀ {ds : List Descriptor} {p : Text}, SpellsMembers joins ds p → ReadsMembers ds p
  | _, _, .nil => readsMembers_nil
  | _, _, .cons b b₁ h hs => readsMembers_cons b b₁ (h.reads hjoins) (hs.reads hjoins)

theorem SpellsProduct.reads (hjoins : KeepsApart joins) :
    ∀ {d : Descriptor} {p : Text}, SpellsProduct joins d p → ReadsProduct d p
  | _, _, .tupleset b b₁ b₂ h hs =>
      readsProduct_tupleset b b₁ b₂ (h.reads hjoins) (hs.reads hjoins)

theorem SpellsExpressions.reads (hjoins : KeepsApart joins) :
    ∀ {usual : Identities} {d : Descriptor} {p : Text},
      SpellsExpressions joins usual d p → ReadsExpressions usual d p
  | _, _, _, .expressionset b b₁ b₂ h hi =>
      readsExpressions_expressionset b b₁ b₂ (h.reads hjoins) hi

theorem SpellsContext.reads (hjoins : KeepsApart joins) :
    ∀ {d : Descriptor} {w p : Text}, SpellsContext joins d w p → ReadsContext d w p
  | _, _, _, .wrapped b b₁ b₂ h => readsContext_wrapped b b₁ b₂ (h.reads hjoins)
  | _, _, _, .separated hl hs hd => readsContext_separated (hl.reads hjoins) hs (hd.reads hjoins)
  | _, _, _, .joined hw hl hd h =>
      readsContext_joined hw (hl.reads hjoins) (hd.reads hjoins) (hjoins _ _ _ h)

end

end

end Spelling
end OnDemand
