import OnDemand.Proofs.Descriptor.Continuation

/-!
# Every step carries over

Each step of the reader reads the same part of a text when the text is extended.  The induction is
the reader's own, over contexts first and over types then.  The one place where a step is tried and
given up is the first child of an automaton type; there, what failed must fail again.
-/

namespace OnDemand
namespace Reader

open Descriptor

section Carrying

variable {t s : Text}

/-! ## Alphabets with a letter type -/

theorem gives_genset_nil : gives (genset [] []) = none := by
  rw [genset, if_neg (by decide), if_pos rfl]
  rfl

theorem genset_carries (ht : Halts t) (w s : Text) :
    Carries SameKind t (fun s => gives (genset w s)) s := by
  induction w, s using genset.induct with
  | case1 s ih =>
      exact carries_of_wraps (F := fun w s => gives (genset w s)) ht gives_genset_nil
        (fun r hr => ih r (length_lt_of_leaves hr) _ _ (word r).le)
        gives_genset_wrapped_eq_some_iff gives_genset_wrapped_eq_some_iff
  | case2 s =>
      refine carries_of_none ?_
      rw [genset, if_neg (by decide), if_pos rfl]
      rfl
  | case3 w s hset hw =>
      exact ((alphabet_carries ht s).map (fun gens => .genset (Keyword.letterType w) gens)
        fun _ _ _ => rfl).congr (gives_genset_bare hset hw s) fun _ => gives_genset_bare hset hw _

theorem typedGenset_carries (ht : Halts t) (s : Text) :
    Carries SameKind t (fun s => gives (typedGenset s)) s := by
  by_cases hpeek : peek s = some '<'
  · exact carries_of_wraps (F := fun w s => gives (genset w s)) ht gives_genset_nil
      (fun _ _ => genset_carries ht _ _) (gives_typedGenset_typed_eq_some_iff hpeek)
      (gives_typedGenset_typed_eq_some_iff (peek_extend_of_ne (by decide) hpeek))
  · exact ((alphabet_carries ht s).map (fun gens => .genset Keyword.charLetters gens)
      fun _ _ _ => rfl).congr (gives_typedGenset_untyped hpeek) fun hslash =>
        gives_typedGenset_untyped (peek_extend_ne hslash hpeek ht.bracket)

theorem starred_extend (ht : Halts t) (letterType gens gens' r : Text) :
    SameKind (starred letterType gens r).1 (starred letterType gens' (extend t r)).1 ∧
      (starred letterType gens' (extend t r)).2 = extend t (starred letterType gens r).2 := by
  have hplain : ∀ u : Text, u.head? ≠ some '*' → ∀ g,
      starred letterType g u = (.letterset (.genset letterType (some g)), u) := by
    intro u hu g
    unfold starred
    split
    · simp at hu
    · rfl
  cases r with
  | nil =>
      rw [extend_nil, hplain t ht.star]
      exact ⟨rfl, rfl⟩
  | cons c r =>
      by_cases hc : c = '*'
      · subst hc
        exact ⟨rfl, rfl⟩
      · rw [hplain (c :: r) (by simp [hc]), hplain (extend t (c :: r))
          (by simp [extend_cons, flatChar_ne hc])]
        exact ⟨rfl, rfl⟩

theorem bracketed_carries (ht : Halts t) (letterType s : Text) :
    Carries SameKind t (fun s => gives (bracketed letterType s)) s := by
  intro d r h
  dsimp only at h ⊢
  rw [gives_bracketed] at h
  rcases Option.bind_eq_some_iff.1 h with ⟨r₀, hr₀, h⟩
  rcases Option.bind_eq_some_iff.1 h with ⟨⟨gens, r₁⟩, hgens, h⟩
  injection h with hstarred
  refine ⟨fun hslash => absurd hslash (not_slashed_of_expect (by decide) hr₀), fun _ => ?_⟩
  rcases generators_extend (t := t) (by decide) (by decide) (by decide) hgens with ⟨gens', hgens'⟩
  rcases starred_extend ht letterType gens gens' r₁ with ⟨hkind, hrest⟩
  rw [hstarred] at hkind hrest
  refine ⟨(starred letterType gens' (extend t r₁)).1, ?_, hkind⟩
  rw [gives_bracketed, expect_extend (by decide) hr₀, Option.bind_some, hgens', Option.bind_some,
    ← hrest]

theorem unnamedLabelset_carries (ht : Halts t) (s : Text) :
    Carries SameKind t (fun s => gives (unnamedLabelset s)) s := by
  by_cases hbracket : peek s = some '['
  · exact (bracketed_carries ht _ s).congr (gives_unnamedLabelset_bracket hbracket) fun _ =>
      gives_unnamedLabelset_bracket (peek_extend_of_ne (by decide) hbracket)
  by_cases htyped : peek s = some '<'
  · intro d r h
    dsimp only at h ⊢
    rw [gives_unnamedLabelset_typed htyped] at h
    rcases Option.bind_eq_some_iff.1 h with ⟨r₀, hr₀, h⟩
    refine ⟨fun hslash => absurd hslash (not_slashed_of_expect (by decide) hr₀), fun hslash => ?_⟩
    split at h
    next hletters =>
        rcases Option.bind_eq_some_iff.1 h with ⟨r₁, hr₁, h⟩
        -- The letter type is a word, so there is one.
        have hne : peek r₀ ≠ none := by
          intro hnone
          rw [(word_of_peek_none hnone).1] at hletters
          cases hletters
        rcases word_extend ht hne (not_slashed_of_expect (by decide) hr₁) with ⟨hvalue, hrest⟩
        rcases (bracketed_carries ht _ r₁ d r h).2 hslash with ⟨d', hd', hkind⟩
        refine ⟨d', ?_, hkind⟩
        rw [gives_unnamedLabelset_typed (peek_extend_of_ne (by decide) htyped),
          expect_extend (by decide) hr₀, Option.bind_some, hvalue, if_pos hletters, hrest,
          expect_extend (by decide) hr₁]
        exact hd'
    next => cases h
  · exact carries_of_none (gives_unnamedLabelset_none hbracket htyped)

/-! ## Contexts -/

theorem gives_unnamedLabelset_empty : gives (unnamedLabelset []) = none :=
  gives_unnamedLabelset_none (by decide) (by decide)

theorem gives_labelset_nil : gives (labelset [] []) = none :=
  (gives_labelset_unnamed []).trans gives_unnamedLabelset_empty

theorem gives_weightset_nil : gives (weightset [] []) = none :=
  gives_weightset_unknown (by decide) []

theorem gives_context_nil : gives (context [] []) = none := by
  rw [gives_context_separated (by decide) (by decide), gives_labelset_nil]
  rfl

section Productions

variable {w : Text}

theorem shape_over_sameKind (shape : Shape) (d d' : Descriptor) :
    SameKind (shape.over d) (shape.over d') := by
  cases shape with
  | _ => rfl

theorem expressionset_carries_of_context (ht : Halts t) {usual : Identities}
    (h : CarriesWithin SameKind t (fun w s => gives (context w s)) s) :
    Carries SameKind t (fun s => gives (expressionset usual s)) s := by
  intro d r hd
  rcases gives_expressionset_eq_some_iff.1 hd with ⟨c, r₁, i, hc, hi, rfl⟩
  refine ⟨fun hslash => absurd hslash hc.not_slashed, fun hslash => ?_⟩
  rcases hc.extend ht gives_context_nil h with ⟨c', hc', -⟩
  rcases (identities_carries ht usual r₁ i r hi).2 hslash with ⟨i', hi', -⟩
  exact ⟨_, gives_expressionset_eq_some_iff.2 ⟨c', _, i', hc', hi', rfl⟩, rfl⟩

theorem polynomialset_carries_of_context (ht : Halts t)
    (h : CarriesWithin SameKind t (fun w s => gives (context w s)) s) :
    Carries SameKind t (fun s => gives (polynomialset s)) s := by
  intro d r hd
  rcases gives_polynomialset_eq_some_iff.1 hd with ⟨c, hc, rfl⟩
  refine ⟨fun hslash => absurd hslash hc.not_slashed, fun _ => ?_⟩
  rcases hc.extend ht gives_context_nil h with ⟨c', hc', -⟩
  exact ⟨_, gives_polynomialset_eq_some_iff.2 ⟨c', hc', rfl⟩, rfl⟩

theorem context_carries_joined (hw : w ≠ "context".toList) {l v : Text}
    (hjoined : joined? w = some (l, v)) (hl : Carries SameKind t (fun s => gives (labelset l s)) s)
    (hv : ∀ r, r.length ≤ s.length → Carries SameKind t (fun s => gives (weightset v s)) r) :
    Carries SameKind t (fun s => gives (context w s)) s := by
  intro d r hd
  rcases (gives_context_joined_eq_some_iff hw hjoined).1 hd with
    ⟨labels, r₁, weights, hlabels, hweights, rfl⟩
  rcases hl labels r₁ hlabels with ⟨hkeeps, hcarried⟩
  rcases hv r₁ (length_le_of_gives hlabels) weights r hweights with ⟨hkeeps', hcarried'⟩
  refine ⟨fun hslash => hkeeps' (hkeeps hslash), fun hslash => ?_⟩
  rcases hcarried (fun hmid => hslash (hkeeps' hmid)) with ⟨labels', hlabels', -⟩
  rcases hcarried' hslash with ⟨weights', hweights', -⟩
  exact ⟨_, (gives_context_joined_eq_some_iff hw hjoined).2
    ⟨labels', _, weights', hlabels', hweights', rfl⟩, rfl⟩

theorem context_carries_separated (ht : Halts t) (hw : w ≠ "context".toList)
    (hjoined : joined? w = none) (hl : Carries SameKind t (fun s => gives (labelset w s)) s)
    (hv : ∀ {labels r₁ r₂}, gives (labelset w s) = some (labels, r₁) →
      leaves (separator r₁) = some r₂ →
      Carries SameKind t (fun s => gives (weightset (word r₂).value s)) (word r₂).rest) :
    Carries SameKind t (fun s => gives (context w s)) s := by
  intro d r hd
  rcases (gives_context_separated_eq_some_iff hw hjoined).1 hd with
    ⟨labels, r₁, r₂, weights, hlabels, hr₂, hweights, rfl⟩
  rcases separator_extend (t := t) hr₂ with ⟨hseparator, hmid⟩
  rcases hl labels r₁ hlabels with ⟨hkeeps, hcarried⟩
  refine ⟨fun hslash => absurd (hkeeps hslash) hmid, fun hslash => ?_⟩
  rcases hcarried hmid with ⟨labels', hlabels', -⟩
  have hopened := Carries.opened (F := fun v s => gives (weightset v s)) ht gives_weightset_nil
    (hv hlabels hr₂)
  rcases (hopened weights r hweights).2 hslash with ⟨weights', hweights', -⟩
  exact ⟨_, (gives_context_separated_eq_some_iff hw hjoined).2
    ⟨labels', _, _, weights', hlabels', hseparator, hweights', rfl⟩, rfl⟩

theorem product_carries_of_members
    (hd : ∀ {r}, leaves (expect '<' s) = some r →
      Carries SameKind t (fun s => gives (member s)) r)
    (hds : ∀ {r d r₁}, leaves (expect '<' s) = some r → gives (member r) = some (d, r₁) →
      CarriesAll t (fun s => gives (members s)) r₁) :
    Carries SameKind t (fun s => gives (product s)) s := by
  intro d r h
  rcases gives_product_eq_some_iff.1 h with ⟨e, es, r₂, hes, hclose, rfl⟩
  refine ⟨fun hslash => absurd hslash (hes.not_slashed (by decide)), fun _ => ?_⟩
  rcases hes.extend (by decide) hd hds (peek_of_expect hclose) with ⟨e', es', hes'⟩
  exact ⟨_, gives_product_eq_some_iff.2 ⟨e', es', _, hes', expect_extend (by decide) hclose, rfl⟩,
    rfl⟩

theorem members_carries_more (hmore : peek s = some ',')
    (hd : ∀ {r}, leaves (expect ',' s) = some r →
      Carries SameKind t (fun s => gives (member s)) r)
    (hds : ∀ {r d r₁}, leaves (expect ',' s) = some r → gives (member r) = some (d, r₁) →
      CarriesAll t (fun s => gives (members s)) r₁) :
    CarriesAll t (fun s => gives (members s)) s := by
  intro ds r h
  rcases (gives_members_more_eq_some_iff hmore).1 h with ⟨e, es, hes, rfl⟩
  refine ⟨fun hslash => absurd hslash (hes.not_slashed (by decide)), fun hclose => ?_⟩
  rcases hes.extend (by decide) hd hds hclose with ⟨e', es', hes'⟩
  exact ⟨_, (gives_members_more_eq_some_iff (peek_extend_of_ne (by decide) hmore)).2
    ⟨e', es', hes', rfl⟩⟩

theorem members_carries_none (hmore : peek s ≠ some ',') :
    CarriesAll t (fun s => gives (members s)) s := by
  intro ds r h
  cases (gives_members_none hmore).symm.trans h
  refine ⟨id, fun hclose => ⟨[], gives_members_none ?_⟩⟩
  rw [peek_extend hclose]
  decide

theorem member_carries_of_word (ht : Halts t)
    (h : Carries SameKind t (memberFrom (word s).value) (word s).rest) :
    Carries SameKind t (fun s => gives (member s)) s :=
  (Carries.opened ht gives_labelset_nil h).congr (gives_member_from s) fun _ => gives_member_from _

theorem nullableBody_carries_enclosed (ht : Halts t) (hpeek : peek s = some '<')
    (h : CarriesWithin SameKind t (fun w s => gives (labelset w s)) s) :
    Carries SameKind t (fun s => gives (nullableBody s)) s := by
  refine carries_of_wraps (F := nullableInner) ht gives_labelset_nil ?_
    (gives_nullableBody_inner_eq_some_iff hpeek)
    (gives_nullableBody_inner_eq_some_iff (peek_extend_of_ne (by decide) hpeek))
  intro r hr
  by_cases hletters : Keyword.isLetterType (word r).value ∨ (word r).value = "set_alphabet".toList
  · have hinner : ∀ s, nullableInner (word r).value s =
        (gives (genset (word r).value s)).bind fun p => some (.letterset p.1, p.2) :=
      fun _ => if_pos hletters
    exact ((genset_carries ht _ _).map .letterset fun _ _ _ => rfl).congr (hinner _)
      fun _ => hinner _
  · exact (h r hr).congr (if_neg hletters) fun _ => if_neg hletters

theorem nullableBody_carries_bare (ht : Halts t) (hbare : peek s ≠ some '<') :
    Carries SameKind t (fun s => gives (nullableBody s)) s :=
  ((alphabet_carries ht s).map (fun gens => .letterset (.genset Keyword.charLetters gens))
    fun _ _ _ => rfl).congr (gives_nullableBody_bare hbare) fun hslash =>
      gives_nullableBody_bare (peek_extend_ne hslash hbare ht.bracket)

end Productions

/-- What contexts are read from carries over, whatever its step. -/
def CarriesContexts (t : Text) : ContextProperty where
  labelset w s := Carries SameKind t (fun s => gives (labelset w s)) s
  expressionset usual s := Carries SameKind t (fun s => gives (expressionset usual s)) s
  context w s := Carries SameKind t (fun s => gives (context w s)) s
  weightset w s := Carries SameKind t (fun s => gives (weightset w s)) s
  product s := Carries SameKind t (fun s => gives (product s)) s
  members s := CarriesAll t (fun s => gives (members s)) s
  member s := Carries SameKind t (fun s => gives (member s)) s
  polynomialset s := Carries SameKind t (fun s => gives (polynomialset s)) s
  nullableBody s := Carries SameKind t (fun s => gives (nullableBody s)) s

theorem carriesContexts (ht : Halts t) : (CarriesContexts t).Holds := by
  apply ContextProperty.holds <;> dsimp only [CarriesContexts]
  -- Label sets.
  case lettered =>
    intro w s shape letters hform
    exact ((alphabet_carries ht s).map (fun gens => shape.over (.genset letters gens))
      fun _ _ _ => shape_over_sameKind shape _ _).congr (gives_labelset_lettered hform s)
        fun _ => gives_labelset_lettered hform _
  case typed =>
    intro w s shape hform
    exact ((typedGenset_carries ht s).map shape.over fun _ _ _ => shape_over_sameKind shape _ _).congr
      (gives_labelset_typed hform s) fun _ => gives_labelset_typed hform _
  case nullable =>
    intro w s hform ih
    exact (ih.map .nullableset fun _ _ _ => rfl).congr (gives_labelset_nullable hform s) fun _ =>
      gives_labelset_nullable hform _
  case one =>
    intro w s hform d r h
    cases (gives_labelset_one hform s).symm.trans h
    exact ⟨id, fun _ => ⟨.oneset, gives_labelset_one hform _, rfl⟩⟩
  case labelProduct =>
    intro w s hform ih
    exact ih.congr (gives_labelset_product hform s) fun _ => gives_labelset_product hform _
  case labelExpressions =>
    intro w s usual hform ih
    exact ih.congr (gives_labelset_expressions hform s) fun _ =>
      gives_labelset_expressions hform _
  case unnamedLabelset =>
    intro s
    exact (unnamedLabelset_carries ht s).congr (gives_labelset_unnamed s) fun _ =>
      gives_labelset_unnamed _
  case unknownLabelset =>
    intro w s hform hw
    exact carries_of_none (gives_labelset_unknown hform hw s)
  case enclosed =>
    intro s henclosed ih
    exact nullableBody_carries_enclosed ht henclosed fun r hr => ih r (length_lt_of_leaves hr)
  case bare =>
    intro s hbare
    exact nullableBody_carries_bare ht hbare
  -- Expression sets and contexts.
  case expressionset =>
    intro usual s ih
    exact expressionset_carries_of_context ht fun r hr => ih r (length_lt_of_leaves hr)
  case wrapped =>
    intro s ih
    exact carries_of_wraps (F := fun w s => gives (context w s)) ht gives_context_nil
      (fun r hr => ih r (length_lt_of_leaves hr))
      gives_context_wrapped_eq_some_iff gives_context_wrapped_eq_some_iff
  case joined =>
    intro w s l v hw hjoined ihl ihv
    exact context_carries_joined hw hjoined ihl ihv
  case separated =>
    intro w s hw hjoined ihl ihv
    exact context_carries_separated ht hw hjoined ihl fun hlabels hr =>
      ihv _ (Nat.lt_of_lt_of_le (length_lt_of_leaves hr) (length_le_of_gives hlabels))
  -- Weight sets.
  case terminal =>
    intro w s hform d r h
    cases (gives_weightset_terminal hform s).symm.trans h
    exact ⟨id, fun _ => ⟨.weightset w, gives_weightset_terminal hform _, rfl⟩⟩
  case weightExpressions =>
    intro w s usual hform ih
    exact ih.congr (gives_weightset_expressions hform s) fun _ =>
      gives_weightset_expressions hform _
  case weightPolynomials =>
    intro w s hform ih
    exact ih.congr (gives_weightset_polynomials hform s) fun _ =>
      gives_weightset_polynomials hform _
  case weightProduct =>
    intro w s hform ih
    exact ih.congr (gives_weightset_product hform s) fun _ => gives_weightset_product hform _
  case unknownWeightset =>
    intro w s hform
    exact carries_of_none (gives_weightset_unknown hform s)
  case polynomialset =>
    intro s ih
    exact polynomialset_carries_of_context ht fun r hr => ih r (length_lt_of_leaves hr)
  -- Products and their members.
  case product =>
    intro s ihd ihds
    exact product_carries_of_members (fun hr => ihd _ (length_lt_of_leaves hr)) fun hr he =>
      ihds _ (Nat.lt_of_le_of_lt (length_le_of_gives he) (length_lt_of_leaves hr))
  case moreMembers =>
    intro s hmore ihd ihds
    exact members_carries_more hmore (fun hr => ihd _ (length_lt_of_leaves hr)) fun hr he =>
      ihds _ (Nat.lt_of_le_of_lt (length_le_of_gives he) (length_lt_of_leaves hr))
  case noMembers =>
    intro s hmore
    exact members_carries_none hmore
  case weightMember =>
    intro s hopens ih
    exact member_carries_of_word ht (ih.congr (if_pos hopens) fun _ => if_pos hopens)
  case labelMember =>
    intro s hopens hlabels ih
    have hfrom : ∀ r, memberFrom (word s).value r = gives (labelset (word s).value r) := by
      intro r
      rw [memberFrom, if_neg hopens, if_pos hlabels]
    exact member_carries_of_word ht (ih.congr (hfrom _) fun _ => hfrom _)
  case unknownMember =>
    intro s hopens hlabels
    exact member_carries_of_word ht (carries_of_none ((if_neg hopens).trans (if_neg hlabels)))

theorem labelset_carries (ht : Halts t) (w s : Text) :
    Carries SameKind t (fun s => gives (labelset w s)) s :=
  (carriesContexts ht).labelset w s

theorem expressionset_carries (ht : Halts t) (usual : Identities) (s : Text) :
    Carries SameKind t (fun s => gives (expressionset usual s)) s :=
  (carriesContexts ht).expressionset usual s

theorem context_carries (ht : Halts t) (w s : Text) :
    Carries SameKind t (fun s => gives (context w s)) s :=
  (carriesContexts ht).context w s

theorem weightset_carries (ht : Halts t) (w s : Text) :
    Carries SameKind t (fun s => gives (weightset w s)) s :=
  (carriesContexts ht).weightset w s

theorem polynomialset_carries (ht : Halts t) (s : Text) :
    Carries SameKind t (fun s => gives (polynomialset s)) s :=
  (carriesContexts ht).polynomialset s

/-! ## Types -/

theorem expansionset_carries (ht : Halts t) (s : Text) :
    Carries SameKind t (fun s => gives (expansionset s)) s := by
  intro d r h
  rcases gives_expansionset_eq_some_iff.1 h with ⟨e, he, rfl⟩
  refine ⟨fun hslash => absurd hslash he.not_slashed, fun _ => ?_⟩
  have hbody : CarriesWithin SameKind t expansionBody s := by
    intro r₀ _
    unfold expansionBody
    split
    next usual _ => exact expressionset_carries ht usual _
    next => exact carries_of_none rfl
  rcases he.extend ht (by decide) hbody with ⟨e', he', -⟩
  exact ⟨_, gives_expansionset_eq_some_iff.2 ⟨e', he', rfl⟩, rfl⟩

theorem opaqueName_carries (ht : Halts t) (w s : Text) :
    Carries SameKind t (fun s => gives (opaqueName w s)) s := by
  intro d r h
  dsimp only at h ⊢
  by_cases hpeek : peek s = some '<'
  · rw [gives_opaqueName_applied w hpeek, gives_parameters] at h
    rcases Option.bind_eq_some_iff.1 h with ⟨⟨raw, r₁⟩, hraw, h⟩
    cases h
    rcases Option.bind_eq_some_iff.1 hraw with ⟨r₀, hr₀, hraw⟩
    rcases Option.bind_eq_some_iff.1 hraw with ⟨⟨inner, r₂⟩, hinner, hraw⟩
    cases hraw
    refine ⟨fun hslash => absurd hslash (not_slashed_of_expect (by decide) hr₀), fun _ => ?_⟩
    rcases enclosed_extend (t := t) hinner with ⟨inner', hinner'⟩
    refine ⟨.other (w ++ ('<' :: Parameters.canonical inner' ++ ['>'])), ?_, rfl⟩
    rw [gives_opaqueName_applied w (by rw [peek_extend hpeek]; rfl), gives_parameters,
      expect_extend (by decide) hr₀, Option.bind_some, hinner']
    rfl
  · rw [gives_opaqueName_bare w hpeek] at h
    cases h
    exact ⟨id, fun hslash => ⟨.other w,
      gives_opaqueName_bare w (peek_extend_ne hslash hpeek ht.bracket), rfl⟩⟩

theorem unnamedType_carries (ht : Halts t) (s : Text) :
    Carries SameKind t (fun s => gives (unnamedType s)) s := by
  intro d r h
  dsimp only at h ⊢
  have hopens : peek s = some '[' ∨ peek s = some '<' := by
    by_cases hbracket : peek s = some '['
    · exact .inl hbracket
    · by_cases htyped : peek s = some '<'
      · exact .inr htyped
      · rw [gives_unnamedType_none hbracket htyped] at h
        cases h
  have hopens' : peek (extend t s) = some '[' ∨ peek (extend t s) = some '<' := by
    rcases hopens with hpeek | hpeek
    · exact .inl (by rw [peek_extend hpeek]; rfl)
    · exact .inr (by rw [peek_extend hpeek]; rfl)
  rw [gives_unnamedType hopens] at h
  rw [gives_unnamedType hopens']
  exact labelset_carries ht [] s d r h

theorem gives_unnamedType_empty : gives (unnamedType []) = none :=
  gives_unnamedType_none (by decide) (by decide)

theorem gives_typeFrom_nil : gives (typeFrom [] []) = none :=
  (gives_typeFrom_unnamed []).trans gives_unnamedType_empty

/-- A type is read when what its first word opens is read. -/
theorem type_carries_of_word (ht : Halts t)
    (h : Carries SameKind t (fun r => gives (typeFrom (word s).value r)) (word s).rest) :
    Carries SameKind t (fun s => gives (type s)) s :=
  (Carries.opened (F := fun w s => gives (typeFrom w s)) ht gives_typeFrom_nil h).congr
    (gives_type s) fun _ => gives_type _

/-- A type that begins like a weight set is that weight set. -/
theorem weightset_of_typeFrom {w s : Text} {form : WeightForm}
    (hform : Keyword.weightForm? w = some form) {x : Descriptor × Text}
    (h : gives (typeFrom w s) = some x) : ∃ y, gives (weightset w s) = some y := by
  unfold Keyword.weightForm? at hform
  by_cases hterminal : Keyword.isTerminal w = true
  · rw [if_pos hterminal] at hform
    cases hform
    exact ⟨_, gives_weightset_terminal (by rw [Keyword.weightForm?, if_pos hterminal]) s⟩
  · rw [if_neg hterminal] at hform
    have hmem := Text.mem_of_lookup hform
    -- The words that open weight sets with parameters open the same as types.
    simp only [Keyword.composites, List.mem_cons, Prod.mk.injEq, List.not_mem_nil, or_false] at hmem
    rcases hmem with ⟨rfl, rfl⟩ | ⟨rfl, rfl⟩ | ⟨rfl, rfl⟩ | ⟨rfl, rfl⟩ | ⟨rfl, rfl⟩
    · have hopening : Keyword.Opening.ofWord (Keyword.withoutNamespace "expressionset".toList) =
          .expressions .usual := by decide
      rw [gives_typeFrom_expressions (by decide) hopening] at h
      exact ⟨x, (gives_weightset_expressions (by decide) s).trans h⟩
    · have hopening : Keyword.Opening.ofWord (Keyword.withoutNamespace "seriesset".toList) =
          .expressions .distributive := by decide
      rw [gives_typeFrom_expressions (by decide) hopening] at h
      exact ⟨x, (gives_weightset_expressions (by decide) s).trans h⟩
    · rw [gives_typeFrom_polynomials (by decide) (by decide)] at h
      exact ⟨x, (gives_weightset_polynomials (by decide) s).trans h⟩
    · rw [gives_typeFrom_labelset (by decide) (by decide)] at h
      have heq : Keyword.withoutNamespace "lat".toList = "lat".toList := by decide
      rw [heq, gives_labelset_product (by decide)] at h
      exact ⟨x, (gives_weightset_product (by decide) s).trans h⟩
    · rw [gives_typeFrom_labelset (by decide) (by decide)] at h
      have heq : Keyword.withoutNamespace "tupleset".toList = "tupleset".toList := by decide
      rw [heq, gives_labelset_product (by decide)] at h
      exact ⟨x, (gives_weightset_product (by decide) s).trans h⟩

/-- The types after the first one, which begins with a word that carries over. -/
def CarriesTypes (t s : Text) : Prop :=
  CarriesAll t (fun s => gives (types s)) s ∧
    ∀ r, leaves (expect ',' s) = some r →
      Carries SameKind t (fun r' => gives (typeFrom (word r).value r')) (word r).rest

/--
Where a label set stands alone at the front of an automaton type, no context is read there from the
extended text either.
-/
theorem context_extend_none (ht : Halts t) {w s r₁ r₂ r₃ : Text} {d : Descriptor}
    {ds : List Descriptor} (hw : Keyword.isLabelset w = true)
    (hcontext : gives (context w s) = none) (hlabels : gives (labelset w s) = some (d, r₁))
    (hcarries : CarriesTypes t r₁) (htypes : gives (types r₁) = some (ds, r₂))
    (hclose : leaves (expect '>' r₂) = some r₃) : gives (context w (extend t s)) = none := by
  have hword : w ≠ "context".toList := by
    rintro rfl
    revert hw
    decide
  have hjoined : joined? w = none := if_pos hw
  have hslash₂ : ¬Slashed r₂ := not_slashed_of_expect (by decide) hclose
  have hslash₁ : ¬Slashed r₁ := fun h => hslash₂ ((hcarries.1 _ _ htypes).1 h)
  rcases (labelset_carries ht w s _ _ hlabels).2 hslash₁ with ⟨d', hd', -⟩
  dsimp only at hd'
  rw [gives_context_separated hword hjoined, hd', Option.bind_some]
  rw [gives_context_separated hword hjoined, hlabels, Option.bind_some] at hcontext
  by_cases hmore : peek r₁ = some ','
  · -- Behind the comma stands a type, and it would have to be a weight set.
    rcases (gives_types_more_eq_some_iff hmore).1 htypes with
      ⟨e, es, ⟨y, z, hy, he, hes⟩, rfl⟩
    have hseparator : leaves (separator r₁) = some y := separator_of_comma hy
    dsimp only at he
    rw [gives_type] at he
    -- A slash behind the word would stay up to where the bracket has to end.
    have hslash : ¬Slashed (word y).rest := by
      intro hrest
      have hz : Slashed z := (hcarries.2 y hy _ _ he).1 hrest
      have hnomore : peek z ≠ some ',' := by
        rw [Slashed] at hz
        rw [hz]
        decide
      cases (gives_types_none hnomore).symm.trans hes
      exact hslash₂ hz
    have hne : peek y ≠ none := by
      intro hnone
      rw [(word_of_peek_none hnone).1, (word_of_peek_none hnone).2, gives_typeFrom_nil] at he
      cases he
    rcases word_extend ht hne hslash with ⟨hvalue, hrest⟩
    rw [(separator_extend hseparator).1, Option.bind_some, hvalue, hrest]
    rw [hseparator, Option.bind_some] at hcontext
    -- The word opens the same in both texts. As a weight set, it would have been read before.
    cases hform : Keyword.weightForm? (word y).value with
    | none =>
        rw [gives_weightset_unknown hform]
        rfl
    | some form =>
        rcases weightset_of_typeFrom hform he with ⟨x, hx⟩
        rw [hx] at hcontext
        cases hcontext
  · cases (gives_types_none hmore).symm.trans htypes
    rw [separator_of_close (peek_extend_of_ne (by decide) (peek_of_expect hclose))]
    rfl

/-- The first child of an automaton type, where the rest of the type is read behind it. -/
theorem firstContext_carries (ht : Halts t) {w s r₁ r₂ r₃ : Text} {d : Descriptor}
    {ds : List Descriptor} (h : gives (firstContext w s) = some (d, r₁))
    (hcarries : CarriesTypes t r₁) (htypes : gives (types r₁) = some (ds, r₂))
    (hclose : leaves (expect '>' r₂) = some r₃) :
    (Slashed s → Slashed r₁) ∧ (¬Slashed r₁ →
      ∃ d', gives (firstContext w (extend t s)) = some (d', extend t r₁) ∧ SameKind d d') := by
  rw [gives_firstContext] at h ⊢
  cases hcontext : gives (context w s) with
  | some x =>
      rw [hcontext] at h
      cases h
      rcases context_carries ht w s _ _ hcontext with ⟨hkeeps, hextend⟩
      refine ⟨hkeeps, fun hslash => ?_⟩
      rcases hextend hslash with ⟨d', hd', hkind⟩
      dsimp only at hd'
      exact ⟨d', by rw [hd']; rfl, hkind⟩
  | none =>
      rw [hcontext, Option.none_or] at h
      split at h
      next hlabels =>
          rcases labelset_carries ht w s _ _ h with ⟨hkeeps, hextend⟩
          refine ⟨hkeeps, fun hslash => ?_⟩
          rw [context_extend_none ht hlabels hcontext h hcarries htypes hclose, Option.none_or,
            if_pos hlabels]
          exact hextend hslash
      next => cases h

theorem firstChild_carries (ht : Halts t) {w s r₁ r₂ r₃ : Text} {d : Descriptor}
    {ds : List Descriptor} (h : firstChild w s = some (d, r₁)) (hcarries : CarriesTypes t r₁)
    (htypes : gives (types r₁) = some (ds, r₂)) (hclose : leaves (expect '>' r₂) = some r₃)
    (htype : Carries SameKind t (fun s => gives (typeFrom w s)) s) :
    Carries SameKind t (firstChild w) s := by
  unfold firstChild at h ⊢
  by_cases hopens : opensContext w = true
  · simp only [if_pos hopens] at h ⊢
    -- The step reads one thing only, and the types behind that are known.
    intro d' r' h'
    cases h.symm.trans h'
    exact firstContext_carries ht h hcarries htypes hclose
  · simp only [if_neg hopens]
    exact htype

theorem firstChild_nil : firstChild [] [] = none := by
  rw [firstChild, if_neg (by decide)]
  exact gives_typeFrom_nil

theorem constant?_of_sameKind {d d' e : Descriptor} (h : SameKind d d')
    (hd : constant? d = some e) : ∃ e', constant? d' = some e' ∧ SameKind e e' := by
  rw [SameKind, hd] at h
  obtain ⟨e', he'⟩ := Option.isSome_iff_exists.1 h
  -- What is constant is an opaque name again.
  have hname : ∀ {d e : Descriptor}, constant? d = some e → (constant? e).isSome = true := by
    intro d e hd
    cases d with
    | other name =>
        cases hd
        rfl
    | _ => cases hd
  exact ⟨e', he', (hname he').trans (hname hd).symm⟩

theorem tuple_carries_of_types
    (hd : ∀ {r}, leaves (expect '<' s) = some r → Carries SameKind t (fun s => gives (type s)) r)
    (hds : ∀ {r d r₁}, leaves (expect '<' s) = some r → gives (type r) = some (d, r₁) →
      CarriesAll t (fun s => gives (types s)) r₁) :
    Carries SameKind t (fun s => gives (tuple s)) s := by
  intro d r h
  rcases gives_tuple_eq_some_iff.1 h with ⟨e, es, r₂, hes, hclose, rfl⟩
  refine ⟨fun hslash => absurd hslash (hes.not_slashed (by decide)), fun _ => ?_⟩
  rcases hes.extend (by decide) hd hds (peek_of_expect hclose) with ⟨e', es', hes'⟩
  exact ⟨_, gives_tuple_eq_some_iff.2 ⟨e', es', _, hes', expect_extend (by decide) hclose, rfl⟩,
    rfl⟩

theorem types_carries_more (hmore : peek s = some ',')
    (hd : ∀ {r}, leaves (expect ',' s) = some r → Carries SameKind t (fun s => gives (type s)) r)
    (hds : ∀ {r d r₁}, leaves (expect ',' s) = some r → gives (type r) = some (d, r₁) →
      CarriesAll t (fun s => gives (types s)) r₁) :
    CarriesAll t (fun s => gives (types s)) s := by
  intro ds r h
  rcases (gives_types_more_eq_some_iff hmore).1 h with ⟨e, es, hes, rfl⟩
  refine ⟨fun hslash => absurd hslash (hes.not_slashed (by decide)), fun hclose => ?_⟩
  rcases hes.extend (by decide) hd hds hclose with ⟨e', es', hes'⟩
  exact ⟨_, (gives_types_more_eq_some_iff (peek_extend_of_ne (by decide) hmore)).2
    ⟨e', es', hes', rfl⟩⟩

theorem types_carries_none (hmore : peek s ≠ some ',') :
    CarriesAll t (fun s => gives (types s)) s := by
  intro ds r h
  cases (gives_types_none hmore).symm.trans h
  refine ⟨id, fun hclose => ⟨[], gives_types_none ?_⟩⟩
  rw [peek_extend hclose]
  decide

/-- The first child of an automaton type may be a context or a label set of its own. -/
theorem automaton_carries_of_types (ht : Halts t) {name : Text}
    (hd : ∀ {r}, leaves (expect '<' s) = some r →
      Carries SameKind t (fun s => gives (typeFrom (word r).value s)) (word r).rest)
    (hds : ∀ {r r₁}, leaves (expect '<' s) = some r → r₁.length ≤ (word r).rest.length →
      CarriesTypes t r₁) :
    Carries SameKind t (fun s => gives (automaton name s)) s := by
  intro d r h
  rcases gives_automaton_eq_some_iff.1 h with ⟨e, es, r₂, ⟨r₀, r₁, hopen, he, hes⟩, hclose, rfl⟩
  refine ⟨fun hslash => absurd hslash (not_slashed_of_expect (by decide) hopen), fun _ => ?_⟩
  have hcarries : CarriesTypes t r₁ := hds hopen (length_le_of_gives he)
  rcases hcarries.1 _ _ hes with ⟨hkeeps, hcarried⟩
  have hmid : ¬Slashed r₁ := fun h => not_slashed_of_expect (by decide) hclose (hkeeps h)
  rcases hcarried (peek_of_expect hclose) with ⟨es', hes'⟩
  have hfirst := firstChild_carries ht he hcarries hes hclose (hd hopen)
  rcases (Carries.opened ht firstChild_nil hfirst e r₁ he).2 hmid with ⟨e', he', -⟩
  exact ⟨_, gives_automaton_eq_some_iff.2 ⟨e', es', _,
    ⟨_, _, expect_extend (by decide) hopen, he', hes'⟩, expect_extend (by decide) hclose, rfl⟩, rfl⟩

/-- What types are read from carries over, once their first word has been read. -/
def CarriesFrom (t : Text) : TypeProperty where
  type s := Carries SameKind t (fun r => gives (typeFrom (word s).value r)) (word s).rest
  typeFrom w s := Carries SameKind t (fun s => gives (typeFrom w s)) s
  tuple s := Carries SameKind t (fun s => gives (tuple s)) s
  types s := CarriesTypes t s
  automaton name s := Carries SameKind t (fun s => gives (automaton name s)) s

theorem carriesFrom (ht : Halts t) : (CarriesFrom t).Holds := by
  apply TypeProperty.holds <;> dsimp only [CarriesFrom]
  case byWord =>
    intro s ih
    exact ih
  -- Types, by what their first word announces.
  case unnamed =>
    intro s
    exact (unnamedType_carries ht s).congr (gives_typeFrom_unnamed s) fun _ =>
      gives_typeFrom_unnamed _
  case opensAutomaton =>
    intro w s hw hopening ih
    exact ih.congr (gives_typeFrom_automaton hw hopening s) fun _ =>
      gives_typeFrom_automaton hw hopening _
  case opensContext =>
    intro w s hw hopening
    exact (context_carries ht _ s).congr (gives_typeFrom_context hw hopening s) fun _ =>
      gives_typeFrom_context hw hopening _
  case opensExpressions =>
    intro w s usual hw hopening
    exact (expressionset_carries ht usual s).congr (gives_typeFrom_expressions hw hopening s)
      fun _ => gives_typeFrom_expressions hw hopening _
  case opensExpansions =>
    intro w s hw hopening
    exact (expansionset_carries ht s).congr (gives_typeFrom_expansions hw hopening s) fun _ =>
      gives_typeFrom_expansions hw hopening _
  case opensPolynomials =>
    intro w s hw hopening
    exact (polynomialset_carries ht s).congr (gives_typeFrom_polynomials hw hopening s) fun _ =>
      gives_typeFrom_polynomials hw hopening _
  case opensTuple =>
    intro w s hw hopening ih
    exact ih.congr (gives_typeFrom_tuple hw hopening s) fun _ =>
      gives_typeFrom_tuple hw hopening _
  case opensConst =>
    intro w s hw hopening ih
    exact ((type_carries_of_word ht ih).filterMap constant? fun _ _ _ => constant?_of_sameKind).congr
      (gives_typeFrom_const hw hopening s) fun _ => gives_typeFrom_const hw hopening _
  case opensTerminal =>
    intro w s hw hopening
    exact (weightset_carries ht _ s).congr (gives_typeFrom_terminal hw hopening s) fun _ =>
      gives_typeFrom_terminal hw hopening _
  case opensLabelset =>
    intro w s hw hopening
    exact (labelset_carries ht _ s).congr (gives_typeFrom_labelset hw hopening s) fun _ =>
      gives_typeFrom_labelset hw hopening _
  case opensOpaque =>
    intro w s hw hopening
    exact (opaqueName_carries ht _ s).congr (gives_typeFrom_opaqueName hw hopening s) fun _ =>
      gives_typeFrom_opaqueName hw hopening _
  -- Tuples, lists of types and automaton types.
  case tuple =>
    intro s ihd ihds
    exact tuple_carries_of_types
      (fun hr => type_carries_of_word ht (ihd _ (length_lt_of_leaves hr))) fun hr he =>
        (ihds _ (Nat.lt_of_le_of_lt (length_le_of_gives he) (length_lt_of_leaves hr))).1
  case moreTypes =>
    intro s hmore ihd ihds
    exact ⟨types_carries_more hmore
      (fun hr => type_carries_of_word ht (ihd _ (length_lt_of_leaves hr))) fun hr he =>
        (ihds _ (Nat.lt_of_le_of_lt (length_le_of_gives he) (length_lt_of_leaves hr))).1,
      fun r hr => ihd r (length_lt_of_leaves hr)⟩
  case noTypes =>
    intro s hmore
    exact ⟨types_carries_none hmore, fun r hr => absurd (peek_of_expect hr) hmore⟩
  case automaton =>
    intro name s ihd ihds
    exact automaton_carries_of_types ht (fun hr => ihd _ (length_lt_of_leaves hr)) fun hr hle =>
      ihds _ (Nat.lt_of_le_of_lt (Nat.le_trans hle (length_word_le _)) (length_lt_of_leaves hr))

theorem type_carries (ht : Halts t) (s : Text) :
    Carries SameKind t (fun s => gives (type s)) s :=
  type_carries_of_word ht ((carriesFrom ht).type s)

end Carrying
end Reader
end OnDemand
