import OnDemand.Proofs.Descriptor.Steps

/-!
# Induction over the steps of the reader

The steps of a family call each other on shorter texts.  A property of each of them
(`ContextProperty`, `TypeProperty`) holds of all as soon as each step has it whenever the steps that
it calls have it.  There is one case for each thing that a step may read, named for it.  Here alone
it matters in which order the steps test what they read.
-/

namespace OnDemand
namespace Reader

/-! ## Contexts -/

/-- A property of each step of the family that reads contexts. -/
structure ContextProperty where
  labelset : Text → Text → Prop
  expressionset : Identities → Text → Prop
  context : Text → Text → Prop
  weightset : Text → Text → Prop
  product : Text → Prop
  members : Text → Prop
  member : Text → Prop
  polynomialset : Text → Prop
  nullableBody : Text → Prop

namespace ContextProperty

/-- Every step has its property. -/
structure Holds (P : ContextProperty) : Prop where
  labelset : ∀ w s, P.labelset w s
  expressionset : ∀ usual s, P.expressionset usual s
  context : ∀ w s, P.context w s
  weightset : ∀ w s, P.weightset w s
  product : ∀ s, P.product s
  members : ∀ s, P.members s
  member : ∀ s, P.member s
  polynomialset : ∀ s, P.polynomialset s
  nullableBody : ∀ s, P.nullableBody s

theorem holds {P : ContextProperty}
    -- Label sets, by the form of the word that opens them.
    (lettered : ∀ w s shape letters, Keyword.labelForm? w = some (.lettered shape letters) →
      P.labelset w s)
    (typed : ∀ w s shape, Keyword.labelForm? w = some (.typed shape) → P.labelset w s)
    (nullable : ∀ w s, Keyword.labelForm? w = some .nullable → P.nullableBody s → P.labelset w s)
    (one : ∀ w s, Keyword.labelForm? w = some .one → P.labelset w s)
    (labelProduct : ∀ w s, Keyword.labelForm? w = some .product → P.product s → P.labelset w s)
    (labelExpressions : ∀ w s usual, Keyword.labelForm? w = some (.expressions usual) →
      P.expressionset usual s → P.labelset w s)
    (unnamedLabelset : ∀ s, P.labelset [] s)
    (unknownLabelset : ∀ w s, Keyword.labelForm? w = none → w ≠ [] → P.labelset w s)
    -- Behind `nullableset`.
    (enclosed : ∀ s, peek s = some '<' →
      (∀ r : Text, r.length < s.length → P.labelset (word r).value (word r).rest) →
      P.nullableBody s)
    (bare : ∀ s, peek s ≠ some '<' → P.nullableBody s)
    -- Expression sets and contexts.
    (expressionset : ∀ usual s,
      (∀ r : Text, r.length < s.length → P.context (word r).value (word r).rest) →
      P.expressionset usual s)
    (wrapped : ∀ s,
      (∀ r : Text, r.length < s.length → P.context (word r).value (word r).rest) →
      P.context "context".toList s)
    (joined : ∀ w s l v, w ≠ "context".toList → joined? w = some (l, v) → P.labelset l s →
      (∀ r : Text, r.length ≤ s.length → P.weightset v r) → P.context w s)
    (separated : ∀ w s, w ≠ "context".toList → joined? w = none → P.labelset w s →
      (∀ r : Text, r.length < s.length → P.weightset (word r).value (word r).rest) →
      P.context w s)
    -- Weight sets, by the form of the word that opens them.
    (terminal : ∀ w s, Keyword.weightForm? w = some .terminal → P.weightset w s)
    (weightExpressions : ∀ w s usual, Keyword.weightForm? w = some (.expressions usual) →
      P.expressionset usual s → P.weightset w s)
    (weightPolynomials : ∀ w s, Keyword.weightForm? w = some .polynomials → P.polynomialset s →
      P.weightset w s)
    (weightProduct : ∀ w s, Keyword.weightForm? w = some .product → P.product s → P.weightset w s)
    (unknownWeightset : ∀ w s, Keyword.weightForm? w = none → P.weightset w s)
    (polynomialset : ∀ s,
      (∀ r : Text, r.length < s.length → P.context (word r).value (word r).rest) →
      P.polynomialset s)
    -- Products and their members.
    (product : ∀ s, (∀ r : Text, r.length < s.length → P.member r) →
      (∀ r : Text, r.length < s.length → P.members r) → P.product s)
    (moreMembers : ∀ s, peek s = some ',' → (∀ r : Text, r.length < s.length → P.member r) →
      (∀ r : Text, r.length < s.length → P.members r) → P.members s)
    (noMembers : ∀ s, peek s ≠ some ',' → P.members s)
    (weightMember : ∀ s,
      Keyword.isTerminal (word s).value = true ∨ (word s).value = "polynomialset".toList →
      P.weightset (word s).value (word s).rest → P.member s)
    (labelMember : ∀ s,
      ¬(Keyword.isTerminal (word s).value = true ∨ (word s).value = "polynomialset".toList) →
      Keyword.isLabelset (word s).value = true ∨ (word s).value = [] →
      P.labelset (word s).value (word s).rest → P.member s)
    (unknownMember : ∀ s,
      ¬(Keyword.isTerminal (word s).value = true ∨ (word s).value = "polynomialset".toList) →
      ¬(Keyword.isLabelset (word s).value = true ∨ (word s).value = []) → P.member s) :
    P.Holds := by
  have hmembers {s : Text} (ih : ∀ r : Text, r.length < s.length →
      ∀ r₁ : Text, r₁.length ≤ r.length → P.members r₁) (r : Text) (hr : r.length < s.length) :
      P.members r :=
    ih r hr r (Nat.le_refl _)
  have hsteps := labelset.mutual_induct P.labelset P.expressionset P.context P.weightset P.product
    P.members P.member P.polynomialset P.nullableBody lettered typed nullable one labelProduct
    labelExpressions (fun s _ => unnamedLabelset s) unknownLabelset
    (fun usual s ih => expressionset usual s fun r hr => ih r hr _ _ (length_word_le r))
    (fun s ih => wrapped s fun r hr => ih r hr _ _ (length_word_le r))
    (fun w s hw l v hjoined => joined w s l v hw hjoined)
    (fun w s hw hjoined ihl ihv => separated w s hw hjoined ihl fun r hr =>
      ihv s (Nat.le_refl _) r hr _ _ (length_word_le r))
    terminal weightExpressions weightPolynomials weightProduct
    (fun w s hform _ => unknownWeightset w s hform) (fun w s hform _ => unknownWeightset w s hform)
    (fun s ihd ihds => product s ihd (hmembers ihds))
    (fun s hmore ihd ihds => moreMembers s hmore ihd (hmembers ihds)) noMembers
    (fun s w r hr hword hopens ih => weightMember s (by rwa [hword]) (by rwa [hword]))
    (fun s w r hr hword hnot hopens ih =>
      labelMember s (by rwa [hword]) (by rwa [hword]) (by rwa [hword]))
    (fun s w r hr hword hnot hnone => unknownMember s (by rwa [hword]) (by rwa [hword]))
    (fun s ih => polynomialset s fun r hr => ih r hr _ _ (length_word_le r))
    (fun s hopens ih => enclosed s hopens fun r hr => ih r hr _ _ (length_word_le r)) bare
  obtain ⟨hl, he, hc, hw, hp, hms, hm, hpoly, hn⟩ := hsteps
  exact ⟨hl, he, hc, hw, hp, hms, hm, hpoly, hn⟩

end ContextProperty

/-! ## Types -/

/-- A property of each step of the family that reads types. -/
structure TypeProperty where
  type : Text → Prop
  typeFrom : Text → Text → Prop
  tuple : Text → Prop
  types : Text → Prop
  automaton : Text → Text → Prop

namespace TypeProperty

/-- Every step has its property. -/
structure Holds (P : TypeProperty) : Prop where
  type : ∀ s, P.type s
  typeFrom : ∀ w s, P.typeFrom w s
  tuple : ∀ s, P.tuple s
  types : ∀ s, P.types s
  automaton : ∀ name s, P.automaton name s

/-- A word opens what it opens without the namespace in front of it. -/
theorem holds {P : TypeProperty}
    (byWord : ∀ s, P.typeFrom (word s).value (word s).rest → P.type s)
    -- Types, by what their first word opens.
    (unnamed : ∀ s, P.typeFrom [] s)
    (opensAutomaton : ∀ w s, w ≠ [] →
      Keyword.Opening.ofWord (Keyword.withoutNamespace w) = .automaton →
      P.automaton (Keyword.withoutNamespace w) s → P.typeFrom w s)
    (opensContext : ∀ w s, w ≠ [] →
      Keyword.Opening.ofWord (Keyword.withoutNamespace w) = .context ∨
        Keyword.Opening.ofWord (Keyword.withoutNamespace w) = .joined → P.typeFrom w s)
    (opensExpressions : ∀ w s usual, w ≠ [] →
      Keyword.Opening.ofWord (Keyword.withoutNamespace w) = .expressions usual → P.typeFrom w s)
    (opensExpansions : ∀ w s, w ≠ [] →
      Keyword.Opening.ofWord (Keyword.withoutNamespace w) = .expansions → P.typeFrom w s)
    (opensPolynomials : ∀ w s, w ≠ [] →
      Keyword.Opening.ofWord (Keyword.withoutNamespace w) = .polynomials → P.typeFrom w s)
    (opensTuple : ∀ w s, w ≠ [] →
      Keyword.Opening.ofWord (Keyword.withoutNamespace w) = .tuple → P.tuple s → P.typeFrom w s)
    (opensConst : ∀ w s, w ≠ [] →
      Keyword.Opening.ofWord (Keyword.withoutNamespace w) = .const → P.type s → P.typeFrom w s)
    (opensTerminal : ∀ w s, w ≠ [] →
      Keyword.Opening.ofWord (Keyword.withoutNamespace w) = .terminal → P.typeFrom w s)
    (opensLabelset : ∀ w s, w ≠ [] →
      Keyword.Opening.ofWord (Keyword.withoutNamespace w) = .labelset → P.typeFrom w s)
    (opensOpaque : ∀ w s, w ≠ [] →
      Keyword.Opening.ofWord (Keyword.withoutNamespace w) = .opaqueName → P.typeFrom w s)
    -- Tuples, lists of types and automaton types.
    (tuple : ∀ s, (∀ r : Text, r.length < s.length → P.type r) →
      (∀ r : Text, r.length < s.length → P.types r) → P.tuple s)
    (moreTypes : ∀ s, peek s = some ',' → (∀ r : Text, r.length < s.length → P.type r) →
      (∀ r : Text, r.length < s.length → P.types r) → P.types s)
    (noTypes : ∀ s, peek s ≠ some ',' → P.types s)
    (automaton : ∀ name s,
      (∀ r : Text, r.length < s.length → P.typeFrom (word r).value (word r).rest) →
      (∀ r : Text, r.length < s.length → P.types r) → P.automaton name s) :
    P.Holds := by
  have htypes {s : Text} (ih : ∀ r : Text, r.length < s.length →
      ∀ r₁ : Text, r₁.length ≤ r.length → P.types r₁) (r : Text) (hr : r.length < s.length) :
      P.types r :=
    ih r hr r (Nat.le_refl _)
  have hsteps := type.mutual_induct P.type P.typeFrom P.tuple P.types P.automaton byWord unnamed
    opensAutomaton (fun w s hw h => opensContext w s hw (.inl h))
    (fun w s hw h => opensContext w s hw (.inr h))
    (fun w s hw usual h => opensExpressions w s usual hw h) opensExpansions opensPolynomials
    opensTuple opensConst opensTerminal opensLabelset opensOpaque
    (fun s ihd ihds => tuple s ihd (htypes ihds))
    (fun s hmore ihd ihds => moreTypes s hmore ihd (htypes ihds)) noTypes
    (fun name s ihds ihd => automaton name s
      (fun r hr => ihd r hr _ _ (length_word_le r))
      fun r hr => ihds r hr r (Nat.le_refl _) r (Nat.le_refl _))
  obtain ⟨ht, hf, hp, hts, ha⟩ := hsteps
  exact ⟨ht, hf, hp, hts, ha⟩

end TypeProperty
end Reader
end OnDemand
