import OnDemand.Proofs.Descriptor.Induction
import OnDemand.Proofs.Descriptor.Tokens
import OnDemand.Proofs.Descriptor.Words

/-!
# Descriptors that can be read

The tree of a descriptor does not say which children make sense where.  The predicates of this
module do: they follow the reader, and everything the reader gives satisfies them.  An alphabet may
have any word as its letter type, a product is a label set and a weight set alike, and so is an
expression set.
-/

namespace OnDemand
namespace Descriptor

/-! ## Contexts -/

/-- An alphabet that can be read. -/
inductive IsGenset : Descriptor → Prop where
  | genset {letters : Text} {generators : Option Text} :
      Reader.IsWord letters → letters ≠ "set_alphabet".toList →
      Keyword.letterType letters = letters → IsGenset (.genset letters generators)

mutual

/-- A label set that can be read. -/
inductive IsLabelset : Descriptor → Prop where
  | letterset {g : Descriptor} : IsGenset g → IsLabelset (.letterset g)
  | wordset {g : Descriptor} : IsGenset g → IsLabelset (.wordset g)
  | nullableset {l : Descriptor} : IsLabelset l → IsLabelset (.nullableset l)
  | oneset : IsLabelset .oneset
  | product {d : Descriptor} : IsProduct d → IsLabelset d
  | expressions {d : Descriptor} : IsExpressions d → IsLabelset d

/-- A weight set that can be read. -/
inductive IsWeightset : Descriptor → Prop where
  | weightset {name : Text} : Keyword.isTerminal name → IsWeightset (.weightset name)
  | polynomialset {c : Descriptor} : IsContext c → IsWeightset (.polynomialset c)
  | product {d : Descriptor} : IsProduct d → IsWeightset d
  | expressions {d : Descriptor} : IsExpressions d → IsWeightset d

/-- A member of a product that can be read. -/
inductive IsMember : Descriptor → Prop where
  | labelset {d : Descriptor} : IsLabelset d → IsMember d
  | weightset {d : Descriptor} : IsWeightset d → IsMember d

/-- A product that can be read; it has a member. -/
inductive IsProduct : Descriptor → Prop where
  | tupleset {d : Descriptor} {ds : List Descriptor} :
      (∀ e ∈ d :: ds, IsMember e) → IsProduct (.tupleset (d :: ds))

/-- An expression set that can be read. -/
inductive IsExpressions : Descriptor → Prop where
  | expressionset {c : Descriptor} {i : Identities} :
      IsContext c → IsExpressions (.expressionset c i)

/-- A context that can be read. -/
inductive IsContext : Descriptor → Prop where
  | context {l w : Descriptor} : IsLabelset l → IsWeightset w → IsContext (.context l w)

end

/-! ## Types -/

/-- A word that begins an opaque name, and does so wherever it is read. -/
structure OpensOpaque (w : Text) : Prop where
  isWord : Reader.IsWord w
  withoutNamespace : Keyword.withoutNamespace w = w
  opening : Keyword.Opening.ofWord w = .opaqueName

/-- An opaque name that can be read. -/
inductive IsOpaque : Text → Prop where
  | bare {w : Text} : OpensOpaque w → IsOpaque w
  | applied {w p : Text} : OpensOpaque w → Reader.IsParameters p → IsOpaque (w ++ p)
  | constant {name : Text} : IsOpaque name → IsOpaque ("const ".toList ++ name)

/--
The name of an automaton type that can be read.  It need not be a word: the namespace before it may
have been taken off in front of a colon.
-/
structure NamesAutomaton (name : Text) : Prop where
  inWord : name.all inWord = true
  isAutomaton : Keyword.isAutomaton name = true

/-- A type that can be read. -/
inductive IsType : Descriptor → Prop where
  | context {d : Descriptor} : IsContext d → IsType d
  | labelset {d : Descriptor} : IsLabelset d → IsType d
  | weightset {d : Descriptor} : IsWeightset d → IsType d
  | expansionset {e : Descriptor} : IsExpressions e → IsType (.expansionset e)
  | tuple {d : Descriptor} {ds : List Descriptor} :
      (∀ e ∈ d :: ds, IsType e) → IsType (.tuple (d :: ds))
  | automaton {name : Text} {d : Descriptor} {ds : List Descriptor} :
      NamesAutomaton name → (∀ e ∈ d :: ds, IsType e) → IsType (.automaton name (d :: ds))
  | other {name : Text} : IsOpaque name → IsType (.other name)

/-- What the predicates say about the parts of a type. -/
def HasParts : Descriptor → Prop
  | .context l w => IsLabelset l ∧ IsWeightset w
  | .tupleset ds => ds ≠ [] ∧ ∀ e ∈ ds, IsMember e
  | .tuple ds => ds ≠ [] ∧ ∀ e ∈ ds, IsType e
  | .oneset => True
  | .genset _ _ => False
  | .letterset g => IsGenset g
  | .wordset g => IsGenset g
  | .nullableset l => IsLabelset l
  | .expressionset c _ => IsContext c
  | .expansionset e => IsExpressions e
  | .weightset name => Keyword.isTerminal name
  | .automaton name ds => NamesAutomaton name ∧ ds ≠ [] ∧ ∀ e ∈ ds, IsType e
  | .polynomialset c => IsContext c
  | .other name => IsOpaque name

theorem IsProduct.hasParts {d : Descriptor} (h : IsProduct d) : HasParts d := by
  cases h with
  | tupleset hds => exact ⟨List.cons_ne_nil _ _, hds⟩

theorem IsExpressions.hasParts {d : Descriptor} (h : IsExpressions d) : HasParts d := by
  cases h with
  | expressionset hc => exact hc

theorem IsLabelset.hasParts {d : Descriptor} (h : IsLabelset d) : HasParts d := by
  cases h with
  | letterset hg => exact hg
  | wordset hg => exact hg
  | nullableset hl => exact hl
  | oneset => exact trivial
  | product hd => exact hd.hasParts
  | expressions hd => exact hd.hasParts

theorem IsWeightset.hasParts {d : Descriptor} (h : IsWeightset d) : HasParts d := by
  cases h with
  | weightset hname => exact hname
  | polynomialset hc => exact hc
  | product hd => exact hd.hasParts
  | expressions hd => exact hd.hasParts

theorem IsType.hasParts {d : Descriptor} (h : IsType d) : HasParts d := by
  cases h with
  | context hd =>
      cases hd with
      | context hl hw => exact ⟨hl, hw⟩
  | labelset hd => exact hd.hasParts
  | weightset hd => exact hd.hasParts
  | expansionset he => exact he
  | tuple hds => exact ⟨List.cons_ne_nil _ _, hds⟩
  | automaton hname hds => exact ⟨hname, List.cons_ne_nil _ _, hds⟩
  | other hname => exact hname

theorem IsMember.isType {d : Descriptor} (h : IsMember d) : IsType d := by
  cases h with
  | labelset hd => exact .labelset hd
  | weightset hd => exact .weightset hd

end Descriptor

namespace Reader

open Descriptor

/-! ## What the reader gives: alphabets -/

theorem letterType_letterType (w : Text) :
    Keyword.letterType (Keyword.letterType w) = Keyword.letterType w := by
  unfold Keyword.letterType
  split
  · decide
  · split
    · decide
    · rfl

/-- The letter type of a word that is one. -/
theorem isGenset_letterType {w : Text} (hw : IsWord w) (hset : w ≠ "set_alphabet".toList)
    (generators : Option Text) : IsGenset (.genset (Keyword.letterType w) generators) := by
  refine IsGenset.genset ?_ ?_ (letterType_letterType w)
  · unfold Keyword.letterType
    split
    · decide
    · split
      · decide
      · exact hw
  · unfold Keyword.letterType
    split
    · decide
    · split
      · decide
      · exact hset

theorem isGenset_charLetters (generators : Option Text) :
    IsGenset (.genset Keyword.charLetters generators) :=
  IsGenset.genset (by decide) (by decide) (by decide)

theorem isGenset_stringLetters (generators : Option Text) :
    IsGenset (.genset Keyword.stringLetters generators) :=
  IsGenset.genset (by decide) (by decide) (by decide)

theorem isGenset_of_gives_genset {w s r : Text} {d : Descriptor} (hw : w = [] ∨ IsWord w)
    (h : gives (genset w s) = some (d, r)) : IsGenset d := by
  induction w, s using genset.induct generalizing d r with
  | case1 s ih =>
      rcases gives_genset_wrapped_eq_some_iff.1 h with ⟨r₀, r₁, hr₀, hinner, -⟩
      exact ih r₀ (length_lt_of_leaves hr₀) _ _ (word r₀).le (word_eq_nil_or_isWord r₀) hinner
  | case2 s hset =>
      rw [genset, if_neg hset] at h
      cases h
  | case3 w s hset hne =>
      rw [gives_genset_bare hset hne] at h
      rcases Option.bind_eq_some_iff.1 h with ⟨⟨gens, r₁⟩, -, h⟩
      cases h
      exact isGenset_letterType (hw.resolve_left hne) hset gens

theorem isGenset_of_gives_typedGenset {s r : Text} {d : Descriptor}
    (h : gives (typedGenset s) = some (d, r)) : IsGenset d := by
  by_cases htyped : peek s = some '<'
  · rcases (gives_typedGenset_typed_eq_some_iff htyped).1 h with ⟨r₀, _, -, hinner, -⟩
    exact isGenset_of_gives_genset (word_eq_nil_or_isWord r₀) hinner
  · rw [gives_typedGenset_untyped htyped] at h
    rcases Option.bind_eq_some_iff.1 h with ⟨⟨gens, r₁⟩, -, h⟩
    cases h
    exact isGenset_charLetters gens

/-- A letter type of the tables is that of characters or that of strings. -/
def IsUsualLetterType (letters : Text) : Prop :=
  letters = Keyword.charLetters ∨ letters = Keyword.stringLetters

theorem IsUsualLetterType.isGenset {letters : Text} (h : IsUsualLetterType letters)
    (generators : Option Text) : IsGenset (.genset letters generators) := by
  rcases h with rfl | rfl
  · exact isGenset_charLetters generators
  · exact isGenset_stringLetters generators

theorem mem_labelsets {w : Text} {form : LabelForm} (h : Keyword.labelForm? w = some form) :
    (w, form) ∈ Keyword.labelsets :=
  Text.mem_of_lookup h

theorem isUsualLetterType_of_lettered {w letters : Text} {shape : Shape}
    (h : Keyword.labelForm? w = some (.lettered shape letters)) : IsUsualLetterType letters := by
  have hmem := mem_labelsets h
  simp only [Keyword.labelsets, List.mem_cons, Prod.mk.injEq, LabelForm.lettered.injEq,
    reduceCtorEq, and_false, false_or, or_false, List.not_mem_nil] at hmem
  unfold IsUsualLetterType
  grind

theorem isTerminal_of_terminal {w : Text} (h : Keyword.weightForm? w = some .terminal) :
    Keyword.isTerminal w := by
  unfold Keyword.weightForm? at h
  split at h
  · assumption
  · have hmem := Text.mem_of_lookup h
    simp [Keyword.composites] at hmem

theorem isUsualLetterType_letterType {w : Text} (h : Keyword.isLetterType w) :
    IsUsualLetterType (Keyword.letterType w) := by
  simp only [Keyword.isLetterType, Bool.or_eq_true, beq_iff_eq] at h
  rcases h with ((rfl | rfl) | rfl) | rfl
  · exact .inl rfl
  · exact .inr rfl
  · exact .inl rfl
  · exact .inr rfl

theorem isLabelset_over {g : Descriptor} (h : IsGenset g) (shape : Shape) :
    IsLabelset (shape.over g) := by
  cases shape with
  | letters => exact .letterset h
  | words => exact .wordset h
  | nullableLetters => exact .nullableset (.letterset h)

theorem isLabelset_of_gives_bracketed {letterType s r : Text} {d : Descriptor}
    (hletters : ∀ generators, IsGenset (.genset letterType generators))
    (h : gives (bracketed letterType s) = some (d, r)) : IsLabelset d := by
  rw [gives_bracketed] at h
  rcases Option.bind_eq_some_iff.1 h with ⟨r₀, -, h⟩
  rcases Option.bind_eq_some_iff.1 h with ⟨⟨gens, r₁⟩, -, h⟩
  simp only [starred] at h
  split at h
  · cases h
    exact .wordset (hletters _)
  · cases h
    exact .letterset (hletters _)

theorem isLabelset_of_gives_unnamedLabelset {s r : Text} {d : Descriptor}
    (h : gives (unnamedLabelset s) = some (d, r)) : IsLabelset d := by
  by_cases hbracket : peek s = some '['
  · rw [gives_unnamedLabelset_bracket hbracket] at h
    exact isLabelset_of_gives_bracketed isGenset_charLetters h
  · by_cases htyped : peek s = some '<'
    · rw [gives_unnamedLabelset_typed htyped] at h
      rcases Option.bind_eq_some_iff.1 h with ⟨r₀, -, h⟩
      split at h
      · rename_i hletters
        rcases Option.bind_eq_some_iff.1 h with ⟨r₁, -, h⟩
        exact isLabelset_of_gives_bracketed (isUsualLetterType_letterType hletters).isGenset h
      · cases h
    · rw [gives_unnamedLabelset_none hbracket htyped] at h
      cases h

/-! ## What the reader gives: contexts -/

/-- The readings of contexts give descriptors of contexts. -/
def GivesContexts : ContextProperty where
  labelset w s := ∀ d r, gives (labelset w s) = some (d, r) → IsLabelset d
  expressionset usual s := ∀ d r, gives (expressionset usual s) = some (d, r) → IsExpressions d
  context w s := ∀ d r, gives (context w s) = some (d, r) → IsContext d
  weightset w s := ∀ d r, gives (weightset w s) = some (d, r) → IsWeightset d
  product s := ∀ d r, gives (product s) = some (d, r) → IsProduct d
  members s := ∀ ds r, gives (members s) = some (ds, r) → ∀ e ∈ ds, IsMember e
  member s := ∀ d r, gives (member s) = some (d, r) → IsMember d
  polynomialset s := ∀ d r, gives (polynomialset s) = some (d, r) → IsWeightset d
  nullableBody s := ∀ d r, gives (nullableBody s) = some (d, r) → IsLabelset d

theorem givesContexts : GivesContexts.Holds := by
  apply ContextProperty.holds
  -- Label sets.
  case lettered =>
    intro w s shape letters hform d r h
    rw [gives_labelset_lettered hform] at h
    rcases Option.bind_eq_some_iff.1 h with ⟨⟨gens, r₁⟩, -, h⟩
    cases h
    exact isLabelset_over ((isUsualLetterType_of_lettered hform).isGenset gens) shape
  case typed =>
    intro w s shape hform d r h
    rw [gives_labelset_typed hform] at h
    rcases Option.bind_eq_some_iff.1 h with ⟨⟨g, r₁⟩, hg, h⟩
    cases h
    exact isLabelset_over (isGenset_of_gives_typedGenset hg) shape
  case nullable =>
    intro w s hform ih d r h
    rw [gives_labelset_nullable hform] at h
    rcases Option.bind_eq_some_iff.1 h with ⟨⟨l, r₁⟩, hl, h⟩
    cases h
    exact .nullableset (ih _ _ hl)
  case one =>
    intro w s hform d r h
    rw [gives_labelset_one hform] at h
    cases h
    exact .oneset
  case labelProduct =>
    intro w s hform ih d r h
    rw [gives_labelset_product hform] at h
    exact .product (ih _ _ h)
  case labelExpressions =>
    intro w s usual hform ih d r h
    rw [gives_labelset_expressions hform] at h
    exact .expressions (ih _ _ h)
  case unnamedLabelset =>
    intro s d r h
    rw [gives_labelset_unnamed] at h
    exact isLabelset_of_gives_unnamedLabelset h
  case unknownLabelset =>
    intro w s hform hw d r h
    rw [gives_labelset_unknown hform hw] at h
    cases h
  case enclosed =>
    intro s henclosed ih d r h
    rcases (gives_nullableBody_inner_eq_some_iff henclosed).1 h with ⟨r₀, r₁, hr₀, hinner, -⟩
    unfold nullableInner at hinner
    split at hinner
    · rcases Option.bind_eq_some_iff.1 hinner with ⟨⟨g, r₂⟩, hg, hinner⟩
      cases hinner
      exact .letterset (isGenset_of_gives_genset (word_eq_nil_or_isWord r₀) hg)
    · exact ih r₀ (length_lt_of_leaves hr₀) _ _ hinner
  case bare =>
    intro s hbare d r h
    rw [gives_nullableBody_bare hbare] at h
    rcases Option.bind_eq_some_iff.1 h with ⟨⟨gens, r₁⟩, -, h⟩
    cases h
    exact .letterset (isGenset_charLetters gens)
  -- Expression sets and contexts.
  case expressionset =>
    intro usual s ih d r h
    rcases gives_expressionset_eq_some_iff.1 h with ⟨c, _, i, ⟨r₀, _, hr₀, hc, -⟩, -, rfl⟩
    exact .expressionset (ih r₀ (length_lt_of_leaves hr₀) _ _ hc)
  case wrapped =>
    intro s ih d r h
    rcases gives_context_wrapped_eq_some_iff.1 h with ⟨r₀, _, hr₀, hc, -⟩
    exact ih r₀ (length_lt_of_leaves hr₀) _ _ hc
  case joined =>
    intro w s l v hw hjoined ihl ihv d r h
    rcases (gives_context_joined_eq_some_iff hw hjoined).1 h with
      ⟨labels, r₁, weights, hlabels, hweights, rfl⟩
    exact .context (ihl _ _ hlabels) (ihv r₁ (length_le_of_gives hlabels) _ _ hweights)
  case separated =>
    intro w s hw hjoined ihl ihv d r h
    rcases (gives_context_separated_eq_some_iff hw hjoined).1 h with
      ⟨labels, r₁, r₂, weights, hlabels, hr₂, hweights, rfl⟩
    have hlt : r₂.length < s.length :=
      Nat.lt_of_lt_of_le (length_lt_of_leaves hr₂) (length_le_of_gives hlabels)
    exact .context (ihl _ _ hlabels) (ihv r₂ hlt _ _ hweights)
  -- Weight sets.
  case terminal =>
    intro w s hform d r h
    rw [gives_weightset_terminal hform] at h
    cases h
    exact .weightset (isTerminal_of_terminal hform)
  case weightExpressions =>
    intro w s usual hform ih d r h
    rw [gives_weightset_expressions hform] at h
    exact .expressions (ih _ _ h)
  case weightPolynomials =>
    intro w s hform ih d r h
    rw [gives_weightset_polynomials hform] at h
    exact ih _ _ h
  case weightProduct =>
    intro w s hform ih d r h
    rw [gives_weightset_product hform] at h
    exact .product (ih _ _ h)
  case unknownWeightset =>
    intro w s hform d r h
    rw [gives_weightset_unknown hform] at h
    cases h
  case polynomialset =>
    intro s ih d r h
    rcases gives_polynomialset_eq_some_iff.1 h with ⟨c, ⟨r₀, _, hr₀, hc, -⟩, rfl⟩
    exact .polynomialset (ih r₀ (length_lt_of_leaves hr₀) _ _ hc)
  -- Products and their members.
  case product =>
    intro s ihd ihds d r h
    rcases gives_product_eq_some_iff.1 h with ⟨e, es, _, hes, -, rfl⟩
    exact .tupleset (hes.forall_mem length_le_of_gives ihd ihds)
  case moreMembers =>
    intro s hmore ihd ihds ds r h
    rcases (gives_members_more_eq_some_iff hmore).1 h with ⟨e, es, hes, rfl⟩
    exact hes.forall_mem length_le_of_gives ihd ihds
  case noMembers =>
    intro s hmore ds r h
    rw [gives_members_none hmore] at h
    cases h
    exact List.forall_mem_nil _
  case weightMember =>
    intro s hopens ih d r h
    rw [gives_member, if_pos hopens] at h
    exact .weightset (ih _ _ h)
  case labelMember =>
    intro s hopens hlabels ih d r h
    rw [gives_member, if_neg hopens, if_pos hlabels] at h
    exact .labelset (ih _ _ h)
  case unknownMember =>
    intro s hopens hlabels d r h
    rw [gives_member, if_neg hopens, if_neg hlabels] at h
    cases h

theorem isLabelset_of_gives {w s r : Text} {d : Descriptor}
    (h : gives (labelset w s) = some (d, r)) : IsLabelset d :=
  givesContexts.labelset w s d r h

theorem isExpressions_of_gives {usual : Identities} {s r : Text} {d : Descriptor}
    (h : gives (expressionset usual s) = some (d, r)) : IsExpressions d :=
  givesContexts.expressionset usual s d r h

theorem isContext_of_gives {w s r : Text} {d : Descriptor}
    (h : gives (context w s) = some (d, r)) : IsContext d :=
  givesContexts.context w s d r h

theorem isWeightset_of_gives {w s r : Text} {d : Descriptor}
    (h : gives (weightset w s) = some (d, r)) : IsWeightset d :=
  givesContexts.weightset w s d r h

theorem isWeightset_of_gives_polynomialset {s r : Text} {d : Descriptor}
    (h : gives (polynomialset s) = some (d, r)) : IsWeightset d :=
  givesContexts.polynomialset s d r h

/-! ## What the reader gives: types -/

theorem isOpaque_of_gives_opaqueName {w s r : Text} {d : Descriptor} (hw : OpensOpaque w)
    (h : gives (opaqueName w s) = some (d, r)) : ∃ name, d = .other name ∧ IsOpaque name := by
  by_cases happlied : peek s = some '<'
  · rw [gives_opaqueName_applied w happlied] at h
    rcases Option.bind_eq_some_iff.1 h with ⟨⟨p, r₁⟩, hp, h⟩
    cases h
    exact ⟨w ++ p, rfl, .applied hw (isParameters_of_gives hp)⟩
  · rw [gives_opaqueName_bare w happlied] at h
    cases h
    exact ⟨w, rfl, .bare hw⟩

theorem isType_of_gives_expansionset {s r : Text} {d : Descriptor}
    (h : gives (expansionset s) = some (d, r)) : IsType d := by
  rcases gives_expansionset_eq_some_iff.1 h with ⟨e, ⟨r₀, r₁, -, he, -⟩, rfl⟩
  unfold expansionBody at he
  split at he
  · exact .expansionset (isExpressions_of_gives he)
  · cases he

theorem isType_of_gives_unnamedType {s r : Text} {d : Descriptor}
    (h : gives (unnamedType s) = some (d, r)) : IsType d := by
  by_cases hopens : peek s = some '[' ∨ peek s = some '<'
  · rw [gives_unnamedType hopens] at h
    exact .labelset (isLabelset_of_gives h)
  · rw [not_or] at hopens
    rw [gives_unnamedType_none hopens.1 hopens.2] at h
    cases h

theorem isType_of_gives_firstContext {w s r : Text} {d : Descriptor}
    (h : gives (firstContext w s) = some (d, r)) : IsType d := by
  rw [gives_firstContext, Option.or_eq_some_iff] at h
  rcases h with h | ⟨-, h⟩
  · exact .context (isContext_of_gives h)
  · split at h
    · exact .labelset (isLabelset_of_gives h)
    · cases h

theorem namesAutomaton_withoutNamespace {w : Text} (hw : IsWord w)
    (h : Keyword.Opening.ofWord (Keyword.withoutNamespace w) = .automaton) :
    NamesAutomaton (Keyword.withoutNamespace w) :=
  ⟨Keyword.all_inWord_withoutNamespace hw.2, Keyword.isAutomaton_of_opening h⟩

/-- The readings of types give descriptors of types. -/
def GivesTypes : TypeProperty where
  type s := ∀ d r, gives (type s) = some (d, r) → IsType d
  typeFrom w s := w = [] ∨ IsWord w → ∀ d r, gives (typeFrom w s) = some (d, r) → IsType d
  tuple s := ∀ d r, gives (tuple s) = some (d, r) → IsType d
  types s := ∀ ds r, gives (types s) = some (ds, r) → ∀ e ∈ ds, IsType e
  automaton name s := NamesAutomaton name → ∀ d r, gives (automaton name s) = some (d, r) →
    IsType d

theorem givesTypes : GivesTypes.Holds := by
  apply TypeProperty.holds
  case byWord =>
    intro s ih d r h
    rw [gives_type] at h
    exact ih (word_eq_nil_or_isWord s) _ _ h
  -- Types, by what their first word announces.
  case unnamed =>
    intro s _ d r h
    rw [gives_typeFrom_unnamed] at h
    exact isType_of_gives_unnamedType h
  case opensAutomaton =>
    intro w s hw hopening ih hword d r h
    rw [gives_typeFrom_automaton hw hopening] at h
    exact ih (namesAutomaton_withoutNamespace (hword.resolve_left hw) hopening) _ _ h
  case opensContext =>
    intro w s hw hopening _ d r h
    rw [gives_typeFrom_context hw hopening] at h
    exact .context (isContext_of_gives h)
  case opensExpressions =>
    intro w s usual hw hopening _ d r h
    rw [gives_typeFrom_expressions hw hopening] at h
    exact .labelset (.expressions (isExpressions_of_gives h))
  case opensExpansions =>
    intro w s hw hopening _ d r h
    rw [gives_typeFrom_expansions hw hopening] at h
    exact isType_of_gives_expansionset h
  case opensPolynomials =>
    intro w s hw hopening _ d r h
    rw [gives_typeFrom_polynomials hw hopening] at h
    exact .weightset (isWeightset_of_gives_polynomialset h)
  case opensTuple =>
    intro w s hw hopening ih _ d r h
    rw [gives_typeFrom_tuple hw hopening] at h
    exact ih _ _ h
  case opensConst =>
    intro w s hw hopening ih _ d r h
    rw [gives_typeFrom_const hw hopening] at h
    rcases Option.bind_eq_some_iff.1 h with ⟨⟨e, r₁⟩, he, h⟩
    rcases Option.bind_eq_some_iff.1 h with ⟨d', hconstant, h⟩
    cases h
    have htype : IsType e := ih _ _ he
    cases e with
    | other name =>
        cases hconstant
        exact .other (.constant htype.hasParts)
    | _ => cases hconstant
  case opensTerminal =>
    intro w s hw hopening _ d r h
    rw [gives_typeFrom_terminal hw hopening] at h
    exact .weightset (isWeightset_of_gives h)
  case opensLabelset =>
    intro w s hw hopening _ d r h
    rw [gives_typeFrom_labelset hw hopening] at h
    exact .labelset (isLabelset_of_gives h)
  case opensOpaque =>
    intro w s hw hopening hword d r h
    rw [gives_typeFrom_opaqueName hw hopening] at h
    have heq : Keyword.withoutNamespace w = w := Keyword.withoutNamespace_eq_of_opaqueName hopening
    replace hopening : Keyword.Opening.ofWord w = .opaqueName := heq ▸ hopening
    rw [heq] at h
    rcases isOpaque_of_gives_opaqueName ⟨hword.resolve_left hw, heq, hopening⟩ h with
      ⟨name, rfl, hname⟩
    exact .other hname
  -- Tuples and lists of types.
  case tuple =>
    intro s ihd ihds d r h
    rcases gives_tuple_eq_some_iff.1 h with ⟨e, es, _, hes, -, rfl⟩
    exact .tuple (hes.forall_mem length_le_of_gives ihd ihds)
  case moreTypes =>
    intro s hmore ihd ihds ds r h
    rcases (gives_types_more_eq_some_iff hmore).1 h with ⟨e, es, hes, rfl⟩
    exact hes.forall_mem length_le_of_gives ihd ihds
  case noTypes =>
    intro s hmore ds r h
    rw [gives_types_none hmore] at h
    cases h
    exact List.forall_mem_nil _
  -- Automaton types: the first child may be a context or a label set of its own.
  case automaton =>
    intro name s ihd ihds hname d r h
    rcases gives_automaton_eq_some_iff.1 h with ⟨e, es, _, hes, -, rfl⟩
    have hle {r₀ e r₁} (he : firstChild (word r₀).value (word r₀).rest = some (e, r₁)) :
        r₁.length ≤ r₀.length :=
      Nat.le_trans (length_le_of_gives he) (length_word_le r₀)
    refine .automaton hname (hes.forall_mem hle (fun r₀ hlt d r he => ?_) ihds)
    dsimp only [firstChild] at he
    split at he
    · exact isType_of_gives_firstContext he
    · exact ihd r₀ hlt (word_eq_nil_or_isWord r₀) _ _ he

theorem isType_of_gives {s r : Text} {d : Descriptor} (h : gives (type s) = some (d, r)) :
    IsType d :=
  givesTypes.type s d r h

end Reader
end OnDemand
