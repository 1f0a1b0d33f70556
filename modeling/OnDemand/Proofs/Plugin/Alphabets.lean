import OnDemand.Plugin.Generation
import OnDemand.Proofs.Descriptor.UniqueNames

/-!
# Alphabets stay out of generated modules

What is written for a descriptor does not depend on its alphabets, so descriptors with the same
short name are written alike, on whatever sheet, and contexts with the same short name have the same
module or fail alike.
-/

namespace OnDemand
namespace Descriptor

/-! ## Marks -/

mutual

theorem marks_erase (d : Descriptor) : d.erase.marks = d.marks := by
  match d with
  | .context l w => simp only [erase, marks, marks_erase l, marks_erase w]
  | .tupleset ds => simp only [erase, marks, marksOfAll_eraseAll ds]
  | .tuple ds => simp only [erase, marks, marksOfAll_eraseAll ds]
  | .oneset => simp only [erase]
  | .genset letters generators => simp only [erase, marks]
  | .letterset g => simp only [erase, marks, marks_erase g]
  | .wordset g => simp only [erase, marks, marks_erase g]
  | .nullableset l => simp only [erase, marks, marks_erase l]
  | .expressionset c i => simp only [erase, marks, marks_erase c]
  | .expansionset e => simp only [erase, marks, marks_erase e]
  | .weightset name => simp only [erase]
  | .automaton name ds => simp only [erase, marks, marksOfAll_eraseAll ds]
  | .polynomialset c => simp only [erase, marks, marks_erase c]
  | .other name => simp only [erase]

theorem marksOfAll_eraseAll (ds : List Descriptor) : marksOfAll (eraseAll ds) = marksOfAll ds := by
  match ds with
  | [] => simp only [eraseAll]
  | d :: ds => simp only [eraseAll, marksOfAll, marks_erase d, marksOfAll_eraseAll ds]

end

theorem marks_eq_of_erase_eq {d e : Descriptor} (h : d.erase = e.erase) : d.marks = e.marks := by
  calc
    d.marks = d.erase.marks := (marks_erase d).symm
    _ = e.erase.marks := by rw [h]
    _ = e.marks := marks_erase e

theorem visit_eq_of_erase_eq {d e : Descriptor} (h : d.erase = e.erase) (s : Sheet) :
    s.visit d = s.visit e := by
  rw [Sheet.visit, Sheet.visit, marks_eq_of_erase_eq h]

end Descriptor

namespace GeneratedModule

open Descriptor Reader

/-! ## Modules of contexts -/

theorem normalizeContext_eq_ok {text : Text} {n : Normalized}
    (h : normalizeContext text = .ok n) :
    IsContext n.descriptor ∧ n.short = n.descriptor.shortName := by
  unfold normalizeContext at h
  cases hread : Descriptor.ofContext text with
  | error e =>
      rw [hread] at h
      cases h
  | ok d =>
      rw [hread] at h
      cases h
      exact ⟨isContext_of_ofContext hread, rfl⟩

/-- The full name of a context that can be read is read as that context. -/
theorem normalizeContext_fullName {d : Descriptor} (h : IsContext d) :
    normalizeContext d.fullName = .ok (.of d) := by
  rw [normalizeContext, h.ofContext_fullName]
  rfl

/-- What a context is normalized to is read again with the same names. -/
theorem normalizeContext_full {text : Text} {n : Normalized} (h : normalizeContext text = .ok n) :
    normalizeContext n.full = .ok n := by
  unfold normalizeContext at h
  cases hread : Descriptor.ofContext text with
  | error e =>
      rw [hread] at h
      cases h
  | ok d =>
      rw [hread] at h
      cases h
      exact normalizeContext_fullName (isContext_of_ofContext hread)

/-- The context of letters, over an alphabet if one is given, with Boolean weights. -/
def overLetters (generators : Option Text) : Descriptor :=
  .context (.letterset (.genset "char_letters".toList generators)) (.weightset "b".toList)

theorem isContext_overLetters (generators : Option Text) : IsContext (overLetters generators) :=
  .context (.letterset (.genset (by decide) (by decide) (by decide))) (.weightset (by decide))

/-- The module is made from the short name and the marks alone. -/
theorem ofContext_eq_of_normalizeContext {text : Text} {n : Normalized}
    (h : normalizeContext text = .ok n) :
    GeneratedModule.ofContext text =
      ofMarks (Plugin.contextBase n.short)
        (hostImports ++ [.use "vcsn::ctx::instantiate".toList] ++
          typeAlias "Ctx".toList n.descriptor ++ opening ++
          closing "instantiate::register_all::<Ctx>(&host)".toList) := by
  unfold GeneratedModule.ofContext
  simp only [h]

theorem ofContext_eq_of_short_eq {t₁ t₂ : Text} {n₁ n₂ : Normalized}
    (h₁ : normalizeContext t₁ = .ok n₁) (h₂ : normalizeContext t₂ = .ok n₂)
    (h : n₁.short = n₂.short) : GeneratedModule.ofContext t₁ = GeneratedModule.ofContext t₂ := by
  rcases normalizeContext_eq_ok h₁ with ⟨hcontext₁, hshort₁⟩
  rcases normalizeContext_eq_ok h₂ with ⟨hcontext₂, hshort₂⟩
  have hnames : n₁.descriptor.shortName = n₂.descriptor.shortName := by rw [← hshort₁, ← hshort₂, h]
  -- The same short name means the same descriptor but for alphabets, and so the same marks.
  have herase : n₁.descriptor.erase = n₂.descriptor.erase :=
    IsType.erase_eq_of_shortName_eq (.context hcontext₁) (.context hcontext₂) hnames
  have hmarks : n₁.descriptor.marks = n₂.descriptor.marks := marks_eq_of_erase_eq herase
  rw [ofContext_eq_of_normalizeContext h₁, ofContext_eq_of_normalizeContext h₂, h, typeAlias,
    typeAlias, hmarks]

/-! ## Keys never collide -/

/--
No two types share a full name, and types that share a short name differ in their alphabets at most;
those reach neither a sheet nor the module of a context.
-/
theorem keys_never_collide :
    (∀ (t₁ t₂ : Text) (d₁ d₂ : Descriptor),
      Descriptor.ofType t₁ = .ok d₁ → Descriptor.ofType t₂ = .ok d₂ →
        (d₁.fullName = d₂.fullName → d₁ = d₂) ∧
        (d₁.shortName = d₂.shortName →
          d₁.erase = d₂.erase ∧ ∀ s : Sheet, s.visit d₁ = s.visit d₂)) ∧
    (∀ (c₁ c₂ : Text) (n₁ n₂ : Normalized),
      normalizeContext c₁ = .ok n₁ → normalizeContext c₂ = .ok n₂ → n₁.short = n₂.short →
        GeneratedModule.ofContext c₁ = GeneratedModule.ofContext c₂) := by
  refine ⟨?_, ?_⟩
  · intro t₁ t₂ d₁ d₂ h₁ h₂
    have htype₁ : IsType d₁ := isType_of_ofType h₁
    have htype₂ : IsType d₂ := isType_of_ofType h₂
    refine ⟨htype₁.eq_of_fullName_eq htype₂, ?_⟩
    intro hshort
    have herase : d₁.erase = d₂.erase := htype₁.erase_eq_of_shortName_eq htype₂ hshort
    exact ⟨herase, visit_eq_of_erase_eq herase⟩
  · intro c₁ c₂ n₁ n₂ h₁ h₂ hshort
    exact ofContext_eq_of_short_eq h₁ h₂ hshort

/-- Three texts for two contexts, which differ in the alphabet. -/
theorem letterset_keys :
    Descriptor.ofType "context<letterset<char_letters(ab)>, b>".toList =
        Descriptor.ofType "'context<letterset<char_letters(ab)>, b>'".toList ∧
      Sheet.visit {} (.context (.letterset (.genset "char_letters".toList (some "ab".toList)))
          (.weightset "b".toList)) =
        Sheet.visit {} (.context (.letterset (.genset "char_letters".toList none))
          (.weightset "b".toList)) ∧
      GeneratedModule.ofContext "context<letterset<char_letters(ab)>, b>".toList =
        GeneratedModule.ofContext "context<letterset<char_letters>, b>".toList := by
  let d (generators : Option Text) : Descriptor :=
    .context (.letterset (.genset "char_letters".toList generators)) (.weightset "b".toList)
  have hcontext (generators : Option Text) : IsContext (d generators) :=
    .context (.letterset (.genset (by decide) (by decide) (by decide))) (.weightset (by decide))
  have hab : (d (some "ab".toList)).fullName =
      "context<letterset<char_letters(ab)>, b>".toList := by
    decide
  have hnone : (d none).fullName = "context<letterset<char_letters>, b>".toList := by decide
  have hshort : (d (some "ab".toList)).shortName = (d none).shortName := by decide
  have hquoted : Stripping.quotes "'context<letterset<char_letters(ab)>, b>'".toList =
      Stripping.quotes "context<letterset<char_letters(ab)>, b>".toList := by
    decide
  have htype := (hcontext (some "ab".toList)).ofType_fullName
  have htype' := (hcontext none).ofType_fullName
  have hread := (hcontext (some "ab".toList)).ofContext_fullName
  have hread' := (hcontext none).ofContext_fullName
  rw [hab] at htype hread
  rw [hnone] at htype' hread'
  have htype'' : Descriptor.ofType "'context<letterset<char_letters(ab)>, b>'".toList =
      .ok (d (some "ab".toList)) := by
    rw [Descriptor.ofType, reported_eq_ok_iff] at htype ⊢
    rw [hquoted]
    exact htype
  have hfull := (keys_never_collide.1 _ _ _ _ htype htype'').1 rfl
  have hvisit := ((keys_never_collide.1 _ _ _ _ htype htype').2 hshort).2 {}
  refine ⟨by rw [htype, htype'', hfull], hvisit, ?_⟩
  refine keys_never_collide.2 _ _ (.of (d (some "ab".toList))) (.of (d none)) ?_ ?_ hshort
  · rw [normalizeContext, hread]
    rfl
  · rw [normalizeContext, hread']
    rfl

end GeneratedModule
end OnDemand
