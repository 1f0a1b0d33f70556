import OnDemand.Proofs.Descriptor.Grammar

/-!
# Erasing the alphabets

The short name of a descriptor is the full name of its erasure.  Erasing keeps every predicate of
the grammar, so what holds of full names holds of short names too.
-/

namespace OnDemand
namespace Descriptor

/-! ## Lists -/

theorem eraseAll_eq_map (ds : List Descriptor) : eraseAll ds = ds.map erase := by
  induction ds with
  | nil => rfl
  | cons d ds ih => simp [eraseAll, ih]

theorem forall_mem_eraseAll {p : Descriptor → Prop} {ds : List Descriptor}
    (h : ∀ e ∈ ds, p e.erase) : ∀ e ∈ eraseAll ds, p e := by
  intro e he
  rw [eraseAll_eq_map] at he
  rcases List.mem_map.1 he with ⟨d, hd, rfl⟩
  exact h d hd

/-! ## Names -/

mutual

/-- Without alphabets, there is no difference between the names. -/
theorem nameWith_erase (full : Bool) (d : Descriptor) :
    d.erase.nameWith full = d.nameWith false := by
  match d with
  | .context l w => simp only [erase, nameWith, nameWith_erase full l, nameWith_erase full w]
  | .tupleset ds => simp only [erase, nameWith, namesWith_eraseAll full ds]
  | .tuple ds => simp only [erase, nameWith, namesWith_eraseAll full ds]
  | .oneset => simp only [erase, nameWith]
  | .genset letters generators => cases full <;> simp only [erase, nameWith]
  | .letterset g => simp only [erase, nameWith, nameWith_erase full g]
  | .wordset g => simp only [erase, nameWith, nameWith_erase full g]
  | .nullableset l => simp only [erase, nameWith, nameWith_erase full l]
  | .expressionset c i => simp only [erase, nameWith, nameWith_erase full c]
  | .expansionset e => simp only [erase, nameWith, nameWith_erase full e]
  | .weightset name => simp only [erase, nameWith]
  | .automaton name ds => simp only [erase, nameWith, namesWith_eraseAll full ds]
  | .polynomialset c => simp only [erase, nameWith, nameWith_erase full c]
  | .other name => simp only [erase, nameWith]

theorem namesWith_eraseAll (full : Bool) (ds : List Descriptor) :
    namesWith full (eraseAll ds) = namesWith false ds := by
  match ds with
  | [] => simp only [eraseAll, namesWith]
  | [d] => simp only [eraseAll, namesWith, nameWith_erase full d]
  | d :: e :: ds =>
      have hrest : namesWith full (e.erase :: eraseAll ds) = namesWith false (e :: ds) :=
        namesWith_eraseAll full (e :: ds)
      simp only [eraseAll, namesWith, nameWith_erase full d, hrest]

end

theorem fullName_erase (d : Descriptor) : d.erase.fullName = d.shortName :=
  nameWith_erase true d

theorem shortName_erase (d : Descriptor) : d.erase.shortName = d.shortName :=
  nameWith_erase false d

mutual

theorem erase_erase (d : Descriptor) : d.erase.erase = d.erase := by
  match d with
  | .context l w => simp only [erase, erase_erase l, erase_erase w]
  | .tupleset ds => simp only [erase, eraseAll_eraseAll ds]
  | .tuple ds => simp only [erase, eraseAll_eraseAll ds]
  | .oneset => rfl
  | .genset letters generators => rfl
  | .letterset g => simp only [erase, erase_erase g]
  | .wordset g => simp only [erase, erase_erase g]
  | .nullableset l => simp only [erase, erase_erase l]
  | .expressionset c i => simp only [erase, erase_erase c]
  | .expansionset e => simp only [erase, erase_erase e]
  | .weightset name => rfl
  | .automaton name ds => simp only [erase, eraseAll_eraseAll ds]
  | .polynomialset c => simp only [erase, erase_erase c]
  | .other name => rfl

theorem eraseAll_eraseAll (ds : List Descriptor) : eraseAll (eraseAll ds) = eraseAll ds := by
  match ds with
  | [] => rfl
  | d :: ds => simp only [eraseAll, erase_erase d, eraseAll_eraseAll ds]

end

/-! ## The grammar -/

theorem IsGenset.erase {d : Descriptor} (h : IsGenset d) : IsGenset d.erase := by
  cases h with
  | genset hword hset hletters => exact .genset hword hset hletters

mutual

theorem IsLabelset.erase : ∀ {d : Descriptor}, IsLabelset d → IsLabelset d.erase
  | _, .letterset hg => .letterset hg.erase
  | _, .wordset hg => .wordset hg.erase
  | _, .nullableset hl => .nullableset hl.erase
  | _, .oneset => .oneset
  | _, .product hd => .product hd.erase
  | _, .expressions hd => .expressions hd.erase

theorem IsWeightset.erase : ∀ {d : Descriptor}, IsWeightset d → IsWeightset d.erase
  | _, .weightset hname => .weightset hname
  | _, .polynomialset hc => .polynomialset hc.erase
  | _, .product hd => .product hd.erase
  | _, .expressions hd => .expressions hd.erase

theorem IsMember.erase : ∀ {d : Descriptor}, IsMember d → IsMember d.erase
  | _, .labelset hd => .labelset hd.erase
  | _, .weightset hd => .weightset hd.erase

theorem IsProduct.erase : ∀ {d : Descriptor}, IsProduct d → IsProduct d.erase
  | _, .tupleset hds => .tupleset (forall_mem_eraseAll fun e he => (hds e he).erase)

theorem IsExpressions.erase : ∀ {d : Descriptor}, IsExpressions d → IsExpressions d.erase
  | _, .expressionset hc => .expressionset hc.erase

theorem IsContext.erase : ∀ {d : Descriptor}, IsContext d → IsContext d.erase
  | _, .context hl hw => .context hl.erase hw.erase

end

theorem IsType.erase {d : Descriptor} (h : IsType d) : IsType d.erase := by
  induction h with
  | context hd => exact .context hd.erase
  | labelset hd => exact .labelset hd.erase
  | weightset hd => exact .weightset hd.erase
  | expansionset he => exact .expansionset he.erase
  | tuple _ ih => exact .tuple (forall_mem_eraseAll ih)
  | automaton hname _ ih => exact .automaton hname (forall_mem_eraseAll ih)
  | other hname => exact .other hname

end Descriptor
end OnDemand
