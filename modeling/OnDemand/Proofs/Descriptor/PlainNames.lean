import OnDemand.Proofs.Descriptor.ReadBack
import OnDemand.Proofs.Text.Sizes

/-!
# Names of contexts are plain

The short name of a context is made of words, brackets and commas: every character of it takes one
byte, and none is a slash.  Alphabets, which may hold any characters, are left out of it.
-/

namespace OnDemand

open Reader

/-! ## Plain characters -/

/-- The characters that names of contexts are made of. -/
def isPlainChar (c : Char) : Bool := inWord c || "<>(), ".toList.contains c

/-- Whether the text is made of such characters. -/
def IsPlain (t : Text) : Prop := t.all isPlainChar = true

instance (t : Text) : Decidable (IsPlain t) := inferInstanceAs (Decidable (_ = _))

theorem toNat_le_of_isPlainChar {c : Char} (h : isPlainChar c = true) : c.toNat ≤ 127 := by
  have hlist : "_:<>(), ".toList.all (fun d => decide (d.toNat ≤ 127)) = true := by decide
  by_cases hmem : c ∈ "_:<>(), ".toList
  · exact of_decide_eq_true (List.all_eq_true.1 hlist c hmem)
  · have halphanum : c.isAlphanum = true := by
      simp only [isPlainChar, inWord, Bool.or_eq_true, beq_iff_eq, List.contains_iff_mem] at h
      rcases h with ((h | rfl) | rfl) | h
      · exact h
      · exact absurd (by decide) hmem
      · exact absurd (by decide) hmem
      · exact absurd (List.mem_cons_of_mem _ (List.mem_cons_of_mem _ h)) hmem
    have hranges : ((decide (65 ≤ c.toNat ∧ c.toNat ≤ 90) ||
        (decide (97 ≤ c.toNat) && decide (c.toNat ≤ 122))) ||
        (decide (48 ≤ c.toNat) && decide (c.toNat ≤ 57))) = true := halphanum
    simp only [Bool.or_eq_true, Bool.and_eq_true, decide_eq_true_eq] at hranges
    omega

theorem utf8Size_of_isPlainChar {c : Char} (h : isPlainChar c = true) : c.utf8Size = 1 := by
  have hle : c.val ≤ 0x7f := toNat_le_of_isPlainChar h
  rw [Char.utf8Size]
  simp [hle]

theorem IsPlain.byteSize_eq {t : Text} (h : IsPlain t) : Text.byteSize t = t.length :=
  Text.byteSize_eq_length fun c hc => utf8Size_of_isPlainChar (List.all_eq_true.1 h c hc)

theorem IsPlain.slash_not_mem {t : Text} (h : IsPlain t) : '/' ∉ t := by
  intro hmem
  have hslash := List.all_eq_true.1 h '/' hmem
  revert hslash
  decide

theorem IsPlain.append {s t : Text} (hs : IsPlain s) (ht : IsPlain t) : IsPlain (s ++ t) := by
  rw [IsPlain, List.all_append, hs, ht]
  rfl

theorem IsPlain.cons {c : Char} {t : Text} (hc : isPlainChar c = true) (ht : IsPlain t) :
    IsPlain (c :: t) := by
  rw [IsPlain, List.all_cons, hc, ht]
  rfl

theorem isPlain_of_isWord {w : Text} (h : IsWord w) : IsPlain w := by
  refine List.all_eq_true.2 fun c hc => ?_
  rw [isPlainChar, h.inWord_of_mem hc, Bool.true_or]

/-! ## Names -/

namespace Descriptor

theorem isPlain_applied {head p : Text} (hhead : IsPlain head) (hp : IsPlain p) :
    IsPlain (applied head p) :=
  (hhead.append (.cons (by decide) hp)).append (by decide)

theorem isPlain_namesWith {ds : List Descriptor} (h : ∀ d ∈ ds, IsPlain d.shortName) :
    IsPlain (namesWith false ds) := by
  induction ds with
  | nil => rw [namesWith]; decide
  | cons d ds ih =>
      rw [List.forall_mem_cons] at h
      cases ds with
      | nil =>
          rw [namesWith]
          exact h.1
      | cons e ds =>
          rw [namesWith]
          exact (IsPlain.append h.1 (by decide)).append (ih h.2)

theorem IsGenset.isPlain {g : Descriptor} (h : IsGenset g) : IsPlain g.shortName := by
  cases h with
  | genset hletters =>
      rw [shortName, nameWith]
      · exact isPlain_of_isWord hletters
      · rintro _ ⟨⟩

theorem isPlain_identities (i : Identities) :
    IsPlain (if i = .usual then [] else '(' :: i.name ++ [')']) := by
  cases i <;> decide

/-! The induction is on the grammar of contexts: the names that go into a name are plain. -/

mutual

theorem IsLabelset.isPlain : ∀ {d : Descriptor}, IsLabelset d → IsPlain d.shortName
  | _, .letterset hg => by
      rw [shortName, nameWith]
      exact isPlain_applied (by decide) hg.isPlain
  | _, .wordset hg => by
      rw [shortName, nameWith]
      exact isPlain_applied (by decide) hg.isPlain
  | _, .nullableset hl => by
      rw [shortName, nameWith]
      exact isPlain_applied (by decide) hl.isPlain
  | _, .oneset => by decide
  | _, .product hd => hd.isPlain
  | _, .expressions hd => hd.isPlain

theorem IsWeightset.isPlain : ∀ {d : Descriptor}, IsWeightset d → IsPlain d.shortName
  | _, .weightset hname => by
      rw [shortName, nameWith]
      exact isPlain_of_isWord (isWord_of_isTerminal hname)
  | _, .polynomialset hc => by
      rw [shortName, nameWith]
      exact isPlain_applied (by decide) hc.isPlain
  | _, .product hd => hd.isPlain
  | _, .expressions hd => hd.isPlain

theorem IsMember.isPlain : ∀ {d : Descriptor}, IsMember d → IsPlain d.shortName
  | _, .labelset hd => hd.isPlain
  | _, .weightset hd => hd.isPlain

theorem IsProduct.isPlain : ∀ {d : Descriptor}, IsProduct d → IsPlain d.shortName
  | _, .tupleset hds => by
      rw [shortName, nameWith]
      exact isPlain_applied (by decide) (isPlain_namesWith fun d hd => (hds d hd).isPlain)

theorem IsExpressions.isPlain : ∀ {d : Descriptor}, IsExpressions d → IsPlain d.shortName
  | _, .expressionset hc => by
      rw [shortName, nameWith]
      exact (isPlain_applied (by decide) hc.isPlain).append (isPlain_identities _)

theorem IsContext.isPlain : ∀ {d : Descriptor}, IsContext d → IsPlain d.shortName
  | _, .context hl hw => by
      rw [shortName, nameWith]
      exact isPlain_applied (by decide) ((hl.isPlain.append (by decide)).append hw.isPlain)

end

end Descriptor
end OnDemand
