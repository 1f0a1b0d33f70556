import OnDemand.Descriptor.Keyword
import OnDemand.Descriptor.Parameters
import OnDemand.Proofs.Tables
import OnDemand.Proofs.Text.Occurrences

/-!
# What the first word of a type announces

The tests of `Keyword.Opening.ofWord` come one after the other, so a word of one kind must fail the
tests of all the kinds before it.  Here each kind is brought back to the property of the word that
it stands for.
-/

namespace OnDemand

namespace Keyword

variable {w : Text}

/-! ## The namespace before a word -/

/-- A namespace is taken off only in front of a word that opens a descriptor. -/
theorem withoutNamespace_cases (w : Text) :
    withoutNamespace w = w ∨
      ∃ rest, w = "vcsn::".toList ++ rest ∧ isKeyword rest = true ∧ withoutNamespace w = rest := by
  unfold withoutNamespace
  cases h : Text.dropPrefix? "vcsn::".toList w with
  | none => exact .inl rfl
  | some rest =>
      have hw : w = "vcsn::".toList ++ rest := Text.dropPrefix?_eq_some_iff.1 h
      cases hrest : isKeyword rest with
      | false => exact .inl (by simp [hrest])
      | true => exact .inr ⟨rest, hw, hrest, by simp [hrest]⟩

theorem all_inWord_withoutNamespace (h : w.all inWord = true) :
    (withoutNamespace w).all inWord = true := by
  rcases withoutNamespace_cases w with hw | ⟨rest, hw, -, hrest⟩
  · rwa [hw]
  · rw [hw, List.all_append, Bool.and_eq_true] at h
    rw [hrest]
    exact h.2

/-! ## Openings -/

/-- A test whose positive answer is not the outcome has failed. -/
theorem of_ite_eq {α : Type} {p : Prop} [Decidable p] {a b c : α}
    (h : (if p then a else b) = c) (hne : a ≠ c) : ¬p ∧ b = c := by
  by_cases hp : p
  · rw [if_pos hp] at h
    exact absurd h hne
  · rw [if_neg hp] at h
    exact ⟨hp, h⟩

/-- What a word that opens no descriptor is not. -/
structure OpensNothing (w : Text) : Prop where
  automaton : ¬isAutomaton w = true
  context : w ≠ "context".toList
  expressions : w ≠ "expressionset".toList
  series : w ≠ "seriesset".toList
  expansions : w ≠ "expansionset".toList
  polynomials : w ≠ "polynomialset".toList
  tuple : w ≠ "std::tuple".toList
  const : w ≠ "const".toList
  terminal : ¬isTerminal w = true
  labelset : ¬isLabelset w = true
  joined : ¬(splitJoined? w).isSome = true

theorem opensNothing_of_opaqueName (h : Opening.ofWord w = .opaqueName) : OpensNothing w := by
  rw [Opening.ofWord] at h
  rcases of_ite_eq h (by decide) with ⟨hautomaton, h⟩
  rcases of_ite_eq h (by decide) with ⟨hcontext, h⟩
  rcases of_ite_eq h (by decide) with ⟨hexpressions, h⟩
  rcases of_ite_eq h (by decide) with ⟨hseries, h⟩
  rcases of_ite_eq h (by decide) with ⟨hexpansions, h⟩
  rcases of_ite_eq h (by decide) with ⟨hpolynomials, h⟩
  rcases of_ite_eq h (by decide) with ⟨htuple, h⟩
  rcases of_ite_eq h (by decide) with ⟨hconst, h⟩
  rcases of_ite_eq h (by decide) with ⟨hterminal, h⟩
  rcases of_ite_eq h (by decide) with ⟨hlabelset, h⟩
  rcases of_ite_eq h (by decide) with ⟨hjoined, -⟩
  exact ⟨hautomaton, hcontext, hexpressions, hseries, hexpansions, hpolynomials, htuple, hconst,
    hterminal, hlabelset, hjoined⟩

theorem isAutomaton_of_opening (h : Opening.ofWord w = .automaton) : isAutomaton w = true := by
  rw [Opening.ofWord] at h
  by_cases hautomaton : isAutomaton w = true
  · exact hautomaton
  · rw [if_neg hautomaton] at h
    -- No later test has this outcome.
    repeat' split at h
    all_goals exact absurd h (by decide)

theorem opening_of_isAutomaton (h : isAutomaton w = true) : Opening.ofWord w = .automaton := by
  rw [Opening.ofWord, if_pos h]

/-- A word that opens a descriptor behind a namespace opens one without it too. -/
theorem opening_ne_of_isKeyword (h : isKeyword w = true) : Opening.ofWord w ≠ .opaqueName := by
  intro hopening
  have hw := opensNothing_of_opaqueName hopening
  simp only [isKeyword, Bool.or_eq_true, beq_iff_eq] at h
  rcases h with ((((h | h) | h) | h) | h) | h
  · exact hw.automaton h
  · exact hw.labelset h
  · exact hw.terminal h
  · exact hw.context h
  · exact hw.expansions h
  · exact hw.polynomials h

theorem withoutNamespace_eq_of_opaqueName (h : Opening.ofWord (withoutNamespace w) = .opaqueName) :
    withoutNamespace w = w := by
  rcases withoutNamespace_cases w with hw | ⟨rest, -, hkeyword, hrest⟩
  · exact hw
  · rw [hrest] at h
    exact absurd h (opening_ne_of_isKeyword hkeyword)

end Keyword
end OnDemand
