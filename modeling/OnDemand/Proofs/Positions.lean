import Mathlib.Data.List.Basic

/-!
# Positions in lists

Callers and workers are known by their positions in a list, and one of them changes at a time.
-/

namespace OnDemand

section Positions

variable {α : Type} {members : List α} {i j : Nat} {c d : α}

/-- What is in a list with one element changed was there before, elsewhere, or is the new one. -/
theorem getElem?_set_cases (h : (members.set i c)[j]? = some d) :
    (j = i ∧ d = c) ∨ (j ≠ i ∧ members[j]? = some d) := by
  rw [List.getElem?_set] at h
  by_cases hij : i = j
  · rw [if_pos hij] at h
    split at h
    next => exact .inl ⟨hij.symm, (Option.some.inj h).symm⟩
    next => cases h
  · rw [if_neg hij] at h
    exact .inr ⟨Ne.symm hij, h⟩

/-- A list stays the same if an element is changed to what it is. -/
theorem set_of_getElem? (h : members[i]? = some c) : members.set i c = members := by
  obtain ⟨hlt, rfl⟩ := List.getElem?_eq_some_iff.1 h
  exact List.set_getElem_self hlt

end Positions
end OnDemand
