import Mathlib.Data.List.Nodup

/-!
# Lists without repetitions

What is left of a list when every element is kept where it stands first.  Each proof goes as the
list is worked off: behind the first element its repetitions are gone (`eraseDups_induction`).
-/

namespace OnDemand

variable {α : Type} [BEq α]

@[elab_as_elim]
theorem eraseDups_induction {motive : List α → Prop} (nil : motive [])
    (cons : ∀ x xs, motive (xs.filter fun y => !y == x) → motive (x :: xs)) (xs : List α) :
    motive xs := by
  induction h : xs.length using Nat.strongRecOn generalizing xs with
  | ind n ih =>
      cases xs with
      | nil => exact nil
      | cons x xs =>
          have hshorter : (xs.filter fun y => !y == x).length < n := by
            have hle := List.length_filter_le (fun y => !y == x) xs
            rw [List.length_cons] at h
            omega
          exact cons x xs (ih _ hshorter _ rfl)

variable [LawfulBEq α]

theorem eraseDups_of_forall {xs : List α} {x : α} (hne : xs ≠ []) (h : ∀ y ∈ xs, y = x) :
    xs.eraseDups = [x] := by
  cases xs with
  | nil => exact absurd rfl hne
  | cons y xs =>
      rw [List.forall_mem_cons] at h
      obtain ⟨rfl, h⟩ := h
      have hnone : xs.filter (fun z => !z == y) = [] :=
        List.filter_eq_nil_iff.2 fun z hz => by simp [h z hz]
      rw [List.eraseDups_cons, hnone, List.eraseDups_nil]

theorem nodup_eraseDups (xs : List α) : xs.eraseDups.Nodup := by
  induction xs using eraseDups_induction with
  | nil => exact List.nodup_nil
  | cons x xs ih =>
      rw [List.eraseDups_cons, List.nodup_cons, List.mem_eraseDups]
      exact ⟨by simp, ih⟩

theorem filter_eraseDups (p : α → Bool) (xs : List α) :
    xs.eraseDups.filter p = (xs.filter p).eraseDups := by
  induction xs using eraseDups_induction with
  | nil => rfl
  | cons x xs ih =>
      rw [List.eraseDups_cons]
      by_cases hx : p x = true
      · rw [List.filter_cons_of_pos hx, List.filter_cons_of_pos hx, List.eraseDups_cons, ih,
          List.filter_filter, List.filter_filter]
        simp only [Bool.and_comm]
      · rw [List.filter_cons_of_neg hx, List.filter_cons_of_neg hx, ih, List.filter_filter]
        refine congrArg List.eraseDups (List.filter_congr fun y _ => ?_)
        -- What is kept is not the one that is taken out.
        by_cases hy : y = x
        · simp [hy, hx]
        · simp [hy]

theorem eraseDups_eraseDups (xs : List α) : xs.eraseDups.eraseDups = xs.eraseDups := by
  induction xs using eraseDups_induction with
  | nil => rfl
  | cons x xs ih =>
      rw [List.eraseDups_cons, List.eraseDups_cons, filter_eraseDups, List.filter_filter]
      simp only [Bool.and_self]
      rw [ih]

/-- Repetitions may be taken out of the parts first. -/
theorem eraseDups_append_eraseDups (xs ys : List α) :
    (xs.eraseDups ++ ys.eraseDups).eraseDups = (xs ++ ys).eraseDups := by
  have hremove (zs : List α) : zs.removeAll xs.eraseDups = zs.removeAll xs := by
    refine List.filter_congr fun z _ => ?_
    have hmem := List.mem_eraseDups (a := z) (l := xs)
    simp [hmem]
  calc (xs.eraseDups ++ ys.eraseDups).eraseDups
      = xs.eraseDups ++ (ys.eraseDups.removeAll xs).eraseDups := by
        rw [List.eraseDups_append, eraseDups_eraseDups, hremove]
    _ = xs.eraseDups ++ (ys.removeAll xs).eraseDups := by
        rw [List.removeAll, filter_eraseDups, eraseDups_eraseDups, List.removeAll]
    _ = (xs ++ ys).eraseDups := List.eraseDups_append.symm

end OnDemand
