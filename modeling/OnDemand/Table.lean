/-!
# Tables

A table is a finite map kept as a list of pairs with ascending keys, so that two tables with the
same bindings are the same list.
-/

namespace OnDemand

/-- A finite map: pairs of a key and a value, keys ascending. -/
abbrev Table (κ α : Type) := List (κ × α)

namespace Table

variable {κ α : Type}

/-- The keys, ascending. -/
def keys (t : Table κ α) : List κ := t.map Prod.fst

variable [DecidableEq κ]

/-- The value bound to `k`. -/
def get? (k : κ) : Table κ α → Option α
  | [] => none
  | (k', v) :: t => if k = k' then some v else get? k t

theorem mem_of_get? {k : κ} {v : α} {t : Table κ α} (h : get? k t = some v) : (k, v) ∈ t := by
  induction t with
  | nil => cases h
  | cons b t ih =>
      rw [get?] at h
      split at h
      next heq =>
          cases h
          rw [heq]
          exact List.mem_cons_self
      next => exact List.mem_cons_of_mem _ (ih h)

/-- The table without a binding for `k`. -/
def erase (k : κ) (t : Table κ α) : Table κ α := t.filter fun b => b.1 ≠ k

theorem get?_erase (k k' : κ) (t : Table κ α) :
    get? k (erase k' t) = if k = k' then none else get? k t := by
  induction t with
  | nil => simp [erase, get?]
  | cons b t ih =>
      rcases b with ⟨k₀, v₀⟩
      have htail : erase k' ((k₀, v₀) :: t) =
          if k₀ = k' then erase k' t else (k₀, v₀) :: erase k' t := by
        by_cases h : k₀ = k'
        · simp [erase, h]
        · simp [erase, h]
      by_cases h₀ : k₀ = k'
      · subst h₀
        by_cases h : k = k₀
        · simpa [htail, h] using ih
        · simpa [htail, get?, h] using ih
      · by_cases h : k = k₀
        · subst h
          simp [htail, get?, h₀]
        · simp [htail, get?, h₀, h, ih]

variable [LT κ] [DecidableLT κ]

/-- The table with `k` bound to `v`, whatever it was bound to before. -/
def insert (k : κ) (v : α) : Table κ α → Table κ α
  | [] => [(k, v)]
  | (k', v') :: t =>
    if k = k' then (k, v) :: t
    else if k < k' then (k, v) :: (k', v') :: t
    else (k', v') :: insert k v t

/-- Each pair bound in turn; later pairs win. -/
def insertAll (pairs : List (κ × α)) (t : Table κ α) : Table κ α :=
  pairs.foldl (fun t (k, v) => insert k v t) t

theorem get?_insert (k k' : κ) (v : α) (t : Table κ α) :
    get? k (insert k' v t) = if k = k' then some v else get? k t := by
  induction t with
  | nil => simp [insert, get?]
  | cons b t ih =>
    obtain ⟨k₀, v₀⟩ := b
    by_cases h₁ : k' = k₀ <;> by_cases h₂ : k = k' <;> by_cases h₃ : k' < k₀ <;>
      simp_all [insert, get?]

end Table
end OnDemand
