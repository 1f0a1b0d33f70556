import OnDemand.Table
import OnDemand.Text.Basic

/-!
# Tables in order

A table that is built by insertions has its keys in ascending order, and such tables are the same
when the same is found in them (`eq_of_get?`).  After many insertions the last one for a key counts
(`get?_insertAll`), so that inserting the same once more changes nothing (`insertAll_insertAll`).
-/

namespace OnDemand

namespace Text

/-- What is found in a list of pairs is in it. -/
theorem mem_of_lookup {β : Type} {table : List (Text × β)} {name : Text} {b : β}
    (h : table.lookup name = some b) : (name, b) ∈ table := by
  rcases List.lookup_eq_some_iff.1 h with ⟨before, after, hsplit, -⟩
  simp [hsplit]

end Text

namespace Table

variable {κ α : Type} [DecidableEq κ]

theorem mem_keys_iff {k : κ} {t : Table κ α} : k ∈ keys t ↔ (get? k t).isSome = true := by
  induction t with
  | nil => simp [keys, get?]
  | cons b t ih =>
      rcases b with ⟨k', v⟩
      by_cases h : k = k'
      · simp [keys, get?, h]
      · rw [get?, if_neg h, ← ih]
        simp [keys, h]

section Uniqueness

variable [LT κ]

/-- What is bound in a table in order is not before its first key. -/
theorem not_lt_of_get? [Std.Asymm (α := κ) (· < ·)] {k k' : κ} {v v' : α} {t : Table κ α}
    (h : (keys ((k', v') :: t)).Pairwise (· < ·)) (hk : get? k ((k', v') :: t) = some v) :
    ¬ k < k' := by
  intro hlt
  have hmem : k ∈ k' :: keys t := mem_keys_iff.2 (by rw [hk]; rfl)
  rcases List.mem_cons.1 hmem with rfl | hmem
  · exact Std.Asymm.asymm _ _ hlt hlt
  · exact Std.Asymm.asymm _ _ hlt ((List.pairwise_cons.1 h).1 k hmem)

/-- Tables in order are the same when the same is found in them. -/
theorem eq_of_get? [Std.Trichotomous (α := κ) (· < ·)] [Std.Asymm (α := κ) (· < ·)]
    {t t' : Table κ α} (h : (keys t).Pairwise (· < ·))
    (h' : (keys t').Pairwise (· < ·)) (hsame : ∀ k, get? k t = get? k t') : t = t' := by
  induction t generalizing t' with
  | nil =>
      cases t' with
      | nil => rfl
      | cons b t' => simpa [get?] using hsame b.1
  | cons b t ih =>
      obtain ⟨k, v⟩ := b
      cases t' with
      | nil => simpa [get?] using hsame k
      | cons b' t' =>
          obtain ⟨k', v'⟩ := b'
          have hfirst : get? k ((k', v') :: t') = some v := by rw [← hsame, get?, if_pos rfl]
          have hfirst' : get? k' ((k, v) :: t) = some v' := by rw [hsame, get?, if_pos rfl]
          obtain rfl : k = k' := Std.Trichotomous.trichotomous _ _
            (not_lt_of_get? h' hfirst) (not_lt_of_get? h hfirst')
          obtain rfl : v' = v := by simpa [get?] using hfirst
          have hrest : t = t' := by
            refine ih (List.pairwise_cons.1 h).2 (List.pairwise_cons.1 h').2 fun i => ?_
            by_cases hi : i = k
            · subst hi
              -- The first key is bound nowhere else.
              have hnone {u : Table κ α} (hu : (keys ((i, v') :: u)).Pairwise (· < ·)) :
                  get? i u = none := by
                refine Option.not_isSome_iff_eq_none.1 fun hsome => ?_
                have hlt := (List.pairwise_cons.1 hu).1 i (mem_keys_iff.2 hsome)
                exact Std.Asymm.asymm _ _ hlt hlt
              rw [hnone h, hnone h']
            · simpa [get?, hi] using hsame i
          rw [hrest]

end Uniqueness

section Order

variable [LT κ] [DecidableLT κ]

theorem mem_keys_insert {k k' : κ} {v : α} {t : Table κ α} (h : k ∈ keys (insert k' v t)) :
    k = k' ∨ k ∈ keys t := by
  rw [mem_keys_iff, get?_insert] at h
  split at h
  next heq => exact .inl heq
  next => exact .inr (mem_keys_iff.2 h)

/-- An insertion puts the key where it belongs. -/
theorem pairwise_keys_insert [Trans (α := κ) (· < ·) (· < ·) (· < ·)]
    [Std.Trichotomous (α := κ) (· < ·)] (k : κ) (v : α) {t : Table κ α}
    (h : (keys t).Pairwise (· < ·)) : (keys (insert k v t)).Pairwise (· < ·) := by
  induction t with
  | nil => exact List.pairwise_singleton _ _
  | cons b t ih =>
      rcases b with ⟨k', v'⟩
      have hcons : (k' :: keys t).Pairwise (· < ·) := h
      rcases List.pairwise_cons.1 hcons with ⟨hhead, htail⟩
      unfold insert
      split
      next heq =>
          rw [heq]
          exact h
      next hne =>
          split
          next hlt =>
              refine List.pairwise_cons.2 ⟨?_, h⟩
              intro k'' hk''
              rcases List.mem_cons.1 hk'' with rfl | hmem
              · exact hlt
              · exact Trans.trans hlt (hhead k'' hmem)
          next hnot =>
              have hgt : k' < k := by
                refine Decidable.byContradiction ?_
                intro hnot'
                exact hne (Std.Trichotomous.trichotomous k k' hnot hnot')
              refine List.pairwise_cons.2 ⟨?_, ih htail⟩
              intro k'' hk''
              rcases mem_keys_insert hk'' with rfl | hmem
              · exact hgt
              · exact hhead k'' hmem

/-! ## Many insertions -/

theorem insertAll_append (pairs more : List (κ × α)) (t : Table κ α) :
    insertAll (pairs ++ more) t = insertAll more (insertAll pairs t) :=
  List.foldl_append

theorem pairwise_keys_insertAll [Trans (α := κ) (· < ·) (· < ·) (· < ·)]
    [Std.Trichotomous (α := κ) (· < ·)] (pairs : List (κ × α)) {t : Table κ α}
    (h : (keys t).Pairwise (· < ·)) : (keys (insertAll pairs t)).Pairwise (· < ·) := by
  induction pairs generalizing t with
  | nil => exact h
  | cons pair pairs ih => exact ih (pairwise_keys_insert pair.1 pair.2 h)

/-- The last insertion for a key counts. -/
theorem get?_insertAll [BEq κ] [LawfulBEq κ] (k : κ) (pairs : List (κ × α)) (t : Table κ α) :
    get? k (insertAll pairs t) = (pairs.reverse.lookup k).or (get? k t) := by
  induction pairs generalizing t with
  | nil => rfl
  | cons pair pairs ih =>
      obtain ⟨k', v⟩ := pair
      have hstep : insertAll ((k', v) :: pairs) t = insertAll pairs (insert k' v t) := rfl
      rw [hstep, ih, List.reverse_cons, List.lookup_append, Option.or_assoc, get?_insert]
      by_cases hk : k = k'
      · simp [hk]
      · simp [List.lookup_cons, hk, beq_eq_false_iff_ne.2 hk]

/-- The same insertions once more change nothing. -/
theorem insertAll_insertAll [Trans (α := κ) (· < ·) (· < ·) (· < ·)]
    [Std.Trichotomous (α := κ) (· < ·)] [Std.Asymm (α := κ) (· < ·)] (pairs : List (κ × α))
    {t : Table κ α} (h : (keys t).Pairwise (· < ·)) :
    insertAll pairs (insertAll pairs t) = insertAll pairs t := by
  have hkeys := pairwise_keys_insertAll pairs h
  refine eq_of_get? (pairwise_keys_insertAll pairs hkeys) hkeys fun k => ?_
  rw [get?_insertAll, get?_insertAll, ← Option.or_assoc, Option.or_self]

end Order
end Table
end OnDemand
