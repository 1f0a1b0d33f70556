import OnDemand.Text.Blank

/-!
# Trimming

What trimming takes off: all blanks at either end of a text, and nothing from a text that begins and
ends with other characters.
-/

namespace OnDemand.Text

/-! ## At the beginning -/

@[simp] theorem trimStart_cons {c : Char} (h : isBlank c = false) (t : Text) :
    trimStart (c :: t) = c :: t := by
  simp [trimStart, h]

theorem trimStart_append_of_blank {blanks : Text} (h : ∀ c ∈ blanks, isBlank c = true) (t : Text) :
    trimStart (blanks ++ t) = trimStart t := by
  induction blanks with
  | nil => rfl
  | cons c blanks ih =>
      have htrim : trimStart (c :: (blanks ++ t)) =
          if isBlank c then trimStart (blanks ++ t) else c :: (blanks ++ t) := List.dropWhile_cons
      rw [List.cons_append, htrim, if_pos (h c (by simp))]
      exact ih fun d hd => h d (by simp [hd])

/-! ## At the end -/

theorem trimEnd_concat {c : Char} (hc : isBlank c = false) (t : Text) :
    trimEnd (t ++ [c]) = t ++ [c] := by
  rw [trimEnd, List.reverse_append, List.reverse_singleton, List.singleton_append,
    List.dropWhile_cons_of_neg (by simp [hc]), List.reverse_cons, List.reverse_reverse]

/-! ## At both ends -/

theorem trim_append (t : Text) :
    trim t ++ ((trimStart t).reverse.takeWhile isBlank).reverse = trimStart t := by
  rw [trim, trimEnd, ← List.reverse_append, List.takeWhile_append_dropWhile, List.reverse_reverse]

theorem trim_prefix (t : Text) : trim t <+: trimStart t := ⟨_, trim_append t⟩

/-- There are blanks around a trimmed text, and it begins with none. -/
theorem trim_split (t : Text) :
    ∃ before after : Text, (∀ c ∈ before, isBlank c = true) ∧ (∀ c ∈ after, isBlank c = true) ∧
      t = before ++ (trim t ++ after) ∧ ∀ c r, trim t = c :: r → isBlank c = false := by
  refine ⟨t.takeWhile isBlank, ((trimStart t).reverse.takeWhile isBlank).reverse, ?_, ?_, ?_, ?_⟩
  · exact List.all_eq_true.1 List.all_takeWhile
  · intro c hc
    exact List.all_eq_true.1 List.all_takeWhile c (List.mem_reverse.1 hc)
  · rw [trim_append, trimStart, List.takeWhile_append_dropWhile]
  · intro c r hcr
    -- The trimmed text is a beginning of the text without the blanks before it.
    have hprefix := trim_prefix t
    rw [hcr] at hprefix
    obtain ⟨s, hs⟩ := hprefix
    cases hblank : isBlank c with
    | false => rfl
    | true =>
        have hhead : (t.dropWhile isBlank).head? = some c := by
          rw [← trimStart, ← hs]
          rfl
        have hnot := List.head?_dropWhile_not isBlank t
        rw [hhead] at hnot
        simp [hblank] at hnot

theorem trim_indented {c d : Char} (hc : isBlank c = false) (hd : isBlank d = false) (k : Nat)
    (t : Text) : trim (List.replicate k '\t' ++ (c :: t ++ [d])) = c :: t ++ [d] := by
  have hblank : ∀ b ∈ List.replicate k '\t', isBlank b = true := by
    intro b hb
    rw [(List.mem_replicate.1 hb).2]
    rfl
  rw [trim, trimStart_append_of_blank hblank, List.cons_append, trimStart_cons hc,
    ← List.cons_append, trimEnd_concat hd]

/-- Trimming leaves the last character, unless it is blank. -/
theorem getLast?_trim {c : Char} (hc : isBlank c = false) (t : Text) :
    (trim (t ++ [c])).getLast? = some c := by
  have hstart : ∃ u, trimStart (t ++ [c]) = u ++ [c] := by
    rw [trimStart, List.dropWhile_append]
    split
    · exact ⟨[], by simp [hc]⟩
    · exact ⟨_, rfl⟩
  obtain ⟨u, hu⟩ := hstart
  rw [trim, hu, trimEnd_concat hc, List.getLast?_concat]

end OnDemand.Text
