import OnDemand.Text.Basic

/-!
# Sizes and stretches

A text has a number of characters and a size in bytes, which is no smaller.  The stretches of a text
are what it is cut into after every so many characters.  Numbers written in decimal are told apart.
-/

namespace OnDemand.Text

/-! ## Sizes in bytes -/

theorem byteSize_append (s t : Text) : byteSize (s ++ t) = byteSize s + byteSize t := by
  induction s with
  | nil => simp [byteSize]
  | cons c s ih => simp [byteSize, ih, Nat.add_assoc]

theorem byteSize_eq_length {t : Text} (h : ∀ c ∈ t, c.utf8Size = 1) : byteSize t = t.length := by
  induction t with
  | nil => rfl
  | cons c t ih =>
      rw [List.forall_mem_cons] at h
      rw [byteSize, h.1, ih h.2, List.length_cons, Nat.add_comm]

theorem length_le_byteSize (t : Text) : t.length ≤ byteSize t := by
  induction t with
  | nil => exact Nat.le_refl _
  | cons c t ih =>
      have hc := c.utf8Size_pos
      rw [List.length_cons, byteSize]
      omega

theorem byteSize_replicate (n : Nat) (c : Char) :
    byteSize (List.replicate n c) = n * c.utf8Size := by
  induction n with
  | zero => rw [List.replicate_zero, Nat.zero_mul, byteSize]
  | succ n ih => rw [List.replicate_succ, byteSize, ih, Nat.succ_mul, Nat.add_comm]

/-! ## Stretches -/

/-- The `i`-th stretch of `n` characters of the text. -/
def stretch (n i : Nat) (t : Text) : Text := (t.drop (n * i)).take n

theorem length_stretch_le (n i : Nat) (t : Text) : (stretch n i t).length ≤ n :=
  List.length_take_le n _

theorem stretch_zero (n : Nat) (t : Text) : stretch n 0 t = t.take n := by
  rw [stretch, Nat.mul_zero, List.drop_zero]

/-- The stretches behind the first are those of the rest of the text. -/
theorem stretch_succ (n i : Nat) (t : Text) : stretch n (i + 1) t = stretch n i (t.drop n) := by
  rw [stretch, stretch, List.drop_drop, Nat.mul_succ, Nat.add_comm]

theorem byteSize_stretch_le (n i : Nat) (t : Text) : byteSize (stretch n i t) ≤ byteSize t := by
  have hsplit : t.take (n * i) ++ (stretch n i t ++ (t.drop (n * i)).drop n) = t := by
    rw [stretch, List.take_append_drop, List.take_append_drop]
  calc
    byteSize (stretch n i t)
        ≤ byteSize (t.take (n * i) ++ (stretch n i t ++ (t.drop (n * i)).drop n)) := by
          rw [byteSize_append, byteSize_append]
          omega
    _ = byteSize t := by rw [hsplit]

/-! ## Numbers -/

theorem ofNat_inj {n n' : Nat} (h : ofNat n = ofNat n') : n = n' := by
  have hvalue := congrArg (fun t => Nat.ofDigitChars 10 t 0) h
  simp only [ofNat] at hvalue
  rwa [Nat.ofDigitChars_toDigits (by decide) (by decide),
    Nat.ofDigitChars_toDigits (by decide) (by decide)] at hvalue

end OnDemand.Text
