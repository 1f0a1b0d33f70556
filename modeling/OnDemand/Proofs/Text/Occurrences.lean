import OnDemand.Text.Basic

/-!
# Beginnings, endings and occurrences

What the cuts at a known text find: `dropPrefix?` and `dropSuffix?` at either end, `splitFirst?` at
the first place where the text occurs, and `splitLast?` at the last.
-/

namespace OnDemand.Text

/-! ## Beginnings -/

theorem dropPrefix?_eq_some_iff {α : Type} [DecidableEq α] {p t r : List α} :
    dropPrefix? p t = some r ↔ t = p ++ r := by
  induction p generalizing t with
  | nil => simp [dropPrefix?]
  | cons c p ih =>
      cases t with
      | nil => simp [dropPrefix?]
      | cons d t =>
          by_cases hc : c = d
          · subst hc
            simpa [dropPrefix?] using ih
          · simp [dropPrefix?, hc, Ne.symm hc]

theorem dropPrefix?_append {α : Type} [DecidableEq α] (p t : List α) :
    dropPrefix? p (p ++ t) = some t :=
  dropPrefix?_eq_some_iff.2 rfl

/-- A beginning without the character is found before it. -/
theorem dropPrefix?_append_cons {p : Text} {c : Char} (h : c ∉ p) (t r : Text) :
    dropPrefix? p (t ++ c :: r) = (dropPrefix? p t).map (· ++ c :: r) := by
  induction p generalizing t with
  | nil => simp [dropPrefix?]
  | cons d p ih =>
      rw [List.mem_cons, not_or] at h
      cases t with
      | nil => simp [dropPrefix?, Ne.symm h.1]
      | cons e t =>
          by_cases hd : d = e
          · subst hd
            simpa [dropPrefix?] using ih h.2 t
          · simp [dropPrefix?, hd]

/-! ## Endings -/

theorem dropSuffix?_eq_some_iff {s t r : Text} : dropSuffix? s t = some r ↔ t = r ++ s := by
  rw [dropSuffix?, Option.map_eq_some_iff]
  constructor
  · rintro ⟨u, hu, rfl⟩
    simpa using congrArg List.reverse (dropPrefix?_eq_some_iff.1 hu)
  · rintro rfl
    exact ⟨r.reverse, by rw [List.reverse_append, dropPrefix?_append], List.reverse_reverse r⟩

theorem dropSuffix?_append (s t : Text) : dropSuffix? s (t ++ s) = some t :=
  dropSuffix?_eq_some_iff.2 rfl

/-- A text ends as its rest does, unless it is the ending itself. -/
theorem dropSuffix?_cons (s : Text) (c : Char) (t : Text) :
    dropSuffix? s (c :: t) =
      match dropSuffix? s t with
      | some r => some (c :: r)
      | none => if c :: t = s then some [] else none := by
  cases ht : dropSuffix? s t with
  | some r =>
      rw [dropSuffix?_eq_some_iff] at ht
      exact dropSuffix?_eq_some_iff.2 (by rw [ht, List.cons_append])
  | none =>
      by_cases hs : c :: t = s
      · subst hs
        simpa using dropSuffix?_append (c :: t) []
      · simp only [hs, if_false]
        refine Option.eq_none_iff_forall_ne_some.2 fun r hr => ?_
        rw [dropSuffix?_eq_some_iff] at hr
        cases r with
        | nil => exact hs hr
        | cons d r =>
            have hrest : t = r ++ s := (List.cons.inj hr).2
            rw [dropSuffix?_eq_some_iff.2 hrest] at ht
            cases ht

/-- A text does not end with what ends with another character. -/
theorem dropSuffix?_of_ne {c c' : Char} (h : c ≠ c') (s t : Text) :
    dropSuffix? (s ++ [c]) (t ++ [c']) = none := by
  simp [dropSuffix?, dropPrefix?, h]

/-! ## Occurrences -/

/-- What stands before and after the last occurrence of `p` in `t`. -/
def splitLast? (p : Text) : Text → Option (Text × Text)
  | [] => (dropPrefix? p []).map fun r => ([], r)
  | c :: t =>
    match splitLast? p t with
    | some (a, r) => some (c :: a, r)
    | none => (dropPrefix? p (c :: t)).map fun r => ([], r)

variable {p t a r : Text}

/-- With as much text before it, it is the same occurrence. -/
theorem eq_of_append_eq {b s : Text} (h : a ++ p ++ r = b ++ p ++ s) (hlength : a.length = b.length) :
    a = b ∧ r = s := by
  rw [List.append_assoc, List.append_assoc] at h
  obtain ⟨hab, hrest⟩ := List.append_inj h hlength
  exact ⟨hab, List.append_cancel_left hrest⟩

theorem eq_of_splitFirst? (h : splitFirst? p t = some (a, r)) : t = a ++ p ++ r := by
  induction t generalizing a with
  | nil =>
      obtain ⟨r', hr, heq⟩ := Option.map_eq_some_iff.1 h
      cases heq
      simpa using dropPrefix?_eq_some_iff.1 hr
  | cons c t ih =>
      rw [splitFirst?] at h
      split at h
      next r' hr =>
          cases h
          simpa using dropPrefix?_eq_some_iff.1 hr
      next =>
          obtain ⟨⟨a', r'⟩, hrest, heq⟩ := Option.map_eq_some_iff.1 h
          cases heq
          rw [ih hrest]
          rfl

theorem exists_splitFirst? (t : Text) (ht : t = a ++ p ++ r) :
    ∃ a' r', splitFirst? p t = some (a', r') ∧ a'.length ≤ a.length := by
  induction t generalizing a with
  | nil =>
      have hp : p = [] := by simp_all
      exact ⟨[], [], by simp [splitFirst?, dropPrefix?, hp], by simp⟩
  | cons c t ih =>
      rw [splitFirst?]
      cases hhere : dropPrefix? p (c :: t) with
      | some r' => exact ⟨[], r', rfl, by simp⟩
      | none =>
          cases a with
          | nil =>
              rw [dropPrefix?_eq_some_iff.2 (by simpa using ht)] at hhere
              cases hhere
          | cons d a =>
              obtain ⟨a', r', hrest, hlength⟩ := ih (List.cons.inj ht).2
              exact ⟨c :: a', r', by simp [hrest], by simpa using hlength⟩

/-- The first occurrence has the least text before it. -/
theorem splitFirst?_eq_some_iff :
    splitFirst? p t = some (a, r) ↔
      t = a ++ p ++ r ∧ ∀ a' r', t = a' ++ p ++ r' → a.length ≤ a'.length := by
  constructor
  · intro h
    refine ⟨eq_of_splitFirst? h, fun a' r' ht => ?_⟩
    obtain ⟨b, s, hsplit, hlength⟩ := exists_splitFirst? t ht
    rw [h] at hsplit
    cases hsplit
    exact hlength
  · rintro ⟨ht, hleast⟩
    obtain ⟨b, s, hsplit, hlength⟩ := exists_splitFirst? t ht
    have hb : t = b ++ p ++ s := eq_of_splitFirst? hsplit
    obtain ⟨rfl, rfl⟩ := eq_of_append_eq (ht.symm.trans hb)
      (Nat.le_antisymm (hleast b s hb) hlength)
    exact hsplit

/-- Before the first occurrence of a character there is none. -/
theorem splitFirst?_char_eq_some_iff {c : Char} :
    splitFirst? [c] t = some (a, r) ↔ t = a ++ c :: r ∧ c ∉ a := by
  rw [splitFirst?_eq_some_iff, List.append_assoc]
  refine and_congr_right fun ht => ⟨fun hleast hmem => ?_, fun hnot a' r' ht' => ?_⟩
  · obtain ⟨u, v, rfl⟩ := List.append_of_mem hmem
    have hlength := hleast u (v ++ c :: r) (by simp [ht])
    rw [List.length_append, List.length_cons] at hlength
    omega
  · refine Nat.le_of_not_lt fun hlt => hnot ?_
    -- The character of the other occurrence would stand before this one.
    have hchar : (a ++ c :: r)[a'.length]? = some c := by
      have heq : a ++ c :: r = a' ++ [c] ++ r' := ht.symm.trans ht'
      simp [heq]
    rw [List.getElem?_append_left hlt] at hchar
    exact List.mem_of_getElem? hchar

end OnDemand.Text
