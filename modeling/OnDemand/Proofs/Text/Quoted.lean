import OnDemand.Proofs.Text.Pieces
import OnDemand.Text.Quoted

/-!
# Quoted text is read back

What `Quoted.read?` takes off the front of a text is what `Quoted.text` has written there, whatever
characters it is made of, and the same holds of lists of texts.  Literals are on one line.
-/

namespace OnDemand.Quoted

/-! ## Code points -/

theorem hexDigit?_digitChar {d : Nat} (h : d < 16) : hexDigit? d.digitChar = some d := by
  have hall : ∀ d : Fin 16, hexDigit? d.val.digitChar = some d.val := by decide
  exact hall ⟨d, h⟩

/-- What a further digit makes of the value of the digits before it. -/
def pushDigit (value : Option Nat) (d : Char) : Option Nat := do
  return (← value) * 16 + (← hexDigit? d)

theorem foldl_pushDigit_ofNatHex (n : Nat) :
    (Text.ofNatHex n).foldl pushDigit (some 0) = some n := by
  induction n using Nat.strongRecOn with
  | ind n ih =>
      unfold Text.ofNatHex at ih ⊢
      by_cases hsmall : n < 16
      · rw [Nat.toDigits_of_lt_base hsmall, List.foldl_cons, List.foldl_nil, pushDigit,
          hexDigit?_digitChar hsmall]
        simp
      · have hlarge : 16 ≤ n := by omega
        rw [Nat.toDigits_of_base_le (by decide) hlarge, List.foldl_append, ih (n / 16) (by omega),
          List.foldl_cons, List.foldl_nil, pushDigit,
          hexDigit?_digitChar (Nat.mod_lt _ (by decide))]
        simp only [Option.pure_def, Option.bind_eq_bind, Option.bind_some, Option.some.injEq]
        omega

theorem isSome_hexDigit?_of_mem {n : Nat} {c : Char} (h : c ∈ Text.ofNatHex n) :
    (hexDigit? c).isSome = true := by
  induction n using Nat.strongRecOn with
  | ind n ih =>
      unfold Text.ofNatHex at ih h
      by_cases hsmall : n < 16
      · rw [Nat.toDigits_of_lt_base hsmall, List.mem_singleton] at h
        rw [h, hexDigit?_digitChar hsmall]
        rfl
      · have hlarge : 16 ≤ n := by omega
        rw [Nat.toDigits_of_base_le (by decide) hlarge, List.mem_append, List.mem_singleton] at h
        rcases h with h | rfl
        · exact ih (n / 16) (by omega) h
        · rw [hexDigit?_digitChar (Nat.mod_lt _ (by decide))]
          rfl

theorem hexValue?_ofNatHex (n : Nat) : hexValue? (Text.ofNatHex n) = some n := by
  have hfold := foldl_pushDigit_ofNatHex n
  cases hdigits : Text.ofNatHex n with
  | nil =>
      have hne : Text.ofNatHex n ≠ [] := Nat.toDigits_ne_nil
      exact absurd hdigits hne
  | cons c ds =>
      rw [hdigits] at hfold
      exact hfold

theorem ofCodePoint?_toNat (c : Char) : ofCodePoint? c.toNat = some c := by
  have hvalid : c.toNat.isValidChar := c.valid
  rw [ofCodePoint?, dif_pos hvalid]
  congr 1

theorem body?_digits {ds : Text} (h : '}' ∉ ds) (seen t : Text) :
    body? (.digits seen) (ds ++ '}' :: t) = body? (.digits (ds.reverse ++ seen)) ('}' :: t) := by
  induction ds generalizing seen with
  | nil => rfl
  | cons c ds ih =>
      rw [List.mem_cons, not_or] at h
      rw [List.cons_append, body?, if_neg (Ne.symm h.1), ih h.2, List.reverse_cons,
        List.append_assoc]
      rfl

theorem body?_codePoint (c : Char) (t : Text) :
    body? .plain (codePoint c ++ t) = (body? .plain t).map fun (a, r) => (c :: a, r) := by
  have hdigits : '}' ∉ Text.ofNatHex c.toNat := fun hmem =>
    absurd (isSome_hexDigit?_of_mem hmem) (by decide)
  have htext : codePoint c ++ t = '\\' :: 'u' :: '{' :: (Text.ofNatHex c.toNat ++ '}' :: t) := by
    simp [codePoint]
  rw [htext, body?, if_neg (by decide), if_pos rfl, body?]
  simp only [Char.reduceEq, ↓reduceIte, or_self]
  rw [body?, if_pos rfl, body?_digits hdigits, List.append_nil, body?, if_pos rfl,
    List.reverse_reverse, hexValue?_ofNatHex, Option.bind_eq_bind, Option.bind_some,
    ofCodePoint?_toNat]
  cases body? .plain t <;> rfl

/-! ## Characters and literals -/

/-- Between the quotes, a character is read back as it was written. -/
theorem body?_character (c : Char) (t : Text) :
    body? .plain (character c ++ t) = (body? .plain t).map fun (a, r) => (c :: a, r) := by
  unfold character
  -- The escapes that are texts of their own come first, in the order of the definition.
  split
  · subst c; rfl
  split
  · subst c; rfl
  split
  · subst c; rfl
  split
  · subst c; rfl
  split
  · subst c; rfl
  split
  · subst c; rfl
  rename_i hbackslash hquote
  have hplain : body? .plain ([c] ++ t) = (body? .plain t).map fun (a, r) => (c :: a, r) := by
    rw [List.singleton_append, body?, if_neg hquote, if_neg hbackslash]
  split
  · exact hplain
  · split
    · exact body?_codePoint c t
    · exact hplain

theorem body?_flatMap_character (t rest : Text) :
    body? .plain (t.flatMap character ++ '"' :: rest) = some (t, rest) := by
  induction t with
  | nil => rfl
  | cons c t ih =>
      rw [List.flatMap_cons, List.append_assoc, body?_character, ih]
      rfl

/-- A literal is read back, and what follows it is left. -/
theorem read?_text (t rest : Text) : read? (text t ++ rest) = some (t, rest) := by
  have htext : text t ++ rest = '"' :: (t.flatMap character ++ '"' :: rest) := by simp [text]
  rw [htext, read?, if_pos rfl, body?_flatMap_character]

theorem listBody?_joinWith {n : Nat} {ts : List Text} (hne : ts ≠ []) (hn : ts.length ≤ n)
    (rest : Text) :
    listBody? n (Text.joinWith ", ".toList (ts.map text) ++ ']' :: rest) = some ts := by
  induction ts generalizing n with
  | nil => exact absurd rfl hne
  | cons t ts ih =>
      cases n with
      | zero => simp at hn
      | succ n =>
          cases ts with
          | nil =>
              rw [List.map_cons, List.map_nil, Text.joinWith, listBody?, read?_text]
              rfl
          | cons u us =>
              have hrest := ih (List.cons_ne_nil u us) (Nat.le_of_succ_le_succ hn)
              rw [List.map_cons] at hrest
              rw [List.map_cons, List.map_cons, Text.joinWith, List.append_assoc, List.append_assoc,
                listBody?, read?_text]
              show (listBody? n (_ ++ ']' :: rest)).map (t :: ·) = some (t :: u :: us)
              rw [hrest, Option.map_some]

theorem length_le_joinWith (ts : List Text) :
    ts.length ≤ (Text.joinWith ", ".toList (ts.map text)).length := by
  induction ts with
  | nil => exact Nat.zero_le _
  | cons t ts ih =>
      have htext : 1 ≤ (text t).length := by simp [text]
      cases ts with
      | nil => simpa [Text.joinWith] using htext
      | cons u us =>
          rw [List.map_cons] at ih ⊢
          rw [List.map_cons, Text.joinWith, List.length_append, List.length_append,
            List.length_cons]
          omega

/-- A list of literals is read back, whatever follows it. -/
theorem readList?_list (ts : List Text) (rest : Text) :
    readList? (list ts ++ rest) = some ts := by
  cases ts with
  | nil => rfl
  | cons t ts =>
      have hlist : list (t :: ts) ++ rest =
          '[' :: (Text.joinWith ", ".toList ((t :: ts).map text) ++ ']' :: rest) := by
        simp [list]
      have hbody := listBody?_joinWith (List.cons_ne_nil t ts)
        (n := (Text.joinWith ", ".toList ((t :: ts).map text) ++ ']' :: rest).length)
        (Nat.le_trans (length_le_joinWith (t :: ts)) (by simp)) rest
      obtain ⟨joined, hjoined⟩ : ∃ joined, Text.joinWith ", ".toList ((t :: ts).map text) =
          '"' :: joined := by
        cases ts with
        | nil => exact ⟨_, rfl⟩
        | cons u us => exact ⟨_, rfl⟩
      rw [hlist]
      rw [hjoined] at hbody ⊢
      exact hbody

/-! ## Lines -/

theorem newline_not_mem_codePoint (c : Char) : '\n' ∉ codePoint c := by
  have hdigits : '\n' ∉ Text.ofNatHex c.toNat := fun hmem =>
    absurd (isSome_hexDigit?_of_mem hmem) (by decide)
  simp [codePoint, hdigits]

theorem newline_not_mem_character (c : Char) : '\n' ∉ character c := by
  have hne : c ≠ '\n' → '\n' ∉ [c] := by simp [eq_comm]
  have hcode := newline_not_mem_codePoint c
  unfold character
  grind

theorem newline_not_mem_text (t : Text) : '\n' ∉ text t := by
  simp [text, newline_not_mem_character]

theorem newline_not_mem_list (ts : List Text) : '\n' ∉ list ts := by
  have hjoined : '\n' ∉ Text.joinWith ", ".toList (ts.map text) := by
    intro hmem
    rcases Text.mem_joinWith hmem with hsep | ⟨piece, hpiece, hc⟩
    · exact absurd hsep (by decide)
    · obtain ⟨t, -, rfl⟩ := List.mem_map.1 hpiece
      exact newline_not_mem_text t hc
  unfold list
  rw [List.mem_append, List.mem_cons, not_or, not_or]
  exact ⟨⟨by decide, hjoined⟩, by decide⟩

end OnDemand.Quoted
