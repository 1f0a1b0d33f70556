import OnDemand.Proofs.Descriptor.Steps
import OnDemand.Proofs.Text.Trimming

/-!
# Words, alphabets and raw parameters read back

The pieces that names are made of.  A word is read back when what follows cannot extend it, an
alphabet is read back whatever its characters, and raw parameters in canonical spacing are read
back as they stand.
-/

namespace OnDemand

/-! ## Characters -/

theorem isBlank_of_inWord {c : Char} (h : inWord c) : isBlank c = false := by
  have hA : 'A'.val.toNat = 65 := rfl
  have hZ : 'Z'.val.toNat = 90 := rfl
  have ha : 'a'.val.toNat = 97 := rfl
  have hz : 'z'.val.toNat = 122 := rfl
  have h0 : '0'.val.toNat = 48 := rfl
  have h9 : '9'.val.toNat = 57 := rfl
  -- The classes of characters as ranges of codes.
  have halpha : c.isAlpha = (c.isUpper || c.isLower) := rfl
  have hupper : c.isUpper = decide (c.val ≥ 'A'.val ∧ c.val ≤ 'Z'.val) := rfl
  have hlower : c.isLower = (decide (c.val ≥ 'a'.val) && decide (c.val ≤ 'z'.val)) := rfl
  simp only [inWord, Char.isAlphanum, halpha, hupper, hlower, Char.isDigit,
    Bool.or_eq_true, Bool.and_eq_true, decide_eq_true_eq, beq_iff_eq, UInt32.le_iff_toNat_le,
    ge_iff_le] at h
  rcases h with (h | rfl) | rfl
  · have hlow : 48 ≤ c.toNat := by
      unfold Char.toNat
      omega
    have hhigh : c.toNat ≤ 122 := by
      unfold Char.toNat
      omega
    simp only [isBlank, Bool.or_eq_false_iff, Bool.and_eq_false_iff, decide_eq_false_iff_not,
      beq_eq_false_iff_ne]
    omega
  · rfl
  · rfl

namespace Reader

/-! ## Words -/

/-- Whether `w` is a word as a whole. -/
def IsWord (w : Text) : Prop := w.head?.any startsWord = true ∧ w.all inWord = true

instance (w : Text) : Decidable (IsWord w) := inferInstanceAs (Decidable (_ ∧ _))

/-- Whether a word that comes before `t` ends there. -/
def BreaksWord (t : Text) : Prop := t.head?.any inWord = false

/-- What ends each name within a description: nothing more, a comma or a closing bracket. -/
inductive Stops : Text → Prop where
  | nil : Stops []
  | comma (t : Text) : Stops (',' :: t)
  | close (t : Text) : Stops ('>' :: t)

theorem Stops.breaksWord {t : Text} (h : Stops t) : BreaksWord t := by
  cases h with
  | nil => rfl
  | comma t => rfl
  | close t => rfl

theorem Stops.peek_ne {t : Text} (h : Stops t) {c : Char} (hcomma : c ≠ ',') (hclose : c ≠ '>') :
    peek t ≠ some c := by
  cases h with
  | nil => simp [peek, Text.trimStart]
  | comma t =>
      have hplain : isBlank ',' = false := rfl
      simpa [peek, Text.trimStart_cons hplain] using hcomma.symm
  | close t =>
      have hplain : isBlank '>' = false := rfl
      simpa [peek, Text.trimStart_cons hplain] using hclose.symm

@[simp] theorem peek_cons {c : Char} (h : isBlank c = false) (t : Text) :
    peek (c :: t) = some c := by
  simp [peek, h]

theorem leaves_expect_cons {c : Char} (h : isBlank c = false) (t : Text) :
    leaves (expect c (c :: t)) = some t := by
  simp [leaves_expect, h]

namespace IsWord

variable {w t : Text}

theorem ne_nil (h : IsWord w) : w ≠ [] := by
  rintro rfl
  exact absurd h.1 (by simp)

theorem inWord_of_mem (h : IsWord w) {c : Char} (hc : c ∈ w) : inWord c :=
  List.all_eq_true.1 h.2 c hc

theorem takeWhile_append (h : IsWord w) (ht : BreaksWord t) : (w ++ t).takeWhile inWord = w := by
  rw [List.takeWhile_append_of_pos fun c hc => h.inWord_of_mem hc]
  cases t with
  | nil => simp
  | cons c t =>
      have hc : inWord c = false := by simpa [BreaksWord] using ht
      simp [hc]

theorem dropWhile_append (h : IsWord w) (ht : BreaksWord t) : (w ++ t).dropWhile inWord = t := by
  rw [List.dropWhile_append_of_pos fun c hc => h.inWord_of_mem hc]
  cases t with
  | nil => simp
  | cons c t =>
      have hc : inWord c = false := by simpa [BreaksWord] using ht
      simp [hc]

theorem trimStart_append (h : IsWord w) (t : Text) : Text.trimStart (w ++ t) = w ++ t := by
  cases w with
  | nil => exact absurd rfl h.ne_nil
  | cons c w =>
      have hc : isBlank c = false := isBlank_of_inWord (h.inWord_of_mem List.mem_cons_self)
      simp [hc]

/-- A word is read back up to where it ends. -/
theorem word_append (h : IsWord w) (ht : BreaksWord t) :
    (word (w ++ t)).value = w ∧ (word (w ++ t)).rest = t := by
  have hhead : (w ++ t).head?.any startsWord = true := by
    cases w with
    | nil => exact absurd rfl h.ne_nil
    | cons c w => exact h.1
  simp only [word, h.trimStart_append, wordOf, afterWord, hhead, if_true]
  exact ⟨h.takeWhile_append ht, h.dropWhile_append ht⟩

end IsWord

/-- Blanks before a word play no part in it. -/
theorem word_space (t : Text) :
    (word (' ' :: t)).value = (word t).value ∧ (word (' ' :: t)).rest = (word t).rest :=
  ⟨rfl, rfl⟩

/-- What is read as a word is one, unless nothing is. -/
theorem isWord_word {s : Text} (h : (word s).value ≠ []) : IsWord (word s).value := by
  have hvalue : (word s).value = wordOf (Text.trimStart s) := rfl
  rw [hvalue] at h ⊢
  -- The blanks are gone: a word is read where its first character can begin one.
  generalize Text.trimStart s = t at h ⊢
  unfold wordOf at h ⊢
  split
  · rename_i hstart
    cases t with
    | nil => simp at hstart
    | cons c t =>
        have hc : startsWord c := by simpa using hstart
        refine ⟨?_, ?_⟩
        · simpa [startsWord_inWord hc] using hc
        · exact List.all_takeWhile
  · rename_i hstart
    rw [if_neg hstart] at h
    exact absurd rfl h

theorem word_eq_nil_or_isWord (s : Text) : (word s).value = [] ∨ IsWord (word s).value := by
  by_cases h : (word s).value = []
  · exact .inl h
  · exact .inr (isWord_word h)

/-! ## Alphabets -/

theorem gives_generators_escaped (gens rest : Text) :
    gives (generators ')'
        (gens.flatMap (fun c => if c = ')' ∨ c = '\\' then ['\\', c] else [c]) ++ ')' :: rest)) =
      some (gens, rest) := by
  induction gens with
  | nil => exact gives_generators_close ')' rest
  | cons c gens ih =>
      rw [List.flatMap_cons]
      by_cases hc : c = ')' ∨ c = '\\'
      · -- The backslash is dropped, and the character is taken as it is.
        rw [if_pos hc, List.append_assoc, List.cons_append, List.cons_append, List.nil_append,
          gives_generators_escape (by decide), ih]
        rfl
      · rw [if_neg hc, List.append_assoc, List.cons_append, List.nil_append]
        rw [not_or] at hc
        rw [gives_generators_plain hc.1 hc.2, ih]
        rfl

/-- An alphabet is read back whatever its characters. -/
theorem gives_alphabet_append (gens rest : Text) :
    gives (alphabet? (Descriptor.alphabet gens ++ rest)) = some (some gens, rest) := by
  have htext : Descriptor.alphabet gens ++ rest =
      '(' :: (gens.flatMap (fun c => if c = ')' ∨ c = '\\' then ['\\', c] else [c]) ++
        ')' :: rest) := by
    simp [Descriptor.alphabet]
  rw [htext, gives_alphabet_some (peek_cons rfl _), leaves_expect_cons rfl, Option.bind_some,
    gives_generators_escaped, Option.bind_some]

/-- There is no alphabet where a name ends. -/
theorem gives_alphabet_stops {rest : Text} (h : Stops rest) :
    gives (alphabet? rest) = some (none, rest) :=
  gives_alphabet_none (h.peek_ne (by decide) (by decide))

/-! ## Raw parameters -/

/-- Whether the brackets of a text match when `depth` of them are open before it. -/
def Balanced : (depth : Nat) → Text → Prop
  | depth, [] => depth = 0
  | depth, c :: t =>
    if c = '<' then Balanced (depth + 1) t
    else if c = '>' then
      match depth with
      | 0 => False
      | depth + 1 => Balanced depth t
    else Balanced depth t

theorem balanced_open {depth : Nat} {t : Text} :
    Balanced depth ('<' :: t) ↔ Balanced (depth + 1) t := by
  simp [Balanced]

theorem not_balanced_close {t : Text} : ¬Balanced 0 ('>' :: t) := by
  simp [Balanced]

theorem balanced_inner {depth : Nat} {t : Text} :
    Balanced (depth + 1) ('>' :: t) ↔ Balanced depth t := by
  simp [Balanced]

theorem balanced_plain {c : Char} (hopen : c ≠ '<') (hclose : c ≠ '>') {depth : Nat} {t : Text} :
    Balanced depth (c :: t) ↔ Balanced depth t := by
  rw [Balanced.eq_def]
  simp [hopen, hclose]

theorem balanced_cons_congr {c : Char} {t u : Text}
    (h : ∀ depth, Balanced depth t ↔ Balanced depth u) (depth : Nat) :
    Balanced depth (c :: t) ↔ Balanced depth (c :: u) := by
  by_cases hopen : c = '<'
  · subst hopen
    rw [balanced_open, balanced_open, h]
  · by_cases hclose : c = '>'
    · subst hclose
      cases depth with
      | zero => exact iff_of_false not_balanced_close not_balanced_close
      | succ depth => rw [balanced_inner, balanced_inner, h]
    · rw [balanced_plain hopen hclose, balanced_plain hopen hclose, h]

/-- Text whose brackets match is read up to the bracket after it. -/
theorem gives_enclosed_append {depth : Nat} {raw : Text} (h : Balanced depth raw) (rest : Text) :
    gives (enclosed depth (raw ++ '>' :: rest)) = some (raw, rest) := by
  induction raw generalizing depth with
  | nil =>
      cases h
      exact gives_enclosed_close rest
  | cons c raw ih =>
      rw [List.cons_append]
      by_cases hopen : c = '<'
      · subst hopen
        rw [gives_enclosed_open, ih (balanced_open.1 h)]
        rfl
      · by_cases hclose : c = '>'
        · subst hclose
          cases depth with
          | zero => exact absurd h not_balanced_close
          | succ depth =>
              rw [gives_enclosed_inner, ih (balanced_inner.1 h)]
              rfl
        · rw [gives_enclosed_plain hopen hclose, ih ((balanced_plain hopen hclose).1 h)]
          rfl

/-- The brackets of what is read match. -/
theorem balanced_of_gives_enclosed {depth : Nat} {s raw rest : Text}
    (h : gives (enclosed depth s) = some (raw, rest)) : Balanced depth raw := by
  induction s generalizing depth raw with
  | nil =>
      rw [enclosed.eq_def] at h
      cases h
  | cons c s ih =>
      by_cases hopen : c = '<'
      · subst hopen
        rw [gives_enclosed_open] at h
        rcases Option.map_eq_some_iff.1 h with ⟨⟨inner, r⟩, hinner, heq⟩
        cases heq
        exact balanced_open.2 (ih hinner)
      · by_cases hclose : c = '>'
        · subst hclose
          -- Nothing is read past the bracket that closes the one before the text.
          cases depth with
          | zero =>
              rw [gives_enclosed_close] at h
              cases h
              rfl
          | succ depth =>
              rw [gives_enclosed_inner] at h
              rcases Option.map_eq_some_iff.1 h with ⟨⟨inner, r⟩, hinner, heq⟩
              cases heq
              exact balanced_inner.2 (ih hinner)
        · rw [gives_enclosed_plain hopen hclose] at h
          rcases Option.map_eq_some_iff.1 h with ⟨⟨inner, r⟩, hinner, heq⟩
          cases heq
          exact (balanced_plain hopen hclose).2 (ih hinner)

end Reader

namespace Parameters

open Reader

/-- Blanks mean nothing after a character that is not part of a word. -/
theorem spaced_gap {last : Option Char} (h : last.any inWord = false) (gap : Bool) (t : Text) :
    spaced last gap t = spaced last false t := by
  cases t with
  | nil => rfl
  | cons c t => simp [spaced, h]

/-- How the text after a character is spaced. -/
def spacedAfter (c : Char) (t : Text) : Text :=
  if c = ',' then ' ' :: spaced (some ' ') false t else spaced (some c) false t

/-- The space between two words, if the character `c` begins the second. -/
theorem spaced_cons {c : Char} (h : isBlank c = false) (last : Option Char) (gap : Bool)
    (t : Text) :
    spaced last gap (c :: t) =
      (if gap && inWord c && last.any inWord then [' '] else []) ++ c :: spacedAfter c t := by
  rw [spaced, h, spacedAfter]
  by_cases hc : c = ','
  · simp [hc]
  · simp [hc]

theorem spaced_blank {c : Char} (h : isBlank c = true) (last : Option Char) (gap : Bool)
    (t : Text) : spaced last gap (c :: t) = spaced last true t := by
  simp [spaced, h]

/-- Spacing puts nothing but spaces between the brackets. -/
theorem balanced_spaced (t : Text) (last : Option Char) (gap : Bool) (depth : Nat) :
    Balanced depth (spaced last gap t) ↔ Balanced depth t := by
  -- Neither blanks nor the spaces that are written for them are brackets.
  have hspace : ∀ depth t, Balanced depth (' ' :: t) ↔ Balanced depth t := fun depth t =>
    balanced_plain (by decide) (by decide)
  induction t generalizing depth last gap with
  | nil => rfl
  | cons c t ih =>
      cases hc : isBlank c with
      | true =>
          have hopen : c ≠ '<' := by
            rintro rfl
            exact absurd hc (by decide)
          have hclose : c ≠ '>' := by
            rintro rfl
            exact absurd hc (by decide)
          rw [spaced_blank hc, balanced_plain hopen hclose]
          exact ih _ _ _
      | false =>
          have hrest : ∀ depth, Balanced depth (spacedAfter c t) ↔ Balanced depth t := by
            intro depth
            unfold spacedAfter
            split
            · rw [hspace]
              exact ih _ _ _
            · exact ih _ _ _
          rw [spaced_cons hc]
          split
          · rw [List.singleton_append, hspace]
            exact balanced_cons_congr hrest depth
          · exact balanced_cons_congr hrest depth

/-- Text in canonical spacing is spaced no further. -/
theorem spaced_spaced (t : Text) (last : Option Char) (gap : Bool) :
    spaced last false (spaced last gap t) = spaced last gap t := by
  induction t generalizing last gap with
  | nil => rfl
  | cons c t ih =>
      cases hc : isBlank c with
      | true =>
          rw [spaced_blank hc]
          exact ih last true
      | false =>
          have hrest : spacedAfter c (spacedAfter c t) = spacedAfter c t := by
            unfold spacedAfter
            split
            · -- The space after the comma is passed over, and written again.
              rw [spaced_blank (by rfl), spaced_gap (by rfl), ih]
            · exact ih _ _
          rw [spaced_cons hc]
          split
          · -- The space between two words is written again for the second of them.
            rename_i hspace
            have hgap : (true && inWord c && last.any inWord) = true := by
              simp only [Bool.and_eq_true] at hspace ⊢
              exact ⟨⟨trivial, hspace.1.2⟩, hspace.2⟩
            rw [List.singleton_append, spaced_blank (by rfl), spaced_cons hc, if_pos hgap, hrest]
            rfl
          · rw [List.nil_append, spaced_cons hc, hrest]
            rfl

/-- Canonical spacing is final. -/
theorem canonical_canonical (t : Text) : canonical (canonical t) = canonical t :=
  spaced_spaced t none false

theorem balanced_canonical {depth : Nat} {t : Text} :
    Balanced depth (canonical t) ↔ Balanced depth t :=
  balanced_spaced t none false depth

end Parameters

namespace Reader

/-- Raw parameters as names have them: matching brackets in canonical spacing. -/
def IsParameters (t : Text) : Prop :=
  ∃ raw, Balanced 0 raw ∧ Parameters.canonical raw = raw ∧ t = '<' :: raw ++ ['>']

/-- What is read as raw parameters has the form they have in names. -/
theorem isParameters_of_gives {s t rest : Text} (h : gives (parameters s) = some (t, rest)) :
    IsParameters t := by
  rw [gives_parameters] at h
  rcases Option.bind_eq_some_iff.1 h with ⟨r, -, h⟩
  rcases Option.bind_eq_some_iff.1 h with ⟨⟨raw, r'⟩, hraw, h⟩
  cases h
  refine ⟨Parameters.canonical raw, ?_, Parameters.canonical_canonical raw, rfl⟩
  exact Parameters.balanced_canonical.2 (balanced_of_gives_enclosed hraw)

/-- Raw parameters are read back as they stand in a name. -/
theorem gives_parameters_append {t : Text} (h : IsParameters t) (rest : Text) :
    gives (parameters (t ++ rest)) = some (t, rest) := by
  rcases h with ⟨raw, hbalanced, hcanonical, rfl⟩
  have htext : '<' :: raw ++ ['>'] ++ rest = '<' :: (raw ++ '>' :: rest) := by simp
  rw [htext, gives_parameters, leaves_expect_cons rfl, Option.bind_some,
    gives_enclosed_append hbalanced, Option.bind_some, hcanonical]

end Reader
end OnDemand
