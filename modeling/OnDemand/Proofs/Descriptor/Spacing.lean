import OnDemand.Proofs.Descriptor.Tokens

/-!
# Canonical spacing is a normal form

Of a text, canonical spacing keeps the characters that are not blank and, wherever two of them are
characters of words, whether there are blanks between them (`GapAfter`).  Texts that agree in these
are spaced alike, and no others are (`canonical_normal_form`).

The proofs see a text as its characters that are not blank, each marked with whether blanks stand
right before it (`marked`).  Canonical spacing is written from the marks (`written`), and only some
of the marks count (`kept`).
-/

namespace OnDemand.Parameters

/-- The text without its blanks. -/
def unspaced (t : Text) : Text := t.filter fun c => !isBlank c

/--
Whether blanks stand between two characters of the text that are not blank and have nothing else
between them; `i` such characters come before these two.
-/
def GapAfter (i : Nat) (t : Text) : Prop :=
  ∃ a c blanks d b, t = a ++ c :: (blanks ++ d :: b) ∧ (unspaced a).length = i ∧
    isBlank c = false ∧ isBlank d = false ∧ blanks ≠ [] ∧ ∀ e ∈ blanks, isBlank e = true

@[simp] theorem unspaced_nil : unspaced [] = [] := rfl

@[simp] theorem unspaced_cons_blank {c : Char} (h : isBlank c = true) (t : Text) :
    unspaced (c :: t) = unspaced t := by
  simp [unspaced, h]

@[simp] theorem unspaced_cons {c : Char} (h : isBlank c = false) (t : Text) :
    unspaced (c :: t) = c :: unspaced t := by
  simp [unspaced, h]

/-! ## Marks -/

/-- The characters that are not blank, each with whether blanks stand right before it. -/
def marked (gap : Bool) : Text → List (Char × Bool)
  | [] => []
  | c :: t => if isBlank c then marked true t else (c, gap) :: marked false t

@[simp] theorem marked_cons_blank {c : Char} (h : isBlank c = true) (gap : Bool) (t : Text) :
    marked gap (c :: t) = marked true t := by
  simp [marked, h]

@[simp] theorem marked_cons {c : Char} (h : isBlank c = false) (gap : Bool) (t : Text) :
    marked gap (c :: t) = (c, gap) :: marked false t := by
  simp [marked, h]

theorem map_fst_marked (gap : Bool) (t : Text) : (marked gap t).map Prod.fst = unspaced t := by
  induction t generalizing gap with
  | nil => rfl
  | cons c t ih =>
      cases hc : isBlank c with
      | true => simpa [hc] using ih true
      | false => simpa [hc] using ih false

theorem length_marked (gap : Bool) (t : Text) : (marked gap t).length = (unspaced t).length := by
  simpa using congrArg List.length (map_fst_marked gap t)

theorem isBlank_of_mem_marked {gap : Bool} {t : Text} {m : Char × Bool} (h : m ∈ marked gap t) :
    isBlank m.1 = false := by
  have hmem : m.1 ∈ unspaced t := by
    rw [← map_fst_marked gap t]
    exact List.mem_map_of_mem h
  simpa using (List.mem_filter.1 hmem).2

/-- After a character that is not blank, nothing that came before it counts. -/
theorem exists_marked_append {c : Char} (h : isBlank c = false) (gap : Bool) (a t : Text) :
    ∃ g, marked gap (a ++ c :: t) = marked gap a ++ (c, g) :: marked false t := by
  induction a generalizing gap with
  | nil => exact ⟨gap, by simp [marked, h]⟩
  | cons d a ih =>
      cases hd : isBlank d with
      | true => simpa [hd] using ih true
      | false => simpa [hd] using ih false

theorem marked_blanks {blanks : Text} (hne : blanks ≠ []) (h : ∀ e ∈ blanks, isBlank e = true)
    (gap : Bool) (t : Text) : marked gap (blanks ++ t) = marked true t := by
  induction blanks generalizing gap with
  | nil => exact absurd rfl hne
  | cons e blanks ih =>
      have he : isBlank e = true := h e List.mem_cons_self
      cases blanks with
      | nil => simp [he]
      | cons e' blanks =>
          rw [List.cons_append, marked_cons_blank he]
          exact ih (by simp) (fun d hd => h d (List.mem_cons_of_mem e hd)) true

/-- A first character that is marked has blanks before it, or was said to have some. -/
theorem exists_blanks_of_marked {t : Text} {d : Char}
    (h : (marked false t)[0]? = some (d, true)) :
    ∃ blanks b, t = blanks ++ d :: b ∧ isBlank d = false ∧ blanks ≠ [] ∧
      ∀ e ∈ blanks, isBlank e = true := by
  -- A blank read before counts as well, so the induction allows for one.
  have hgaps : ∀ gap, (marked gap t)[0]? = some (d, true) →
      ∃ blanks b, t = blanks ++ d :: b ∧ isBlank d = false ∧ (gap = false → blanks ≠ []) ∧
        ∀ e ∈ blanks, isBlank e = true := by
    clear h
    induction t with
    | nil =>
        intro gap h
        simp [marked] at h
    | cons c t ih =>
        intro gap h
        cases hc : isBlank c with
        | true =>
            rw [marked_cons_blank hc] at h
            obtain ⟨blanks, b, rfl, hd, -, hblanks⟩ := ih true h
            exact ⟨c :: blanks, b, rfl, hd, by simp, by simpa [hc] using hblanks⟩
        | false =>
            have heq : c = d ∧ gap = true := by simpa [hc] using h
            obtain ⟨rfl, rfl⟩ := heq
            exact ⟨[], t, rfl, hc, by simp, by simp⟩
  obtain ⟨blanks, b, ht, hd, hne, hblanks⟩ := hgaps false h
  exact ⟨blanks, b, ht, hd, hne rfl, hblanks⟩

/-- The gaps of a text are its marks, but for that of the first character. -/
theorem gapAfter_iff {i : Nat} {t : Text} (gap : Bool) :
    GapAfter i t ↔ ∃ d, (marked gap t)[i + 1]? = some (d, true) := by
  constructor
  · rintro ⟨a, c, blanks, d, b, rfl, hlength, hc, hd, hne, hblanks⟩
    obtain ⟨g, hmarked⟩ := exists_marked_append hc gap a (blanks ++ d :: b)
    have hrest : marked false (blanks ++ d :: b) = (d, true) :: marked false b := by
      -- The blanks leave a mark on the character behind them.
      rw [marked_blanks hne hblanks, marked_cons hd]
    refine ⟨d, ?_⟩
    have hi : (marked gap a).length = i := (length_marked gap a).trans hlength
    rw [hmarked, hrest, List.getElem?_append_right (by omega), hi]
    simp
  · rintro ⟨d, hd⟩
    induction t generalizing i gap with
    | nil => simp [marked] at hd
    | cons c t ih =>
        cases hc : isBlank c with
        | true =>
            rw [marked_cons_blank hc] at hd
            obtain ⟨a, c', blanks, d', b, rfl, hlength, hrest⟩ := ih true hd
            exact ⟨c :: a, c', blanks, d', b, rfl, by simpa [hc] using hlength, hrest⟩
        | false =>
            rw [marked_cons hc, List.getElem?_cons_succ] at hd
            cases i with
            -- The mark is that of the next character, so blanks stand right here.
            | zero =>
                obtain ⟨blanks, b, rfl, hblank, hne, hblanks⟩ := exists_blanks_of_marked hd
                exact ⟨[], c, blanks, d, b, rfl, rfl, hc, hblank, hne, hblanks⟩
            | succ i =>
                obtain ⟨a, c', blanks, d', b, rfl, hlength, hrest⟩ := ih false hd
                exact ⟨c :: a, c', blanks, d', b, rfl, by simpa [hc] using hlength, hrest⟩

/-! ## Spacing from the marks -/

/-- Canonical spacing of marked characters; `word` says whether a word's character comes before. -/
def written (word : Bool) : List (Char × Bool) → Text
  | [] => []
  | (c, gap) :: l =>
    (if gap && inWord c && word then [' '] else []) ++
      c :: ((if c = ',' then [' '] else []) ++ written (inWord c) l)

/-- The marks that count: those between two characters of words. -/
def kept (word : Bool) : List (Char × Bool) → List (Char × Bool)
  | [] => []
  | (c, gap) :: l => (c, gap && inWord c && word) :: kept (inWord c) l

theorem spaced_eq_written (last : Option Char) (gap : Bool) (t : Text) :
    spaced last gap t = written (last.any inWord) (marked gap t) := by
  induction t generalizing last gap with
  | nil => rfl
  | cons c t ih =>
      cases hc : isBlank c with
      | true => rw [spaced_blank hc, marked_cons_blank hc, ih]
      | false =>
          rw [spaced_cons hc, marked_cons hc, written]
          by_cases hcomma : c = ','
          · subst hcomma
            simp [spacedAfter, ih, show inWord ' ' = inWord ',' by decide]
          · simp [spacedAfter, ih, hcomma]

/-- Marks that do not count make no difference. -/
theorem written_kept (word : Bool) (l : List (Char × Bool)) :
    written word (kept word l) = written word l := by
  induction l generalizing word with
  | nil => rfl
  | cons m l ih =>
      obtain ⟨c, gap⟩ := m
      have hspace : (gap && inWord c && word && inWord c && word) = (gap && inWord c && word) := by
        cases gap <;> cases inWord c <;> cases word <;> rfl
      simp only [kept, written, hspace, ih]

/-- The marks that count are found again in the text that is written from them. -/
theorem kept_marked_written {l : List (Char × Bool)} (hl : ∀ m ∈ l, isBlank m.1 = false)
    (word gap : Bool) (hgap : gap = true → word = false) :
    kept word (marked gap (written word l)) = kept word l := by
  induction l generalizing word gap with
  | nil => rfl
  | cons m l ih =>
      obtain ⟨c, g⟩ := m
      rw [List.forall_mem_cons] at hl
      have hc : isBlank c = false := hl.1
      have hspace : isBlank ' ' = true := by decide
      -- A comma brings its own space with it, which counts for nothing.
      have hrest : kept (inWord c)
          (marked false ((if c = ',' then [' '] else []) ++ written (inWord c) l)) =
            kept (inWord c) l := by
        by_cases hcomma : c = ','
        · subst hcomma
          simpa [hspace] using ih hl.2 (inWord ',') true (fun _ => by decide)
        · simpa [hcomma] using ih hl.2 (inWord c) false nofun
      by_cases hbetween : (g && inWord c && word) = true
      · simp only [Bool.and_eq_true] at hbetween
        obtain ⟨⟨rfl, hword⟩, rfl⟩ := hbetween
        rw [hword] at hrest
        simp [written, hspace, hc, kept, hrest, hword]
      · have hnone : (gap && inWord c && word) = false := by
          cases gap with
          | false => rfl
          | true => simp [hgap rfl]
        simp only [Bool.not_eq_true] at hbetween
        simp [written, hbetween, hc, kept, hrest, hnone]

theorem map_fst_kept (word : Bool) (l : List (Char × Bool)) :
    (kept word l).map Prod.fst = l.map Prod.fst := by
  induction l generalizing word with
  | nil => rfl
  | cons m l ih => simp [kept, ih]

theorem getElem?_kept_succ (word : Bool) (l : List (Char × Bool)) (i : Nat) :
    (kept word l)[i + 1]? = do
      let (c, _) ← l[i]?
      let (d, gap) ← l[i + 1]?
      return (d, gap && inWord d && inWord c) := by
  induction l generalizing word i with
  | nil => rfl
  | cons m l ih =>
      obtain ⟨c, g⟩ := m
      cases i with
      | zero => cases l <;> simp [kept]
      | succ i => simpa [kept] using ih (inWord c) i

/-- Texts are spaced alike when their marks are the same, as far as these count. -/
theorem canonical_eq_iff_kept (x y : Text) :
    canonical x = canonical y ↔ kept false (marked false x) = kept false (marked false y) := by
  have hwritten (t : Text) : canonical t = written false (kept false (marked false t)) :=
    (spaced_eq_written none false t).trans (written_kept _ _).symm
  have hkept (t : Text) : kept false (marked false (canonical t)) = kept false (marked false t) := by
    rw [canonical, spaced_eq_written]
    exact kept_marked_written (fun m hm => isBlank_of_mem_marked hm) _ false nofun
  constructor
  · intro h
    rw [← hkept x, ← hkept y, h]
  · intro h
    rw [hwritten x, hwritten y, h]

/-- Spacing changes blanks only. -/
theorem unspaced_canonical (t : Text) : unspaced (canonical t) = unspaced t := by
  have hkept : kept false (marked false (canonical t)) = kept false (marked false t) :=
    (canonical_eq_iff_kept _ _).1 (canonical_canonical t)
  calc unspaced (canonical t)
      = (kept false (marked false (canonical t))).map Prod.fst := by
        rw [map_fst_kept, map_fst_marked]
    _ = (kept false (marked false t)).map Prod.fst := by rw [hkept]
    _ = unspaced t := by rw [map_fst_kept, map_fst_marked]

/-! ## The normal form -/

/--
Whether two texts agree in the blanks between characters of words: where both of two neighbours are
such characters, either both texts have blanks there or neither has.
-/
def SameGaps (x y : Text) : Prop :=
  ∀ i c d, (unspaced x)[i]? = some c → (unspaced x)[i + 1]? = some d →
    inWord c = true → inWord d = true → (GapAfter i x ↔ GapAfter i y)

/-- A mark of a text that is not blank at `i`. -/
theorem exists_mark {t : Text} {i : Nat} {c : Char} (h : (unspaced t)[i]? = some c) :
    ∃ g, (marked false t)[i]? = some (c, g) := by
  rw [← map_fst_marked false t, List.getElem?_map, Option.map_eq_some_iff] at h
  obtain ⟨⟨c', g⟩, hg, rfl⟩ := h
  exact ⟨g, hg⟩

/-- A gap of the text is the mark of the character behind it. -/
theorem gapAfter_iff_mark {t : Text} {i : Nat} {d : Char} {g : Bool}
    (h : (marked false t)[i + 1]? = some (d, g)) : GapAfter i t ↔ g = true := by
  rw [gapAfter_iff false, h]
  simp

theorem getElem?_kept_mark {t : Text} {i : Nat} {c d : Char} {g : Bool}
    (hc : (unspaced t)[i]? = some c) (hd : (marked false t)[i + 1]? = some (d, g)) :
    (kept false (marked false t))[i + 1]? = some (d, g && inWord d && inWord c) := by
  obtain ⟨g', hg'⟩ := exists_mark hc
  simp [getElem?_kept_succ, hg', hd]

/-- The first character has none before it, and its mark does not count. -/
theorem getElem?_kept_zero (t : Text) :
    (kept false (marked false t))[0]? = (unspaced t)[0]?.map fun c => (c, false) := by
  rw [← map_fst_marked false t]
  cases marked false t <;> simp [kept]

theorem getElem?_kept_none {t : Text} {i : Nat} (h : (unspaced t)[i]? = none) :
    (kept false (marked false t))[i]? = none := by
  rw [← map_fst_marked false t, ← map_fst_kept false] at h
  simpa using h

/-- The marks that count are the gaps between characters of words. -/
theorem kept_eq_iff {x y : Text} (h : unspaced x = unspaced y) :
    kept false (marked false x) = kept false (marked false y) ↔ SameGaps x y := by
  constructor
  · -- What is kept at a place tells whether there is a gap, if two word characters meet there.
    intro hkept i c d hc hd hwordc hwordd
    obtain ⟨g, hg⟩ := exists_mark hd
    obtain ⟨g', hg'⟩ := exists_mark (h ▸ hd)
    have hsame : (g && inWord d && inWord c) = (g' && inWord d && inWord c) := by
      have hat := getElem?_kept_mark hc hg
      rw [hkept, getElem?_kept_mark (h ▸ hc) hg'] at hat
      simpa using hat.symm
    simp only [hwordc, hwordd, Bool.and_true] at hsame
    rw [gapAfter_iff_mark hg, gapAfter_iff_mark hg', hsame]
  · intro hgaps
    refine List.ext_getElem? fun i => ?_
    cases i with
    | zero =>
        rw [getElem?_kept_zero, getElem?_kept_zero, h]
    | succ i =>
        cases hd : (unspaced x)[i + 1]? with
        | none => rw [getElem?_kept_none hd, getElem?_kept_none (h ▸ hd)]
        | some d =>
            have hlt : i + 1 < (unspaced x).length := (List.getElem?_eq_some_iff.1 hd).1
            obtain ⟨c, hc⟩ : ∃ c, (unspaced x)[i]? = some c :=
              ⟨_, List.getElem?_eq_getElem (by omega)⟩
            obtain ⟨g, hg⟩ := exists_mark hd
            obtain ⟨g', hg'⟩ := exists_mark (h ▸ hd)
            rw [getElem?_kept_mark hc hg, getElem?_kept_mark (h ▸ hc) hg']
            -- Anywhere else nothing is kept, on either side.
            by_cases hwords : inWord c = true ∧ inWord d = true
            · have hiff := hgaps i c d hc hd hwords.1 hwords.2
              rw [gapAfter_iff_mark hg, gapAfter_iff_mark hg', ← Bool.eq_iff_iff] at hiff
              rw [hiff]
            · simp only [not_and, Bool.not_eq_true] at hwords
              by_cases hwordc : inWord c = true
              · simp [hwords hwordc]
              · simp [hwordc]

/--
Canonical spacing is a normal form: spacing twice is spacing once, no character that is not blank
changes, and two texts are spaced alike exactly when they have the same such characters and, between
two of them that are characters of words, both have blanks or neither has.
-/
theorem canonical_normal_form (x y : Text) :
    canonical (canonical x) = canonical x ∧
      unspaced (canonical x) = unspaced x ∧
      (canonical x = canonical y ↔
        unspaced x = unspaced y ∧ SameGaps x y) := by
  refine ⟨canonical_canonical x, unspaced_canonical x, ?_, ?_⟩
  · intro h
    have hchars : unspaced x = unspaced y := by
      rw [← unspaced_canonical x, h, unspaced_canonical y]
    exact ⟨hchars, (kept_eq_iff hchars).1 ((canonical_eq_iff_kept x y).1 h)⟩
  · rintro ⟨hchars, hgaps⟩
    exact (canonical_eq_iff_kept x y).2 ((kept_eq_iff hchars).2 hgaps)

end OnDemand.Parameters
