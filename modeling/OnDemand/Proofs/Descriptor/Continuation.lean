import OnDemand.Proofs.Descriptor.Grammar

/-!
# Reading with more text behind

Where a description is read off the front of a text, nothing changes when something is put behind
the text that cannot belong to it, and when the slashes in the text become underscores: the same
part is read off, though the alphabets and raw parameters in it may differ.  A slash outside of
those is never read, so it stays at the front of what is left; an underscore in its place could be
read.
-/

namespace OnDemand
namespace Reader

open Descriptor

/-! ## Flat texts -/

/-- The character, with an underscore for a slash. -/
def flatChar (c : Char) : Char := if c = '/' then '_' else c

/-- The text with underscores for its slashes. -/
def flat (s : Text) : Text := s.map flatChar

theorem replace_slash (s : Text) : Text.replace '/' ['_'] s = flat s := by
  induction s with
  | nil => rfl
  | cons c s ih =>
      have hcons : Text.replace '/' ['_'] (c :: s) =
          (if c = '/' then ['_'] else [c]) ++ Text.replace '/' ['_'] s := rfl
      rw [hcons, ih, flat, flat, List.map_cons, flatChar]
      split
      · rfl
      · rfl

theorem flatChar_of_ne {c : Char} (h : c ≠ '/') : flatChar c = c := if_neg h

theorem isBlank_flatChar (c : Char) : isBlank (flatChar c) = isBlank c := by
  unfold flatChar
  split
  next h =>
      subst h
      decide
  next => rfl

/-- A text that no reading goes on with once it has come to the end of the text before. -/
structure Halts (t : Text) : Prop where
  word : t.head?.any inWord = false
  star : t.head? ≠ some '*'
  alphabet : peek t ≠ some '('
  bracket : peek t ≠ some '<'

/-- The text made flat, with more text behind it. -/
def extend (t s : Text) : Text := flat s ++ t

section Extend

variable {t s r : Text}

theorem extend_nil (t : Text) : extend t [] = t := rfl

theorem extend_cons (t : Text) (c : Char) (s : Text) :
    extend t (c :: s) = flatChar c :: extend t s := rfl

/-- The text begins with a slash, blanks aside. -/
def Slashed (s : Text) : Prop := peek s = some '/'

theorem trimStart_extend {c : Char} (h : Text.trimStart s = c :: r) :
    Text.trimStart (extend t s) = flatChar c :: extend t r := by
  induction s with
  | nil => cases h
  | cons d s ih =>
      have htrim : Text.trimStart (d :: s) =
          if isBlank d then Text.trimStart s else d :: s := List.dropWhile_cons
      have htrim' : Text.trimStart (flatChar d :: extend t s) =
          if isBlank (flatChar d) then Text.trimStart (extend t s)
          else flatChar d :: extend t s := List.dropWhile_cons
      rw [htrim] at h
      rw [extend_cons, htrim', isBlank_flatChar]
      cases hd : isBlank d with
      | true =>
          rw [hd, if_pos rfl] at h
          exact ih h
      | false =>
          rw [hd] at h
          cases h
          rfl

theorem trimStart_extend_nil (h : Text.trimStart s = []) :
    Text.trimStart (extend t s) = Text.trimStart t := by
  induction s with
  | nil => rfl
  | cons d s ih =>
      have htrim : Text.trimStart (d :: s) =
          if isBlank d then Text.trimStart s else d :: s := List.dropWhile_cons
      have htrim' : Text.trimStart (flatChar d :: extend t s) =
          if isBlank (flatChar d) then Text.trimStart (extend t s)
          else flatChar d :: extend t s := List.dropWhile_cons
      rw [htrim] at h
      rw [extend_cons, htrim', isBlank_flatChar]
      cases hd : isBlank d with
      | true =>
          rw [hd, if_pos rfl] at h
          exact ih h
      | false =>
          rw [hd] at h
          cases h

theorem peek_extend {c : Char} (h : peek s = some c) : peek (extend t s) = some (flatChar c) := by
  unfold peek at h ⊢
  cases htrim : Text.trimStart s with
  | nil =>
      rw [htrim] at h
      cases h
  | cons d r =>
      rw [htrim] at h
      cases h
      rw [trimStart_extend htrim]
      rfl

theorem peek_extend_of_ne {c : Char} (hc : c ≠ '/') (h : peek s = some c) :
    peek (extend t s) = some c :=
  (peek_extend h).trans (congrArg some (flatChar_of_ne hc))

theorem peek_extend_none (h : peek s = none) : peek (extend t s) = peek t := by
  unfold peek at h ⊢
  rw [trimStart_extend_nil (List.head?_eq_none_iff.1 h)]

theorem peek_extend_ne {c : Char} (hslash : ¬Slashed s) (h : peek s ≠ some c)
    (ht : peek t ≠ some c) : peek (extend t s) ≠ some c := by
  cases hpeek : peek s with
  | none =>
      rw [peek_extend_none hpeek]
      exact ht
  | some d =>
      have hd : d ≠ '/' := by
        rintro rfl
        exact hslash hpeek
      rw [peek_extend hpeek, flatChar_of_ne hd, ← hpeek]
      exact h

/-! ## Characters and words -/

theorem peek_of_expect {c : Char} (h : leaves (expect c s) = some r) : peek s = some c := by
  rw [leaves_expect] at h
  unfold peek
  cases htrim : Text.trimStart s with
  | nil =>
      rw [htrim] at h
      cases h
  | cons d u =>
      rw [htrim] at h
      dsimp only at h
      split at h
      next hd => exact congrArg some hd
      next => cases h

theorem separator_of_comma (h : leaves (expect ',' s) = some r) : leaves (separator s) = some r := by
  rw [leaves_expect] at h
  rw [leaves_separator]
  cases htrim : Text.trimStart s with
  | nil =>
      rw [htrim] at h
      cases h
  | cons c u =>
      rw [htrim] at h
      dsimp only at h ⊢
      split at h
      next hc =>
          rw [if_pos (.inl hc)]
          exact h
      next => cases h

theorem separator_of_close (h : peek s = some '>') : leaves (separator s) = none := by
  rw [leaves_separator]
  cases htrim : Text.trimStart s with
  | nil => rfl
  | cons c u =>
      have hc : c = '>' := by simpa [peek, htrim] using h
      subst hc
      rfl

theorem not_slashed_of_expect {c : Char} (hc : c ≠ '/') (h : leaves (expect c s) = some r) :
    ¬Slashed s := by
  intro hslash
  have hpeek := peek_of_expect h
  rw [Slashed, hpeek] at hslash
  exact hc (by simpa using hslash)

theorem expect_extend {c : Char} (hc : c ≠ '/') (h : leaves (expect c s) = some r) :
    leaves (expect c (extend t s)) = some (extend t r) := by
  rw [leaves_expect] at h ⊢
  cases htrim : Text.trimStart s with
  | nil =>
      rw [htrim] at h
      cases h
  | cons d u =>
      rw [htrim] at h
      dsimp only at h
      split at h
      next hd =>
          cases h
          subst hd
          rw [trimStart_extend htrim, flatChar_of_ne hc]
          simp
      next => cases h

theorem separator_extend (h : leaves (separator s) = some r) :
    leaves (separator (extend t s)) = some (extend t r) ∧ ¬Slashed s := by
  rw [leaves_separator] at h
  cases htrim : Text.trimStart s with
  | nil =>
      rw [htrim] at h
      cases h
  | cons d u =>
      rw [htrim] at h
      dsimp only at h
      -- A separator does not begin with a slash, so neither does the text.
      have hslash : d ≠ '/' → ¬Slashed s := by
        intro hd hslash
        rw [Slashed, peek, htrim] at hslash
        exact hd (by simpa using hslash)
      rw [leaves_separator, trimStart_extend htrim]
      split at h
      next hd =>
          cases h
          have hne : d ≠ '/' := by
            rintro rfl
            simp at hd
          rw [flatChar_of_ne hne]
          dsimp only
          rw [if_pos hd]
          exact ⟨rfl, hslash hne⟩
      next hd =>
          split at h
          next u' =>
              cases h
              exact ⟨rfl, hslash (by decide)⟩
          next => cases h

theorem takeWhile_extend (h : s.dropWhile inWord ≠ [] → (s.dropWhile inWord).head? ≠ some '/')
    (ht : Halts t) :
    (extend t s).takeWhile inWord = s.takeWhile inWord ∧
      (extend t s).dropWhile inWord = extend t (s.dropWhile inWord) := by
  induction s with
  -- The word goes on up to the end, and what is put behind does not go on with it.
  | nil =>
      cases t with
      | nil => exact ⟨rfl, rfl⟩
      | cons c t =>
          have hc : inWord c = false := by simpa using ht.word
          simp [extend_nil, hc]
  | cons c s ih =>
      rw [extend_cons]
      cases hc : inWord c with
      | true =>
          have hne : c ≠ '/' := by
            rintro rfl
            revert hc
            decide
          rw [flatChar_of_ne hne]
          simp only [List.dropWhile_cons, hc, if_true, List.takeWhile_cons] at h ⊢
          exact ⟨congrArg (c :: ·) (ih h).1, (ih h).2⟩
      | false =>
          have hne : c ≠ '/' := by simpa [hc] using h
          rw [flatChar_of_ne hne]
          simp [hc, extend_cons, flatChar_of_ne hne]

theorem slashed_word (h : Slashed s) : Slashed (word s).rest := by
  unfold Slashed peek at h
  cases htrim : Text.trimStart s with
  | nil =>
      rw [htrim] at h
      cases h
  | cons c u =>
      rw [htrim] at h
      have hc : c = '/' := by simpa using h
      subst hc
      have hrest : (word s).rest = '/' :: u := by
        have hword : (word s).rest = afterWord (Text.trimStart s) := rfl
        rw [hword, htrim]
        rfl
      rw [hrest]
      rfl

theorem word_of_peek_none (h : peek s = none) : (word s).value = [] ∧ (word s).rest = [] := by
  have htrim : Text.trimStart s = [] := List.head?_eq_none_iff.1 h
  have hvalue : (word s).value = wordOf (Text.trimStart s) := rfl
  have hrest : (word s).rest = afterWord (Text.trimStart s) := rfl
  rw [hvalue, hrest, htrim]
  exact ⟨rfl, rfl⟩

/-- The same word is read, if it does not end at a slash. -/
theorem word_extend (ht : Halts t) (hpeek : peek s ≠ none) (hslash : ¬Slashed (word s).rest) :
    (word (extend t s)).value = (word s).value ∧
      (word (extend t s)).rest = extend t (word s).rest := by
  have hvalue : ∀ s, (word s).value = wordOf (Text.trimStart s) := fun _ => rfl
  have hrest : ∀ s, (word s).rest = afterWord (Text.trimStart s) := fun _ => rfl
  rw [hvalue, hvalue, hrest, hrest]
  rw [hrest] at hslash
  cases htrim : Text.trimStart s with
  | nil =>
      rw [peek, htrim] at hpeek
      exact absurd rfl hpeek
  | cons c u =>
      rw [htrim] at hslash
      rw [trimStart_extend htrim]
      unfold wordOf afterWord at *
      have hstart : ∀ c : Char, ∀ u : Text, ((c :: u).head?.any startsWord) = startsWord c :=
        fun _ _ => rfl
      rw [hstart] at hslash ⊢
      cases hc : startsWord c with
      | true =>
          have hne : c ≠ '/' := by
            rintro rfl
            revert hc
            decide
          -- The word ends at the end of the text, or at a character that is no slash.
          have hend : (c :: u).dropWhile inWord ≠ [] →
              ((c :: u).dropWhile inWord).head? ≠ some '/' := by
            intro _ hhead
            rw [hc, if_pos rfl] at hslash
            refine hslash ?_
            obtain ⟨v, hv⟩ := List.head?_eq_some_iff.1 hhead
            rw [hv]
            rfl
          rw [hstart, flatChar_of_ne hne, hc, if_pos rfl, if_pos rfl, if_pos rfl, if_pos rfl]
          have htake := takeWhile_extend hend ht
          rw [extend_cons, flatChar_of_ne hne] at htake
          exact htake
      -- No word begins here, so all of the text is left.
      | false =>
          rw [hc, if_neg (by simp)] at hslash
          have hne : c ≠ '/' := by
            rintro rfl
            exact hslash rfl
          rw [hstart, flatChar_of_ne hne, hc]
          simp [extend_cons, flatChar_of_ne hne]

/-! ## Alphabets and raw parameters -/

theorem flatChar_ne {c d : Char} (h : c ≠ d) (hd : d ≠ '_') : flatChar c ≠ d := by
  unfold flatChar
  split
  next => exact Ne.symm hd
  next => exact h

theorem generators_extend {close : Char} (hslash : close ≠ '/') (hscore : close ≠ '_')
    (hescape : '\\' ≠ close) {gens : Text} (h : gives (generators close s) = some (gens, r)) :
    ∃ gens', gives (generators close (extend t s)) = some (gens', extend t r) := by
  induction s using generators.induct close generalizing gens with
  | case1 =>
      rw [generators.eq_def] at h
      cases h
  | case2 s =>
      rw [gives_generators_close] at h
      cases h
      exact ⟨[], by rw [extend_cons, flatChar_of_ne hslash, gives_generators_close]⟩
  | case3 =>
      rw [generators.eq_def] at h
      simp [hescape] at h
  -- An escaped slash becomes an escaped underscore, which is read all the same.
  | case4 c s _ ih =>
      rw [gives_generators_escape hescape] at h
      rcases Option.map_eq_some_iff.1 h with ⟨⟨inner, r'⟩, hinner, heq⟩
      cases heq
      rcases ih hinner with ⟨gens', hgens'⟩
      refine ⟨flatChar c :: gens', ?_⟩
      rw [extend_cons, extend_cons, flatChar_of_ne (by decide), gives_generators_escape hescape,
        hgens']
      rfl
  | case5 c s hc hne ih =>
      rw [gives_generators_plain hc hne] at h
      rcases Option.map_eq_some_iff.1 h with ⟨⟨inner, r'⟩, hinner, heq⟩
      cases heq
      rcases ih hinner with ⟨gens', hgens'⟩
      refine ⟨flatChar c :: gens', ?_⟩
      rw [extend_cons, gives_generators_plain (flatChar_ne hc hscore) (flatChar_ne hne (by decide)),
        hgens']
      rfl

theorem enclosed_extend {depth : Nat} {raw : Text} (h : gives (enclosed depth s) = some (raw, r)) :
    ∃ raw', gives (enclosed depth (extend t s)) = some (raw', extend t r) := by
  induction s generalizing depth raw with
  | nil =>
      rw [enclosed.eq_def] at h
      cases h
  | cons c s ih =>
      rw [extend_cons]
      -- The depth of brackets is the same, since neither slashes nor underscores are brackets.
      by_cases hopen : c = '<'
      · subst hopen
        rw [gives_enclosed_open] at h
        rcases Option.map_eq_some_iff.1 h with ⟨⟨inner, r'⟩, hinner, heq⟩
        cases heq
        rcases ih hinner with ⟨raw', hraw'⟩
        refine ⟨'<' :: raw', ?_⟩
        rw [flatChar_of_ne (by decide), gives_enclosed_open, hraw']
        rfl
      · by_cases hclose : c = '>'
        · subst hclose
          rw [flatChar_of_ne (by decide)]
          cases depth with
          | zero =>
              rw [gives_enclosed_close] at h
              cases h
              exact ⟨[], gives_enclosed_close _⟩
          | succ depth =>
              rw [gives_enclosed_inner] at h
              rcases Option.map_eq_some_iff.1 h with ⟨⟨inner, r'⟩, hinner, heq⟩
              cases heq
              rcases ih hinner with ⟨raw', hraw'⟩
              refine ⟨'>' :: raw', ?_⟩
              rw [gives_enclosed_inner, hraw']
              rfl
        · rw [gives_enclosed_plain hopen hclose] at h
          rcases Option.map_eq_some_iff.1 h with ⟨⟨inner, r'⟩, hinner, heq⟩
          cases heq
          rcases ih hinner with ⟨raw', hraw'⟩
          refine ⟨flatChar c :: raw', ?_⟩
          rw [gives_enclosed_plain (flatChar_ne hopen (by decide)) (flatChar_ne hclose (by decide)),
            hraw']
          rfl

/-! ## What a step carries over -/

section Carries

variable {α β : Type} {same : α → α → Prop} {same' : β → β → Prop}
variable {f g : Text → Option (α × Text)} {F : Text → Text → Option (α × Text)} {a : α}

/--
A step that reads at the front of `s` leaves a slash there, and reads the same part of the extended
text up to a value, of which `same` tells what stays.
-/
def Carries (same : α → α → Prop) (t : Text) (f : Text → Option (α × Text)) (s : Text) : Prop :=
  ∀ a r, f s = some (a, r) → (Slashed s → Slashed r) ∧
    (¬Slashed r → ∃ a', f (extend t s) = some (a', extend t r) ∧ same a a')

/-- What `Carries` says of lists, of which something closes the brackets. -/
def CarriesAll (t : Text) (g : Text → Option (List α × Text)) (s : Text) : Prop :=
  ∀ as r, g s = some (as, r) → (Slashed s → Slashed r) ∧
    (peek r = some '>' → ∃ as', g (extend t s) = some (as', extend t r))

/-- In angle brackets, what a word opens carries over. -/
def CarriesWithin (same : α → α → Prop) (t : Text) (F : Text → Text → Option (α × Text))
    (s : Text) : Prop :=
  ∀ r, leaves (expect '<' s) = some r → Carries same t (F (word r).value) (word r).rest

/-- Nothing stays of a value. -/
def Anything : α → α → Prop := fun _ _ => True

/-- Both descriptors are opaque names, or neither is. -/
def SameKind (d d' : Descriptor) : Prop := (constant? d').isSome = (constant? d).isSome

theorem carries_of_none (h : f s = none) : Carries same t f s := by
  intro a r ha
  rw [h] at ha
  cases ha

/-- A step that is another one, on the text and on the extended text, carries over with it. -/
theorem Carries.congr (h : Carries same t g s) (hs : f s = g s)
    (hextend : ¬Slashed s → f (extend t s) = g (extend t s)) : Carries same t f s := by
  intro a r ha
  rcases h a r (hs.symm.trans ha) with ⟨hkeeps, hcarried⟩
  refine ⟨hkeeps, fun hslash => ?_⟩
  rw [hextend fun hs => hslash (hkeeps hs)]
  exact hcarried hslash

/-- The value read may be changed afterwards, where that succeeds on what stays the same. -/
theorem Carries.filterMap (φ : α → Option β) (h : Carries same t f s)
    (hφ : ∀ a a' b, same a a' → φ a = some b → ∃ b', φ a' = some b' ∧ same' b b') :
    Carries same' t (fun s => (f s).bind fun p => (φ p.1).bind fun b => some (b, p.2)) s := by
  intro b r h'
  rcases Option.bind_eq_some_iff.1 h' with ⟨⟨a, r⟩, ha, h'⟩
  rcases Option.bind_eq_some_iff.1 h' with ⟨b, hb, h'⟩
  cases h'
  rcases h a r ha with ⟨hkeeps, hcarried⟩
  refine ⟨hkeeps, fun hslash => ?_⟩
  rcases hcarried hslash with ⟨a', ha', hsame⟩
  rcases hφ a a' b hsame hb with ⟨b', hb', hsame'⟩
  refine ⟨b', ?_, hsame'⟩
  dsimp only
  rw [ha', Option.bind_some, hb']
  rfl

theorem Carries.map (φ : α → β) (h : Carries same t f s)
    (hφ : ∀ a a', same a a' → same' (φ a) (φ a')) :
    Carries same' t (fun s => (f s).bind fun p => some (φ p.1, p.2)) s := by
  refine h.filterMap (fun a => some (φ a)) fun a a' b hsame hb => ?_
  cases hb
  exact ⟨φ a', rfl, hφ a a' hsame⟩

/-- A step that reads what a word opens, the word first. -/
theorem Carries.opened (ht : Halts t) (hnil : F [] [] = none)
    (h : Carries same t (F (word s).value) (word s).rest) :
    Carries same t (fun s => F (word s).value (word s).rest) s := by
  intro a r ha
  rcases h a r ha with ⟨hkeeps, hcarried⟩
  refine ⟨fun hslash => hkeeps (slashed_word hslash), fun hslash => ?_⟩
  have hne : peek s ≠ none := by
    intro hnone
    dsimp only at ha
    rw [(word_of_peek_none hnone).1, (word_of_peek_none hnone).2, hnil] at ha
    cases ha
  rcases word_extend ht hne (fun hword => hslash (hkeeps hword)) with ⟨hvalue, hrest⟩
  dsimp only
  rw [hvalue, hrest]
  exact hcarried hslash

theorem Wraps.not_slashed (h : Wraps F s a r) : ¬Slashed s := by
  rcases h with ⟨r₀, -, hopen, -, -⟩
  exact not_slashed_of_expect (by decide) hopen

/-- What stands in angle brackets, where the brackets hold what carries over. -/
theorem Wraps.extend (ht : Halts t) (hnil : F [] [] = none) (hF : CarriesWithin same t F s)
    (h : Wraps F s a r) : ∃ a', Wraps F (extend t s) a' (extend t r) ∧ same a a' := by
  rcases h with ⟨r₀, r₁, hopen, ha, hclose⟩
  have hmid : ¬Slashed r₁ := not_slashed_of_expect (by decide) hclose
  rcases (Carries.opened ht hnil (hF r₀ hopen) a r₁ ha).2 hmid with ⟨a', ha', hsame⟩
  exact ⟨a', ⟨_, _, expect_extend (by decide) hopen, ha', expect_extend (by decide) hclose⟩, hsame⟩

/-- A step that reads in angle brackets only. -/
theorem carries_of_wraps (ht : Halts t) (hnil : F [] [] = none) (hF : CarriesWithin same t F s)
    (hs : ∀ {a r}, f s = some (a, r) ↔ Wraps F s a r)
    (hextend : ∀ {a r}, f (extend t s) = some (a, r) ↔ Wraps F (extend t s) a r) :
    Carries same t f s := by
  intro a r h
  rw [hs] at h
  refine ⟨fun hslash => absurd hslash h.not_slashed, fun _ => ?_⟩
  rcases h.extend ht hnil hF with ⟨a', ha', hsame⟩
  exact ⟨a', hextend.2 ha', hsame⟩

variable {as : List α} {gs : Text → Option (List α × Text)} {c : Char}

theorem Follows.not_slashed (hc : c ≠ '/') (h : Follows c f gs s a as r) : ¬Slashed s := by
  rcases h with ⟨r₀, -, hopen, -, -⟩
  exact not_slashed_of_expect hc hopen

/-- A list that is closed, behind a character and its first part. -/
theorem Follows.extend (hc : c ≠ '/')
    (hf : ∀ {r}, leaves (expect c s) = some r → Carries same t f r)
    (hgs : ∀ {r a r₁}, leaves (expect c s) = some r → f r = some (a, r₁) → CarriesAll t gs r₁)
    (hclose : peek r = some '>') (h : Follows c f gs s a as r) :
    ∃ a' as', Follows c f gs (extend t s) a' as' (extend t r) := by
  rcases h with ⟨r₀, r₁, hopen, ha, has⟩
  have hslash : ¬Slashed r := by
    intro hslash
    cases hclose.symm.trans hslash
  rcases hgs hopen ha as r has with ⟨hkeeps, hcarried⟩
  rcases (hf hopen a r₁ ha).2 (fun h => hslash (hkeeps h)) with ⟨a', ha', -⟩
  rcases hcarried hclose with ⟨as', has'⟩
  exact ⟨a', as', _, _, expect_extend hc hopen, ha', has'⟩

end Carries

theorem alphabet_carries (ht : Halts t) (s : Text) :
    Carries Anything t (fun s => gives (alphabet? s)) s := by
  intro gens r h
  dsimp only at h ⊢
  by_cases hpeek : peek s = some '('
  · rw [gives_alphabet_some hpeek] at h
    rcases Option.bind_eq_some_iff.1 h with ⟨r₀, hr₀, h⟩
    rcases Option.bind_eq_some_iff.1 h with ⟨⟨gens, r₁⟩, hgens, h⟩
    cases h
    refine ⟨fun hslash => absurd hslash (not_slashed_of_expect (by decide) hr₀), fun _ => ?_⟩
    rcases generators_extend (t := t) (by decide) (by decide) (by decide) hgens with
      ⟨gens', hgens'⟩
    refine ⟨some gens', ?_, trivial⟩
    rw [gives_alphabet_some (peek_extend_of_ne (by decide) hpeek), expect_extend (by decide) hr₀]
    simp only [Option.bind_some, hgens']
  · rw [gives_alphabet_none hpeek] at h
    cases h
    refine ⟨id, fun hslash => ⟨none, ?_, trivial⟩⟩
    exact gives_alphabet_none (peek_extend_ne hslash hpeek ht.alphabet)

theorem identities_carries (ht : Halts t) (usual : Identities) (s : Text) :
    Carries Anything t (fun s => gives (identities usual s)) s := by
  intro i r h
  dsimp only at h ⊢
  by_cases hpeek : peek s = some '('
  · rw [gives_identities_some usual hpeek] at h
    rcases Option.bind_eq_some_iff.1 h with ⟨r₀, hr₀, h⟩
    rcases Option.bind_eq_some_iff.1 h with ⟨i', hi', h⟩
    rcases Option.bind_eq_some_iff.1 h with ⟨r₁, hr₁, h⟩
    cases h
    refine ⟨fun hslash => absurd hslash (not_slashed_of_expect (by decide) hr₀), fun _ => ?_⟩
    -- The identities have a name, so a word begins here.
    have hne : peek r₀ ≠ none := by
      intro hnone
      rw [(word_of_peek_none hnone).1] at hi'
      cases hi'
    rcases word_extend ht hne (not_slashed_of_expect (by decide) hr₁) with ⟨hvalue, hrest⟩
    refine ⟨i, ?_, trivial⟩
    rw [gives_identities_some usual (peek_extend_of_ne (by decide) hpeek),
      expect_extend (by decide) hr₀, Option.bind_some, hvalue, hi', Option.bind_some, hrest,
      expect_extend (by decide) hr₁]
    rfl
  · rw [gives_identities_none usual hpeek] at h
    cases h
    refine ⟨id, fun hslash => ⟨usual, ?_, trivial⟩⟩
    exact gives_identities_none usual (peek_extend_ne hslash hpeek ht.alphabet)

end Extend
end Reader
end OnDemand
