import OnDemand.Proofs.Descriptor.ReadingsSpelled

/-!
# A context is read from its spellings and from nothing else

The reader of contexts takes off what may stand around a context, and then accepts exactly the
spellings.  The joined words are the one place where it accepts less than one would expect: behind
`lal`, `law`, `lan` and their long names, the brackets of a weight set are taken for those of the
label set, so `lal_lat<b>` is not read although `lal_char_lat<b>` and `lal, lat<b>` are.
-/

namespace OnDemand
namespace Spelling

open Reader Stripping

/-! ## Decorations are taken off -/

section

variable {core t : Text}

theorem trim_blanks (b b' : Blanks) {c : Char} {s : Text} (hc : isBlank c = false)
    (ht : t = c :: s) (hend : EndsPlain t) : Text.trim (b.text ++ (t ++ b'.text)) = t := by
  rcases hend with ⟨u, e, hu, he⟩
  have hstart : Text.trimStart (b.text ++ (t ++ b'.text)) = t ++ b'.text := by
    rw [trimStart_blanks, ht, List.cons_append, Text.trimStart_cons hc]
  have hblank : ∀ d ∈ b'.text.reverse, isBlank d = true := fun d hd =>
    List.all_eq_true.1 b'.blank d (List.mem_reverse.1 hd)
  have hreverse : (t ++ b'.text).reverse.dropWhile isBlank = t.reverse := by
    rw [List.reverse_append, List.dropWhile_append_of_pos hblank, hu]
    simp [he]
  rw [Text.trim, hstart, Text.trimEnd, hreverse, List.reverse_reverse]

theorem unquoted?_quoted (q : Char) (t : Text) :
    unquoted? q (q :: (t ++ [q])) = some (Text.trim t) := by
  cases t with
  | nil => simp [unquoted?]
  | cons c t =>
      have hlast : (c :: (t ++ [q])).getLast? = some q := by
        rw [← List.cons_append, List.getLast?_concat]
      have hinit : (c :: (t ++ [q])).dropLast = c :: t := by
        rw [← List.cons_append, List.dropLast_concat]
      rw [List.cons_append, unquoted?, if_pos ⟨rfl, hlast⟩, hinit]

theorem quotes_eq (t : Text) : quotes t =
    ((unquoted? '\'' (Text.trim t)) <|> (unquoted? '"' (Text.trim t))).getD (Text.trim t) :=
  rfl

theorem quotes_plain (b b' : Blanks) (hstart : StartsPlain t) (hend : EndsPlain t) :
    quotes (b.text ++ (t ++ b'.text)) = t := by
  have htrim : Text.trim (b.text ++ (t ++ b'.text)) = Text.trim t := by
    rw [trim_of_plain hstart hend]
    rcases hstart with ⟨c, s, hs, hc, -, -⟩
    exact trim_blanks b b' hc hs hend
  rw [quotes_eq, htrim, ← quotes_eq, quotes_of_plain hstart hend]

theorem quotes_quoted (b b₁ b₂ b' : Blanks) {q : Char} (hq : q = '\'' ∨ q = '"')
    (hstart : StartsPlain t) (hend : EndsPlain t) :
    quotes (b.text ++ q :: (b₁.text ++ (t ++ (b₂.text ++ q :: b'.text)))) = t := by
  have hblank : isBlank q = false := by
    rcases hq with rfl | rfl <;> rfl
  have htrim : Text.trim (b.text ++ q :: (b₁.text ++ (t ++ (b₂.text ++ q :: b'.text)))) =
      q :: (b₁.text ++ (t ++ b₂.text) ++ [q]) := by
    have htext : q :: (b₁.text ++ (t ++ (b₂.text ++ q :: b'.text))) =
        q :: (b₁.text ++ (t ++ b₂.text) ++ [q]) ++ b'.text := by
      simp
    rw [htext]
    exact trim_blanks b b' hblank rfl ⟨q :: (b₁.text ++ (t ++ b₂.text)), q, rfl, hblank⟩
  -- Inside the quotes, blanks go as well.
  have hinner : Text.trim (b₁.text ++ (t ++ b₂.text)) = t := by
    rcases hstart with ⟨c, s, hs, hc, -, -⟩
    exact trim_blanks b₁ b₂ hc hs hend
  have hunquoted := unquoted?_quoted q (b₁.text ++ (t ++ b₂.text))
  rw [hinner] at hunquoted
  rw [quotes_eq, htrim]
  rcases hq with rfl | rfl
  · rw [hunquoted]
    rfl
  · -- The single quotes are tried first, and there are none.
    have hother : unquoted? '\'' ('"' :: (b₁.text ++ (t ++ b₂.text) ++ ['"'])) = none := by
      generalize b₁.text ++ (t ++ b₂.text) ++ ['"'] = u
      cases u with
      | nil => rfl
      | cons c u => simp [unquoted?]
    rw [hother, hunquoted]
    rfl

theorem withoutHome?_append : ∀ h ∈ homeWords, ∀ t : Text, withoutHome? (h ++ t) = some t := by
  intro h hmem t
  simp only [homeWords, List.mem_cons, List.not_mem_nil, or_false] at hmem
  rcases hmem with rfl | rfl | rfl | rfl <;> rfl

theorem Homed.startsPlain (h : Homed core t) (hcore : StartsPlain core) : StartsPlain t := by
  cases h with
  | core => exact hcore
  | @home h t b hmem _ =>
      have hword : ∀ h ∈ homeWords, ∃ c s, h = c :: s ∧ inWord c = true := by
        intro h hmem
        simp only [homeWords, List.mem_cons, List.not_mem_nil, or_false] at hmem
        rcases hmem with rfl | rfl | rfl | rfl <;> exact ⟨_, _, rfl, by decide⟩
      rcases hword h hmem with ⟨c, s, rfl, hc⟩
      exact Descriptor.startsPlain_of_inWord hc _

theorem Homed.endsPlain (h : Homed core t) (hcore : EndsPlain core) : EndsPlain t := by
  induction h with
  | core => exact hcore
  | home b _ _ ih => exact (ih.append _).append _

theorem Homed.homeless_eq (h : Homed core t) (hcore : StartsPlain core)
    (hhome : withoutHome? core = none) : homeless t = core := by
  induction h with
  | core => exact homeless_of_withoutHome? hhome
  | @home h t b hmem ht ih =>
      have htrim : Text.trimStart (b.text ++ t) = t := by
        rcases ht.startsPlain hcore with ⟨c, s, rfl, hc, -, -⟩
        rw [trimStart_blanks, Text.trimStart_cons hc]
      rw [homeless.eq_def, withoutHome?_append h hmem]
      simp only
      rw [htrim, ih]

/-- What is left of a decorated text is what has been decorated. -/
theorem Decorated.decoration_eq (h : Decorated core t) (hstart : StartsPlain core)
    (hend : EndsPlain core) (hhome : withoutHome? core = none) : decoration t = core := by
  cases h with
  | plain b b' h =>
      rw [decoration, quotes_plain b b' (h.startsPlain hstart) (h.endsPlain hend)]
      exact h.homeless_eq hstart hhome
  | quoted b b₁ b₂ b' hq h =>
      rw [decoration, quotes_quoted b b₁ b₂ b' hq (h.startsPlain hstart) (h.endsPlain hend)]
      exact h.homeless_eq hstart hhome

end

/-! ## What is taken off is decoration -/

theorem blanks_around (t : Text) : ∃ b b' : Blanks, t = b.text ++ (Text.trim t ++ b'.text) := by
  rcases Text.trim_split t with ⟨before, after, hbefore, hafter, hsplit, -⟩
  exact ⟨⟨before, List.all_eq_true.2 hbefore⟩, ⟨after, List.all_eq_true.2 hafter⟩, hsplit⟩

theorem homed_homeless (t : Text) : Homed (homeless t) t := by
  induction t using homeless.induct with
  | case1 t r h ih =>
      have hhomeless : homeless t = homeless (Text.trimStart r) := by
        rw [homeless.eq_def, h]
      have hsplit : ∃ home ∈ homeWords, t = home ++ r := by
        rcases List.exists_of_findSome?_eq_some h with ⟨home, hmem, hhome⟩
        exact ⟨home, hmem, Text.dropPrefix?_eq_some_iff.1 hhome⟩
      rcases hsplit with ⟨home, hmem, ht⟩
      rcases trimStart_split r with ⟨b, hb⟩
      rw [hb] at ht
      rw [hhomeless]
      conv => rhs; rw [ht]
      exact .home b hmem ih
  | case2 t h =>
      rw [homeless_of_withoutHome? h]
      exact .core

theorem unquoted?_split {q : Char} {s t : Text} (h : unquoted? q s = some t) :
    ∃ b b' : Blanks, s = q :: (b.text ++ (t ++ (b'.text ++ [q]))) := by
  unfold unquoted? at h
  split at h
  next c d rest =>
      split at h
      next hquoted =>
          cases h
          rcases hquoted with ⟨rfl, hlast⟩
          rcases blanks_around (d :: rest).dropLast with ⟨b, b', hblanks⟩
          refine ⟨b, b', ?_⟩
          have hrest : (d :: rest).dropLast ++ [c] = d :: rest := by
            rcases List.getLast?_eq_some_iff.1 hlast with ⟨u, hu⟩
            rw [hu, List.dropLast_concat]
          have htext : b.text ++ (Text.trim (d :: rest).dropLast ++ (b'.text ++ [c])) =
              d :: rest := by
            rw [← List.append_assoc, ← List.append_assoc, List.append_assoc b.text, ← hblanks,
              hrest]
          rw [htext]
      next => cases h
  next => cases h

/-- Every text is what is left of it, decorated. -/
theorem decorated_decoration (t : Text) : Decorated (decoration t) t := by
  rcases blanks_around t with ⟨b, b', ht⟩
  -- The two kinds of quotes are taken off in the same way.
  have hquoted : ∀ q, q = '\'' ∨ q = '"' → unquoted? q (Text.trim t) = some (quotes t) →
      Decorated (decoration t) t := by
    intro q hq hunquoted
    rcases unquoted?_split hunquoted with ⟨b₁, b₂, hsplit⟩
    have htext : t = b.text ++ q :: (b₁.text ++ (quotes t ++ (b₂.text ++ q :: b'.text))) := by
      conv => lhs; rw [ht, hsplit]
      simp
    conv => rhs; rw [htext]
    exact .quoted b b₁ b₂ b' hq (homed_homeless _)
  cases hsingle : unquoted? '\'' (Text.trim t) with
  | some u =>
      refine hquoted '\'' (.inl rfl) ?_
      rw [quotes_eq, hsingle]
      rfl
  | none =>
      cases hdouble : unquoted? '"' (Text.trim t) with
      | some u =>
          refine hquoted '"' (.inr rfl) ?_
          rw [quotes_eq, hsingle, hdouble]
          rfl
      | none =>
          have hplain : quotes t = Text.trim t := by
            rw [quotes_eq, hsingle, hdouble]
            rfl
          conv => rhs; rw [ht, ← hplain]
          exact .plain b b' (homed_homeless _)

/-! ## There are no blanks around what is left -/

theorem isBlank_last_trim {t u : Text} {c : Char} (h : Text.trim t = u ++ [c]) :
    isBlank c = false := by
  have hreverse : (Text.trimStart t).reverse.dropWhile isBlank = c :: u.reverse := by
    rw [Text.trim, Text.trimEnd] at h
    have hback := congrArg List.reverse h
    rw [List.reverse_reverse] at hback
    rw [hback]
    simp
  have hnot := List.head?_dropWhile_not isBlank (Text.trimStart t).reverse
  rw [hreverse] at hnot
  simpa using hnot

theorem trimStart_trim (t : Text) : Text.trimStart (Text.trim t) = Text.trim t := by
  rcases Text.trim_split t with ⟨-, -, -, -, -, hhead⟩
  cases htrim : Text.trim t with
  | nil => rfl
  | cons c r => rw [Text.trimStart_cons (hhead c r htrim)]

theorem quotes_eq_trim (t : Text) : ∃ u, quotes t = Text.trim u := by
  have hunquoted : ∀ {q s u}, unquoted? q s = some u → ∃ v, u = Text.trim v := by
    intro q s u h
    unfold unquoted? at h
    split at h
    next c d rest =>
        split at h
        next => exact ⟨_, (Option.some.inj h).symm⟩
        next => cases h
    next => cases h
  rw [quotes_eq]
  cases hsingle : unquoted? '\'' (Text.trim t) with
  | some u => exact hunquoted hsingle
  | none =>
      cases hdouble : unquoted? '"' (Text.trim t) with
      | some u => exact hunquoted hdouble
      | none => exact ⟨t, rfl⟩

theorem trimStart_homeless {t : Text} (h : Text.trimStart t = t) :
    Text.trimStart (homeless t) = homeless t := by
  induction t using homeless.induct with
  | case1 t r hhome ih =>
      have hhomeless : homeless t = homeless (Text.trimStart r) := by
        rw [homeless.eq_def, hhome]
      rw [hhomeless]
      exact ih (trimStart_trimStart r)
  | case2 t hhome => rwa [homeless_of_withoutHome? hhome]

theorem Homed.suffix {core t : Text} (h : Homed core t) : ∃ u, t = u ++ core := by
  induction h with
  | core => exact ⟨[], rfl⟩
  | @home h t b _ _ ih =>
      rcases ih with ⟨u, hu⟩
      exact ⟨h ++ (b.text ++ u), by simp [← hu]⟩

/-- No blanks are left before or after what is left. -/
theorem decoration_around {t m r : Text} {b : Blanks} (h : decoration t = b.text ++ (m ++ r))
    (hm : ∃ c s, m = c :: s ∧ isBlank c = false) (hr : Text.trimStart r = []) :
    decoration t = m := by
  rcases quotes_eq_trim t with ⟨u, hu⟩
  -- Nothing that is trimmed begins with a blank.
  have hb : b.text = [] := by
    have htrim : Text.trimStart (decoration t) = decoration t := by
      refine trimStart_homeless ?_
      rw [hu, trimStart_trim]
    rcases hm with ⟨c, s, rfl, hc⟩
    rw [h] at htrim
    exact blanks_eq_nil hc htrim
  have hr' : r = [] := by
    rcases List.eq_nil_or_concat r with hnil | ⟨r', c, rfl⟩
    · exact hnil
    · -- The last character would be blank, and it is the last one of a trimmed text.
      rcases (homed_homeless (quotes t)).suffix with ⟨v, hv⟩
      have hcore : homeless (quotes t) = b.text ++ (m ++ r'.concat c) := h
      have hlast : Text.trim u = v ++ (b.text ++ (m ++ r')) ++ [c] := by
        rw [← hu, hv, hcore]
        simp
      have hblank : isBlank c = true := by
        rcases trimStart_split (r'.concat c) with ⟨b', hb'⟩
        rw [hr, List.append_nil] at hb'
        exact List.all_eq_true.1 b'.blank c (by simp [← hb'])
      rw [isBlank_last_trim hlast] at hblank
      cases hblank
  rw [h, hb, hr', List.nil_append, List.append_nil]

/-! ## Spelled contexts carry no decoration -/

/-- Nothing follows the word, or something that does not end with a blank. -/
def Closes (p : Text) : Prop := p = [] ∨ EndsPlain p

theorem endsPlain_within (b b₁ : Blanks) (w p : Text) (b₂ : Blanks) :
    EndsPlain (within b b₁ w p b₂) :=
  ⟨b.text ++ '<' :: (b₁.text ++ (w ++ (p ++ b₂.text))), '>', by simp [within], rfl⟩

theorem SpellsAlphabet.closes {gens : Option Text} {p : Text} (h : SpellsAlphabet gens p) :
    Closes p := by
  cases h with
  | absent => exact .inl rfl
  | @given gens raw b _ => exact .inr ⟨b.text ++ '(' :: raw, ')', by simp, rfl⟩

theorem SpellsBracketed.endsPlain {letters p : Text} {d : Descriptor}
    (h : SpellsBracketed letters d p) : EndsPlain p := by
  cases h with
  | @letterset gens raw _ => exact ⟨'[' :: raw, ']', rfl, rfl⟩
  | @wordset gens raw _ => exact ⟨'[' :: (raw ++ [']']), '*', by simp, rfl⟩

section

variable {joins : (w p q : Text) → Prop} {d : Descriptor} {w p : Text}

theorem SpellsProduct.endsPlain (h : SpellsProduct joins d p) : EndsPlain p := by
  cases h with
  | tupleset => exact endsPlain_within _ _ _ _ _

theorem SpellsExpressions.endsPlain {usual : Identities}
    (h : SpellsExpressions joins usual d p) : EndsPlain p := by
  cases h with
  | expressionset b b₁ b₂ _ hi =>
      cases hi with
      | usual =>
          rw [List.append_nil]
          exact endsPlain_within _ _ _ _ _
      | @given w i b₃ b₄ b₅ _ =>
          have hclose : EndsPlain (b₃.text ++ '(' :: (b₄.text ++ (w ++ (b₅.text ++ [')'])))) :=
            ⟨b₃.text ++ '(' :: (b₄.text ++ (w ++ b₅.text)), ')', by simp, rfl⟩
          exact hclose.append _

theorem SpellsLabelset.closes (h : SpellsLabelset joins d w p) : Closes p := by
  cases h with
  | lettered _ hgens => exact hgens.closes
  | untyped _ hgens => exact hgens.closes
  | nullableBare _ hgens => exact hgens.closes
  | one _ => exact .inl rfl
  | bracketed h => exact .inr h.endsPlain
  | @prefixed v letters p d b₁ b₂ b₃ _ h =>
      have hclose := h.endsPlain.append
        ('<' :: (b₁.text ++ (v ++ (b₂.text ++ '>' :: b₃.text))))
      exact .inr (by simpa using hclose)
  | product _ h => exact .inr h.endsPlain
  | expressions _ h => exact .inr h.endsPlain
  | _ => exact .inr (endsPlain_within _ _ _ _ _)

theorem SpellsWeightset.closes (h : SpellsWeightset joins d w p) : Closes p := by
  cases h with
  | terminal _ => exact .inl rfl
  | polynomials => exact .inr (endsPlain_within _ _ _ _ _)
  | product _ h => exact .inr h.endsPlain
  | expressions _ h => exact .inr h.endsPlain

theorem endsPlain_of_closes (hw : IsWord w) (hp : Closes p) : EndsPlain (w ++ p) := by
  rcases hp with rfl | hp
  · rw [List.append_nil]
    exact Descriptor.endsPlain_of_isWord hw
  · exact hp.append w

theorem SpellsContext.endsPlain (hjoins : KeepsApart joins) (h : SpellsContext joins d w p) :
    EndsPlain (w ++ p) := by
  cases h with
  | wrapped => exact (endsPlain_within _ _ _ _ _).append _
  | @separated w p s v q l d _ _ hd =>
      have hword : IsWord v := isWord_of_mem_weightWords v (hd.reads hjoins).word
      exact (((endsPlain_of_closes hword hd.closes).append s).append p).append w
  | @joined w p v q l d hw hl hd hj =>
      have hword := ((SpellsContext.joined hw hl hd hj).reads hjoins).opens.opener
      have hcloses : Closes (p ++ q) := by
        rcases hd.closes with rfl | hq
        · rw [List.append_nil]
          exact hl.closes
        · exact .inr (hq.append p)
      exact endsPlain_of_closes (hword.resolve_right fun h => by simp at h) hcloses

theorem startsPlain_of_opens (h : Opens w p) : StartsPlain (w ++ p) := by
  rcases h.opener with hw | ⟨rfl, hp⟩
  · cases w with
    | nil => exact absurd rfl hw.ne_nil
    | cons c w =>
        exact Descriptor.startsPlain_of_inWord (hw.inWord_of_mem List.mem_cons_self) _
  · cases p with
    | nil => simp at hp
    | cons c p =>
        have hc : c = '[' ∨ c = '<' := by simpa using hp
        rcases hc with rfl | rfl
        · exact ⟨'[', p, rfl, rfl, by decide, by decide⟩
        · exact ⟨'<', p, rfl, rfl, by decide, by decide⟩

theorem withoutHome?_of_head {c : Char} (hv : c ≠ 'v') (hc : c ≠ 'c') (t : Text) :
    withoutHome? (c :: t) = none := by
  simp [withoutHome?, homes, Text.dropPrefix?, hv.symm, hc.symm]

/-- Label set words do not begin like the name of a home. -/
theorem withoutHome?_of_isLabelset (hw : Keyword.isLabelset w = true) (t : Text) :
    withoutHome? (w ++ t) = none := by
  have hall : ∀ l ∈ Keyword.labelsets.map Prod.fst,
      l ≠ [] ∧ l.head? ≠ some 'v' ∧ l.head? ≠ some 'c' := by
    decide
  rcases Option.isSome_iff_exists.1 hw with ⟨form, hform⟩
  rcases hall w (List.mem_map_of_mem (mem_labelsets hform)) with ⟨hne, hv, hc⟩
  cases w with
  | nil => exact absurd rfl hne
  | cons c w => exact withoutHome?_of_head (by simpa using hv) (by simpa using hc) _

theorem SpellsContext.withoutHome?_eq (hjoins : KeepsApart joins)
    (h : SpellsContext joins d w p) : withoutHome? (w ++ p) = none := by
  cases h with
  | wrapped => rfl
  | @separated w p s v q l d hl _ _ =>
      have hreads := hl.reads hjoins
      rcases hreads.opens.opener with hw | ⟨rfl, hp⟩
      · exact withoutHome?_of_isLabelset (hreads.word.resolve_left hw.ne_nil) _
      · cases p with
        | nil => simp at hp
        | cons c p =>
            have hc : c = '[' ∨ c = '<' := by simpa using hp
            rcases hc with rfl | rfl
            · exact withoutHome?_of_head (by decide) (by decide) _
            · exact withoutHome?_of_head (by decide) (by decide) _
  | @joined w p v q l d hw hl _ _ =>
      have hlabels := (hl.reads hjoins).word.resolve_left hw
      rw [List.append_assoc]
      exact withoutHome?_of_isLabelset hlabels _

end

/-! ## Whole texts -/

section

variable {joins : (w p q : Text) → Prop} {text : Text} {d : Descriptor}

theorem ofContext_of_isSpelling (hjoins : KeepsApart joins) (h : IsSpelling joins text d) :
    Descriptor.ofContext text = .ok d := by
  rcases h with ⟨w, p, hspells, hdecorated⟩
  have hreads := hspells.reads hjoins
  have hdecoration : decoration text = w ++ p :=
    hdecorated.decoration_eq (startsPlain_of_opens hreads.opens) (hspells.endsPlain hjoins)
      (hspells.withoutHome?_eq hjoins)
  have hgives : gives (context (word (w ++ p)).value (word (w ++ p)).rest) = some (d, []) := by
    have hbreaks := breaksWord_append hreads.opens.breaks halts_nil.word
    have hword : (word (w ++ (p ++ []))).value = w ∧ (word (w ++ (p ++ []))).rest = p ++ [] :=
      hreads.opens.word_blanks .none hbreaks
    rw [List.append_nil] at hword
    have hreading := hreads.reads [] halts_nil
    rw [List.append_nil] at hreading
    rw [hword.1, hword.2]
    exact hreading
  rw [Descriptor.ofContext, hdecoration, Descriptor.reported_eq_ok_iff]
  exact finish_eq_ok_iff.2 ⟨[], hgives, rfl⟩

/-- What is read as a context has been spelled, but for its decoration. -/
theorem spelled_of_ofContext (h : Descriptor.ofContext text = .ok d) :
    ∃ w p, SpellsContext Apart d w p ∧ decoration text = w ++ p := by
  have hwhole := Descriptor.reported_eq_ok_iff.1 h
  rcases finish_eq_ok_iff.1 hwhole with ⟨r, hgives, hr⟩
  rcases splitsContexts.context _ _ (begins_word _) _ _ hgives with ⟨p, hp, hspells⟩
  rcases word_split (decoration text) with ⟨b, hb⟩
  rw [hp, ← List.append_assoc (word (decoration text)).value] at hb
  have hopens := (hspells.reads keepsApart_apart).opens
  refine ⟨_, p, hspells, decoration_around hb ?_ hr⟩
  rcases startsPlain_of_opens hopens with ⟨c, s, hs, hc, -, -⟩
  exact ⟨c, s, hs, hc⟩

/--
A context is read from a text just when the text is a spelling of it, in which joined words are
kept apart.  So all spellings of a context are read as that context, and nothing else is.
-/
theorem ofContext_eq_ok_iff_isSpelling (text : Text) (d : Descriptor) :
    Descriptor.ofContext text = .ok d ↔ IsSpelling Apart text d := by
  refine ⟨fun h => ?_, ofContext_of_isSpelling keepsApart_apart⟩
  rcases spelled_of_ofContext h with ⟨w, p, hspells, hdecoration⟩
  refine ⟨w, p, hspells, ?_⟩
  rw [← hdecoration]
  exact decorated_decoration text

end

/-- An alphabet of characters in brackets, an underscore behind them, quotes and a home. -/
example : Descriptor.ofContext "\"ctx::lal<char(ab)>_b\"".toList =
    .ok (.context (.letterset (.genset "char_letters".toList (some "ab".toList)))
      (.weightset "b".toList)) := by
  have hgenset : SpellsGenset (.genset "char_letters".toList (some "ab".toList)) "char".toList
      "(ab)".toList :=
    .short (by decide) (.given .none
      (.plain (by decide) (by decide) (.plain (by decide) (by decide) .nil)))
  have hlabels : SpellsLabelset Apart
      (Shape.letters.over (.genset "char_letters".toList (some "ab".toList))) "lal".toList
      (within .none .none "char".toList "(ab)".toList .none) :=
    .typed .none .none .none (by decide) hgenset
  have hweights : SpellsWeightset Apart (.weightset "b".toList) "b".toList [] :=
    .terminal (by decide)
  have hspells := SpellsContext.separated hlabels (.underscore .none .none (by decide)) hweights
  have hhome : Homed "lal<char(ab)>_b".toList
      ("ctx::".toList ++ (Blanks.none.text ++ "lal<char(ab)>_b".toList)) :=
    .home .none (by decide) .core
  exact ofContext_of_isSpelling keepsApart_apart
    ⟨_, _, hspells, .quoted .none .none .none .none (.inr rfl) hhome⟩

theorem ofContext_lal_lat (d : Descriptor) : Descriptor.ofContext "lal_lat<b>".toList ≠ .ok d := by
  have hquotes : quotes "lal_lat<b>".toList = "lal_lat<b>".toList := by decide
  have hhome : withoutHome? "lal_lat<b>".toList = none := by decide
  have hword : (word "lal_lat<b>".toList).value = "lal_lat".toList ∧
      (word "lal_lat<b>".toList).rest = '<' :: "b>".toList := by
    decide
  have hjoined : "lal_lat".toList ≠ "context".toList ∧
      joined? "lal_lat".toList = some ("lal".toList, "lat".toList) := by
    decide
  have hletters : (word "b>".toList).value = "b".toList ∧
      (word "b>".toList).rest = '>' :: [] := by
    decide
  have hform : Keyword.labelForm? "lal".toList = some (.typed .letters) := by decide
  -- The brackets of the product are read for the label set.
  have hlabels : gives (labelset "lal".toList ('<' :: "b>".toList)) =
      some (.letterset (.genset "b".toList none), []) := by
    rw [gives_labelset_typed hform, gives_typedGenset_typed (peek_cons rfl _),
      leaves_open, Option.bind_some, hletters.1, hletters.2,
      gives_genset_bare (by decide) (by decide),
      gives_alphabet_none (by rw [peek_cons rfl]; decide), Option.bind_some, Option.bind_some,
      leaves_close]
    rfl
  have hnone : gives (context (word "lal_lat<b>".toList).value
      (word "lal_lat<b>".toList).rest) = none := by
    rw [hword.1, hword.2, gives_context_joined hjoined.1 hjoined.2, hlabels, Option.bind_some,
      gives_weightset_product (by decide), gives_product, leaves_expect]
    rfl
  intro h
  rw [Descriptor.ofContext, decoration, hquotes, homeless_of_withoutHome? hhome,
    Descriptor.reported_eq_ok_iff] at h
  rcases finish_eq_ok_iff.1 h with ⟨r, hgives, -⟩
  have hsome := hnone.symm.trans hgives
  cases hsome

/-- A spelling with an underscore that is not read: `lal, lat<b>` and `lal_char_lat<b>` are. -/
theorem joined_brackets_not_read :
    (IsSpelling Plain "lal_lat<b>".toList
        (.context (.letterset (.genset "char_letters".toList none))
          (.tupleset [.weightset "b".toList])) ∧
      ∀ d, Descriptor.ofContext "lal_lat<b>".toList ≠ .ok d) ∧
    ¬∀ text d, IsSpelling Plain text d → Descriptor.ofContext text = .ok d := by
  have hlabels : SpellsLabelset Plain
      (Shape.letters.over (.genset "char_letters".toList none)) "lal".toList [] :=
    .untyped (by decide) .absent
  have hmember : SpellsMember Plain (.weightset "b".toList) "b".toList [] :=
    .weightset (.terminal (by decide))
  have hweights : SpellsWeightset Plain (.tupleset [.weightset "b".toList]) "lat".toList
      (within .none .none "b".toList [] .none) :=
    .product (by decide) (.tupleset .none .none .none hmember .nil)
  have hspelling : IsSpelling Plain "lal_lat<b>".toList
      (.context (.letterset (.genset "char_letters".toList none))
        (.tupleset [.weightset "b".toList])) :=
    ⟨_, _, .joined (by decide) hlabels hweights rfl, .plain .none .none .core⟩
  exact ⟨⟨hspelling, ofContext_lal_lat⟩, fun hall => ofContext_lal_lat _ (hall _ _ hspelling)⟩

end Spelling
end OnDemand
