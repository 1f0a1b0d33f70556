import OnDemand.Text.Basic

/-!
# Pieces and lines

Splitting a text at a character undoes the joining of pieces that do not have it, and the other way
round.  The pieces of two texts one after another are those of both, but that the last piece of the
first text goes on with the first of the second (`splitAt_append`).  The lines of a text that ends
with a newline are its pieces, but for the returns that may end them: `lines_unlines` says so of
lines that end with no return.
-/

namespace OnDemand.Text

/-! ## Splitting -/

section Splits

variable {p : Char → Bool}

theorem splitWhere_ne_nil (p : Char → Bool) (t : Text) : splitWhere p t ≠ [] := by
  cases t with
  | nil => simp [splitWhere]
  | cons d t =>
      rw [splitWhere]
      split
      · simp
      · split
        · simp
        · simp

theorem splitWhere_cons_of_neg {d : Char} (h : p d = false) (t : Text) :
    ∃ piece rest, splitWhere p t = piece :: rest ∧ splitWhere p (d :: t) = (d :: piece) :: rest := by
  cases hsplit : splitWhere p t with
  | nil => exact absurd hsplit (splitWhere_ne_nil p t)
  | cons piece rest =>
      refine ⟨piece, rest, rfl, ?_⟩
      rw [splitWhere, hsplit]
      simp [h]

theorem splitWhere_of_forall {t : Text} (h : ∀ d ∈ t, p d = false) : splitWhere p t = [t] := by
  induction t with
  | nil => rfl
  | cons d t ih =>
      rw [List.forall_mem_cons] at h
      rcases splitWhere_cons_of_neg h.1 t with ⟨piece, rest, ht, hdt⟩
      rw [ih h.2] at ht
      cases ht
      exact hdt

/-- A character that is split at ends what stands before it. -/
theorem splitWhere_append {c : Char} (h : p c = true) (a b : Text) :
    splitWhere p (a ++ c :: b) = splitWhere p a ++ splitWhere p b := by
  induction a with
  | nil => simp [splitWhere, h]
  | cons d a ih =>
      cases hd : p d with
      | true =>
          rw [List.cons_append, splitWhere, if_pos hd, ih, splitWhere, if_pos hd, List.cons_append]
      | false =>
          rcases splitWhere_cons_of_neg hd a with ⟨piece, rest, ha, hda⟩
          rcases splitWhere_cons_of_neg hd (a ++ c :: b) with ⟨piece', rest', hab, hdab⟩
          rw [ih, ha, List.cons_append] at hab
          cases hab
          rw [List.cons_append, hdab, hda, List.cons_append]

end Splits

section Split

variable {c : Char}

theorem splitAt_cons_self (c : Char) (t : Text) : splitAt c (c :: t) = [] :: splitAt c t := by
  simp [splitAt, splitWhere]

theorem splitAt_ne_nil (c : Char) (t : Text) : splitAt c t ≠ [] := splitWhere_ne_nil _ t

theorem splitAt_cons_of_ne {d : Char} (h : d ≠ c) (t : Text) :
    ∃ piece rest, splitAt c t = piece :: rest ∧ splitAt c (d :: t) = (d :: piece) :: rest :=
  splitWhere_cons_of_neg (p := (· == c)) (beq_eq_false_iff_ne.2 h) t

theorem splitAt_of_not_mem {t : Text} (h : c ∉ t) : splitAt c t = [t] := by
  refine splitWhere_of_forall fun d hd => beq_eq_false_iff_ne.2 ?_
  rintro rfl
  exact h hd

theorem splitAt_append_self (c : Char) (a b : Text) :
    splitAt c (a ++ c :: b) = splitAt c a ++ splitAt c b :=
  splitWhere_append (by simp) a b

theorem not_mem_of_mem_splitAt {t piece : Text} (h : piece ∈ splitAt c t) : c ∉ piece := by
  induction t generalizing piece with
  | nil =>
      have hpiece : piece = [] := by simpa [splitAt, splitWhere] using h
      simp [hpiece]
  | cons d t ih =>
      by_cases hd : d = c
      · subst hd
        rw [splitAt_cons_self] at h
        rcases List.mem_cons.1 h with rfl | h
        · simp
        · exact ih h
      · rcases splitAt_cons_of_ne hd t with ⟨first, rest, ht, hdt⟩
        rw [hdt] at h
        rcases List.mem_cons.1 h with rfl | h
        · have hfirst : c ∉ first := ih (by simp [ht])
          simp [hfirst, Ne.symm hd]
        · exact ih (by simp [ht, h])

theorem splitAt_joinWith {pieces : List Text} (hne : pieces ≠ [])
    (h : ∀ piece ∈ pieces, c ∉ piece) : splitAt c (joinWith [c] pieces) = pieces := by
  induction pieces with
  | nil => exact absurd rfl hne
  | cons piece rest ih =>
      cases rest with
      | nil => exact splitAt_of_not_mem (h piece (by simp))
      | cons next rest =>
          rw [joinWith, List.append_assoc, List.singleton_append, splitAt_append_self,
            splitAt_of_not_mem (h piece (by simp)), ih (by simp) fun q hq => h q (by simp [hq])]
          rfl

end Split

/-! ## Texts one after another -/

section Continued

variable {α : Type}

/-- The pieces, of which the last goes on with the first of `others`, and the rest of these. -/
def continued : List (List α) → List (List α) → List (List α)
  | [], others => others
  | [last], others => (last ++ others.headD []) :: others.tail
  | piece :: next :: rest, others => piece :: continued (next :: rest) others

theorem continued_cons {pieces : List (List α)} (h : pieces ≠ []) (piece : List α)
    (others : List (List α)) :
    continued (piece :: pieces) others = piece :: continued pieces others := by
  cases pieces with
  | nil => exact absurd rfl h
  | cons next rest => rfl

theorem continued_ne_nil {pieces : List (List α)} (h : pieces ≠ []) (others : List (List α)) :
    continued pieces others ≠ [] := by
  cases pieces with
  | nil => exact absurd rfl h
  | cons piece rest => cases rest <;> exact List.cons_ne_nil _ _

/-- An empty piece only goes on. -/
theorem continued_empty {others : List (List α)} (h : others ≠ []) :
    continued [[]] others = others := by
  cases others with
  | nil => exact absurd rfl h
  | cons first rest => rfl

theorem continued_cons_cons (x : α) (piece : List α) (pieces others : List (List α)) :
    ∃ first rest, continued (piece :: pieces) others = first :: rest ∧
      continued ((x :: piece) :: pieces) others = (x :: first) :: rest := by
  cases pieces with
  | nil => exact ⟨_, _, rfl, rfl⟩
  | cons next rest => exact ⟨_, _, rfl, rfl⟩

theorem continued_concat (front : List (List α)) (last : List α) (others : List (List α)) :
    continued (front ++ [last]) others = front ++ (last ++ others.headD []) :: others.tail := by
  induction front with
  | nil => rfl
  | cons piece front ih => rw [List.cons_append, continued_cons (by simp), ih, List.cons_append]

theorem map_continued {β : Type} {f : List α → List β}
    (happend : ∀ piece piece', f (piece ++ piece') = f piece ++ f piece')
    (pieces others : List (List α)) :
    (continued pieces others).map f = continued (pieces.map f) (others.map f) := by
  induction pieces with
  | nil => rfl
  | cons piece pieces ih =>
      cases pieces with
      | nil => cases others <;> simp [continued, happend]
      | cons next rest =>
          calc
            (continued (piece :: next :: rest) others).map f
                = f piece :: (continued (next :: rest) others).map f := rfl
            _ = f piece :: continued ((next :: rest).map f) (others.map f) := by rw [ih]
            _ = continued ((piece :: next :: rest).map f) (others.map f) := rfl

/-- The last piece of a text goes on with the first of the text behind it. -/
theorem splitAt_append (c : Char) (a b : Text) :
    splitAt c (a ++ b) = continued (splitAt c a) (splitAt c b) := by
  induction a with
  | nil => exact (continued_empty (splitAt_ne_nil c b)).symm
  | cons d a ih =>
      by_cases hd : d = c
      · subst hd
        rw [List.cons_append, splitAt_cons_self, splitAt_cons_self, ih,
          continued_cons (splitAt_ne_nil d a)]
      · obtain ⟨piece, rest, ha, hda⟩ := splitAt_cons_of_ne hd a
        obtain ⟨piece', rest', hab, hdab⟩ := splitAt_cons_of_ne hd (a ++ b)
        obtain ⟨first, more, hfirst, hcons⟩ := continued_cons_cons d piece rest (splitAt c b)
        rw [ih, ha, hfirst] at hab
        cases hab
        rw [List.cons_append, hdab, hda, hcons]

/-- What is written after a text goes on with its last piece. -/
theorem exists_splitAt_concat (c : Char) (t : Text) :
    ∃ front last, splitAt c t = front ++ [last] ∧
      ∀ e, c ∉ e → splitAt c (t ++ e) = front ++ [last ++ e] := by
  obtain ⟨front, last, ht⟩ : ∃ front last, splitAt c t = front ++ [last] :=
    ⟨_, _, (List.dropLast_concat_getLast (splitAt_ne_nil c t)).symm⟩
  refine ⟨front, last, ht, fun e he => ?_⟩
  rw [splitAt_append, splitAt_of_not_mem he, ht, continued_concat]
  rfl

end Continued

/-! ## Joining -/

theorem joinWith_append (sep : Text) {pieces pieces' : List Text} (h : pieces ≠ [])
    (h' : pieces' ≠ []) :
    joinWith sep (pieces ++ pieces') = joinWith sep pieces ++ sep ++ joinWith sep pieces' := by
  induction pieces with
  | nil => exact absurd rfl h
  | cons piece pieces ih =>
      cases pieces with
      | nil =>
          cases pieces' with
          | nil => exact absurd rfl h'
          | cons next more => rfl
      | cons next pieces =>
          have hrest := ih (by simp)
          rw [List.cons_append] at hrest
          rw [List.cons_append, List.cons_append, joinWith, hrest, joinWith]
          simp only [List.append_assoc]

theorem joinWith_splitAt (c : Char) (t : Text) : joinWith [c] (splitAt c t) = t := by
  induction t with
  | nil => rfl
  | cons d t ih =>
      by_cases hd : d = c
      · subst hd
        rw [splitAt_cons_self]
        -- The break opens an empty piece before those of the rest.
        cases hsplit : splitAt d t with
        | nil => exact absurd hsplit (splitAt_ne_nil d t)
        | cons piece rest =>
            rw [hsplit] at ih
            rw [joinWith, ih]
            rfl
      · obtain ⟨piece, rest, ht, hdt⟩ := splitAt_cons_of_ne hd t
        rw [ht] at ih
        rw [hdt]
        -- The character joins the first piece, which stands alone or before a separator.
        cases rest with
        | nil =>
            rw [joinWith] at ih ⊢
            rw [ih]
        | cons next rest =>
            rw [joinWith] at ih ⊢
            rw [← ih]
            rfl

theorem mem_joinWith {sep : Text} {pieces : List Text} {c : Char} (h : c ∈ joinWith sep pieces) :
    c ∈ sep ∨ ∃ piece ∈ pieces, c ∈ piece := by
  induction pieces with
  | nil => simp [joinWith] at h
  | cons piece pieces ih =>
      cases pieces with
      | nil => exact .inr ⟨piece, by simp, h⟩
      | cons next rest =>
          rw [joinWith, List.mem_append, List.mem_append] at h
          rcases h with (h | h) | h
          · exact .inr ⟨piece, by simp, h⟩
          · exact .inl h
          · rcases ih h with hsep | ⟨p, hp, hc⟩
            · exact .inl hsep
            · exact .inr ⟨p, List.mem_cons_of_mem _ hp, hc⟩

theorem mem_joinWith_of_mem {sep : Text} {pieces : List Text} {piece : Text} (h : piece ∈ pieces)
    {c : Char} (hc : c ∈ piece) : c ∈ joinWith sep pieces := by
  induction pieces with
  | nil => cases h
  | cons first rest ih =>
      cases rest with
      | nil =>
          rw [List.mem_singleton] at h
          subst h
          exact hc
      | cons next rest =>
          rw [joinWith, List.mem_append, List.mem_append]
          rcases List.mem_cons.1 h with rfl | h
          · exact .inl (.inl hc)
          · exact .inr (ih h)

/-! ## Lines -/

/-- The lines one after another, each with a newline at its end. -/
def unlines (ls : List Text) : Text := ls.flatMap (· ++ ['\n'])

theorem unlines_nil : unlines [] = [] := rfl

theorem unlines_cons (l : Text) (ls : List Text) :
    unlines (l :: ls) = l ++ '\n' :: unlines ls := by
  simp [unlines]

theorem unlines_append (ls ls' : List Text) : unlines (ls ++ ls') = unlines ls ++ unlines ls' :=
  List.flatMap_append

theorem getLast?_unlines {ls : List Text} (h : ls ≠ []) : (unlines ls).getLast? = some '\n' := by
  have hdrop : ls.dropLast ++ [ls.getLast h] = ls := List.dropLast_concat_getLast h
  rw [← hdrop, unlines_append]
  simp [unlines]

/-- A line that is found in a text as it was put there. -/
structure IsLine (l : Text) : Prop where
  newline_not_mem : '\n' ∉ l
  getLast?_ne : l.getLast? ≠ some '\r'

theorem IsLine.concat {t : Text} (h : '\n' ∉ t) {c : Char} (hc : c ∉ ['\n', '\r']) :
    IsLine (t ++ [c]) := by
  simp only [List.mem_cons, List.not_mem_nil, or_false, not_or] at hc
  refine ⟨?_, ?_⟩
  · rw [List.mem_append, List.mem_singleton]
    exact not_or.2 ⟨h, Ne.symm hc.1⟩
  · simpa using hc.2

theorem isLine_of_not_mem {l : Text} (h : '\n' ∉ l) (h' : '\r' ∉ l) : IsLine l :=
  ⟨h, fun hlast => h' (List.mem_of_getLast? hlast)⟩

theorem withoutReturn_of_isLine {l : Text} (h : IsLine l) : withoutReturn l = l := by
  have hdrop : dropSuffix? ['\r'] l = none := by
    have hlast : l.reverse.head? ≠ some '\r' := by
      rw [List.head?_reverse]
      exact h.getLast?_ne
    unfold dropSuffix?
    cases hl : l.reverse with
    | nil => rfl
    | cons c t =>
        have hc : '\r' ≠ c := by
          rintro rfl
          exact hlast (by rw [hl]; rfl)
        simp [dropPrefix?, hc]
  rw [withoutReturn, hdrop]
  rfl

theorem splitAt_unlines {ls : List Text} (h : ∀ l ∈ ls, '\n' ∉ l) :
    splitAt '\n' (unlines ls) = ls ++ [[]] := by
  induction ls with
  | nil => rfl
  | cons l ls ih =>
      rw [unlines_cons, splitAt_append_self, splitAt_of_not_mem (h l (by simp)),
        ih fun l' hl' => h l' (List.mem_cons_of_mem l hl')]
      rfl

/-- Lines are found again in the text that is made of them. -/
theorem lines_unlines {ls : List Text} (h : ∀ l ∈ ls, IsLine l) : lines (unlines ls) = ls := by
  have hreturns : ls.map withoutReturn = ls := by
    rw [List.map_congr_left fun l hl => withoutReturn_of_isLine (h l hl), List.map_id']
  simp only [lines, splitAt_unlines fun l hl => (h l hl).newline_not_mem, List.dropLast_concat,
    List.getLast?_concat, hreturns]

/-- A text is made of its pieces at the newlines. -/
theorem unlines_splitAt (t : Text) : unlines (splitAt '\n' t) = t ++ ['\n'] := by
  induction t with
  | nil => rfl
  | cons c t ih =>
      by_cases hc : c = '\n'
      · subst hc
        rw [splitAt_cons_self, unlines_cons, ih]
        rfl
      · obtain ⟨piece, rest, ht, hct⟩ := splitAt_cons_of_ne hc t
        rw [ht, unlines_cons] at ih
        rw [hct, unlines_cons, List.cons_append, ih]
        rfl

/-! ## The pieces behind the first -/

section Tail

variable {c : Char}

theorem head?_splitAt (c : Char) (t : Text) :
    (splitAt c t).head? = some (t.takeWhile fun d => d != c) := by
  induction t with
  | nil => rfl
  | cons d t ih =>
      by_cases hd : d = c
      · subst hd
        simp [splitAt_cons_self]
      · obtain ⟨piece, rest, ht, hdt⟩ := splitAt_cons_of_ne hd t
        rw [ht, List.head?_cons, Option.some.injEq] at ih
        rw [hdt, List.head?_cons, ih]
        simp [hd]

/-- A piece behind the first one begins where the text has the character. -/
theorem mem_tail_splitAt {t piece : Text} (h : piece ∈ (splitAt c t).tail) :
    ∃ a b, t = a ++ c :: b ∧ piece = b.takeWhile fun d => d != c := by
  induction t with
  | nil => simp [splitAt, splitWhere] at h
  | cons d t ih =>
      by_cases hd : d = c
      · subst hd
        rw [splitAt_cons_self, List.tail_cons] at h
        cases hsplit : splitAt d t with
        | nil => exact absurd hsplit (splitAt_ne_nil d t)
        | cons first rest =>
            rw [hsplit] at ih h
            rcases List.mem_cons.1 h with rfl | h
            · have hhead := head?_splitAt d t
              rw [hsplit, List.head?_cons, Option.some.injEq] at hhead
              exact ⟨[], t, rfl, hhead⟩
            · obtain ⟨a, b, rfl, hb⟩ := ih h
              exact ⟨d :: a, b, rfl, hb⟩
      · obtain ⟨first, rest, ht, hdt⟩ := splitAt_cons_of_ne hd t
        rw [hdt, List.tail_cons] at h
        rw [ht, List.tail_cons] at ih
        obtain ⟨a, b, rfl, hb⟩ := ih h
        exact ⟨d :: a, b, rfl, hb⟩

theorem mem_of_mem_splitAt {t piece : Text} (h : piece ∈ splitAt c t) {d : Char} (hd : d ∈ piece) :
    d ∈ t := by
  rw [← joinWith_splitAt c t]
  exact mem_joinWith_of_mem h hd

end Tail

end OnDemand.Text
