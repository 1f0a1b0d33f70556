import OnDemand.Proofs.Descriptor.Openers

/-!
# Names carry no decoration

A name begins with a character of a word and ends with one or with a closing bracket, so there are
no blanks and no quotes around it to take off.
-/

namespace OnDemand

namespace Stripping

/-- Nothing is taken off the front: no blank and no quote. -/
def StartsPlain (t : Text) : Prop :=
  ∃ c s, t = c :: s ∧ isBlank c = false ∧ c ≠ '\'' ∧ c ≠ '"'

/-- Nothing is taken off the end. -/
def EndsPlain (t : Text) : Prop :=
  ∃ s c, t = s ++ [c] ∧ isBlank c = false

theorem EndsPlain.append {t : Text} (h : EndsPlain t) (s : Text) : EndsPlain (s ++ t) := by
  rcases h with ⟨u, c, rfl, hc⟩
  exact ⟨s ++ u, c, by simp, hc⟩

theorem trim_of_plain {t : Text} (hstart : StartsPlain t) (hend : EndsPlain t) :
    Text.trim t = t := by
  rcases hstart with ⟨c, s, hs, hc, -, -⟩
  rcases hend with ⟨u, e, hu, he⟩
  have htrimStart : Text.trimStart t = t := by
    rw [hs]
    exact Text.trimStart_cons hc s
  rw [Text.trim, htrimStart, Text.trimEnd, hu]
  simp [he]

theorem quotes_of_plain {t : Text} (hstart : StartsPlain t) (hend : EndsPlain t) :
    quotes t = t := by
  have htrim : Text.trim t = t := trim_of_plain hstart hend
  rcases hstart with ⟨c, s, hs, -, hsingle, hdouble⟩
  have hunquoted : ∀ q, c ≠ q → unquoted? q t = none := by
    intro q hq
    subst hs
    cases s with
    | nil => rfl
    | cons d s => simp [unquoted?, hq]
  simp [quotes, htrim, hunquoted _ hsingle, hunquoted _ hdouble]

theorem homeless_of_withoutHome? {t : Text} (h : withoutHome? t = none) : homeless t = t := by
  rw [homeless.eq_def]
  split
  · rename_i r hr
    rw [h] at hr
    cases hr
  · rfl

end Stripping

namespace Descriptor

open Reader Stripping

/-! ## Where names begin -/

theorem startsPlain_of_inWord {c : Char} (h : inWord c) (s : Text) : StartsPlain (c :: s) := by
  refine ⟨c, s, rfl, isBlank_of_inWord h, ?_, ?_⟩
  · rintro rfl
    exact absurd h (by decide)
  · rintro rfl
    exact absurd h (by decide)

theorem startsPlain_of_takeWhile {t : Text} (h : t.takeWhile inWord ≠ []) : StartsPlain t := by
  cases t with
  | nil => exact absurd rfl h
  | cons c s =>
      cases hc : inWord c with
      | true => exact startsPlain_of_inWord hc s
      | false => simp [hc] at h

theorem IsOpaque.takeWhile_ne_nil {name : Text} (h : IsOpaque name) :
    name.takeWhile inWord ≠ [] := by
  cases h with
  | bare hw =>
      rw [takeWhile_of_all hw.isWord.2]
      exact hw.isWord.ne_nil
  | @applied w p hw hp =>
      rcases hp with ⟨raw, -, -, rfl⟩
      rw [takeWhile_append_of_breaksWord w (show BreaksWord ('<' :: raw ++ ['>']) from rfl),
        takeWhile_of_all hw.isWord.2]
      exact hw.isWord.ne_nil
  | constant _ => exact List.cons_ne_nil _ _

theorem NamesAutomaton.ne_nil {name : Text} (h : NamesAutomaton name) : name ≠ [] := by
  rintro rfl
  exact absurd h.isAutomaton (by decide)

theorem HasParts.opener_ne_nil {d : Descriptor} (h : HasParts d) : d.opener ≠ [] := by
  cases d with
  | genset letters generators => exact h.elim
  | weightset name => exact (isWord_of_isTerminal h).ne_nil
  | automaton name ds => exact h.1.ne_nil
  | other name => exact IsOpaque.takeWhile_ne_nil h
  | _ => exact List.cons_ne_nil _ _

theorem HasParts.startsPlain {d : Descriptor} (h : HasParts d) : StartsPlain d.fullName := by
  have hopener : d.fullName.takeWhile inWord ≠ [] := by
    rw [h.takeWhile_fullName]
    exact h.opener_ne_nil
  exact startsPlain_of_takeWhile hopener

/-! ## Where names end -/

theorem endsPlain_applied (head p : Text) : EndsPlain (applied head p) :=
  ⟨head ++ '<' :: p, '>', rfl, rfl⟩

theorem endsPlain_of_isWord {w : Text} (h : IsWord w) : EndsPlain w := by
  have hdrop : w.dropLast ++ [w.getLast h.ne_nil] = w := List.dropLast_concat_getLast h.ne_nil
  have hlast : inWord (w.getLast h.ne_nil) := h.inWord_of_mem (List.getLast_mem h.ne_nil)
  exact ⟨_, _, hdrop.symm, isBlank_of_inWord hlast⟩

theorem IsOpaque.endsPlain {name : Text} (h : IsOpaque name) : EndsPlain name := by
  induction h with
  | bare hw => exact endsPlain_of_isWord hw.isWord
  | @applied w p hw hp =>
      rcases hp with ⟨raw, -, -, rfl⟩
      have hclose : EndsPlain ('<' :: raw ++ ['>']) := ⟨'<' :: raw, '>', rfl, rfl⟩
      exact hclose.append w
  | constant _ ih => exact ih.append _

theorem HasParts.endsPlain {d : Descriptor} (h : HasParts d) : EndsPlain d.fullName := by
  unfold fullName
  cases d with
  | genset letters generators => exact h.elim
  | oneset => exact endsPlain_of_isWord (by decide)
  | weightset name =>
      rw [nameWith]
      exact endsPlain_of_isWord (isWord_of_isTerminal h)
  | other name =>
      rw [nameWith]
      exact IsOpaque.endsPlain h
  | expressionset c i =>
      rw [nameWith]
      split
      · rw [List.append_nil]
        exact endsPlain_applied _ _
      · have hclose : EndsPlain ('(' :: i.name ++ [')']) := ⟨'(' :: i.name, ')', rfl, rfl⟩
        exact hclose.append _
  | _ =>
      rw [nameWith]
      exact endsPlain_applied _ _

/-- There is nothing to take off a name. -/
theorem IsType.quotes_fullName {d : Descriptor} (h : IsType d) : quotes d.fullName = d.fullName :=
  quotes_of_plain h.hasParts.startsPlain h.hasParts.endsPlain

end Descriptor
end OnDemand
