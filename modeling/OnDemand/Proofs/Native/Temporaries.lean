import OnDemand.Proofs.Native.Turns

/-!
# Temporary names

A temporary name is the name of the file that it is for, with an ending.  Whatever path the file
has, all names made so lie in one directory, and no two endings make one name.  The second half of
this module says what each step of staging does: one lemma a step, with all that can come of it.
-/

namespace OnDemand

open Plugin

/-! ## Names with an ending -/

namespace Plugin

/-- An ending long enough that whatever has it is a name. -/
structure MakesName (e : Text) : Prop extends IsEnding e where
  long : 2 < e.length

theorem IsTemporary.makesName {e : Text} (h : IsTemporary e) : MakesName e :=
  ⟨h.toIsEnding, Nat.lt_trans (by decide) h.long⟩

theorem makesName_source : MakesName sourceEnding := ⟨isEnding_source, by decide⟩

theorem makesName_library : MakesName libraryEnding := ⟨isEnding_library, by decide⟩

end Plugin

namespace Path

theorem isAbsolute_append_ending (p : Path) {e : Text} (h : IsEnding e) :
    isAbsolute (p ++ e) = isAbsolute p := by
  cases p with
  | cons c p => rfl
  | nil =>
      have hdot := h.dot
      cases e with
      | nil => cases hdot
      | cons c e =>
          cases hdot
          rfl

end Path

namespace Disk

/-- What ends so is a name, whatever it begins with. -/
theorem isName_append_of_makesName (last : Text) {e : Text} (h : MakesName e) :
    IsName (last ++ e) := by
  have hlong : 2 < (last ++ e).length := by
    rw [List.length_append]
    exact Nat.lt_of_lt_of_le h.long (Nat.le_add_left _ _)
  have hne : ∀ piece : Text, piece.length ≤ 2 → last ++ e ≠ piece := by
    rintro piece hpiece rfl
    exact Nat.not_lt_of_le hpiece hlong
  refine ⟨?_, hne _ (by decide)⟩
  rw [Path.isIdle, Bool.or_eq_false_iff]
  exact ⟨List.isEmpty_eq_false_iff.2 (hne [] (by decide)),
    beq_eq_false_iff_ne.2 (hne _ (by decide))⟩

/--
A name with an ending lies in the directory in which the last step of the path is taken, wherever
that step leads.
-/
theorem place_append_ending (d : Disk) (p : Path) :
    ∃ directory last, (∀ e, MakesName e → d.place (p ++ e) = directory ++ [last ++ e]) ∧
      (d.place p = directory ++ [last] ∨ d.place p = directory ∨
        d.place p = directory.dropLast) := by
  obtain ⟨front, last, hp, hpe⟩ := Text.exists_splitAt_concat '/' p
  refine ⟨(front.filter fun piece => !Path.isIdle piece).foldl follow (d.startOf p), last, ?_, ?_⟩
  · intro e he
    obtain ⟨hidle, hup⟩ := isName_append_of_makesName last he
    rw [place, Path.steps, hpe e he.slash_not_mem, List.filter_append,
      List.filter_cons_of_pos (by simp [hidle]), List.filter_nil, List.foldl_append, startOf,
      Path.isAbsolute_append_ending p he.toIsEnding, List.foldl_cons, List.foldl_nil, follow,
      if_neg hup]
    rfl
  · rw [place, Path.steps, hp, List.filter_append, List.foldl_append]
    by_cases hidle : Path.isIdle last = true
    · rw [List.filter_cons_of_neg (by simp [hidle]), List.filter_nil]
      exact .inr (.inl rfl)
    · rw [List.filter_cons_of_pos (by simp [hidle]), List.filter_nil, List.foldl_cons,
        List.foldl_nil, follow]
      split
      next => exact .inr (.inr rfl)
      next => exact .inl rfl

/-- A name with an ending is at another place than what it has been made of. -/
theorem place_append_ne (d : Disk) (p : Path) {e : Text} (h : MakesName e) :
    d.place (p ++ e) ≠ d.place p := by
  obtain ⟨directory, last, hending, hplace⟩ := d.place_append_ending p
  rw [hending e h]
  rcases hplace with hplace | hplace | hplace <;> rw [hplace]
  · intro heq
    have hlast := List.append_cancel_left heq
    have hlength := congrArg List.length (List.singleton_inj.1 hlast)
    rw [List.length_append] at hlength
    have := h.long
    omega
  · simp
  · intro heq
    have hlength := congrArg List.length heq
    rw [List.length_append, List.length_dropLast, List.length_singleton] at hlength
    omega

/-- Endings that differ make names at different places. -/
theorem ending_inj (d : Disk) (p : Path) {e e' : Text} (h : MakesName e) (h' : MakesName e')
    (heq : d.place (p ++ e) = d.place (p ++ e')) : e = e' := by
  obtain ⟨directory, last, hending, -⟩ := d.place_append_ending p
  rw [hending e h, hending e' h'] at heq
  exact List.append_cancel_left (List.singleton_inj.1 (List.append_cancel_left heq))

end Disk

/-! ## Temporary names -/

namespace Site

variable {τ : Type}

/-- The ending of a temporary name. -/
def ending (process serial : Nat) (extension : Text) : Text :=
  '.' :: Text.ofNat process ++ '.' :: Text.ofNat serial ++ '.' :: extension

theorem makesName_draft (process serial : Nat) : MakesName (ending process serial "tmp".toList) :=
  (isTemporary_ending process serial (.inl rfl) (.inl rfl)).makesName

theorem serial_inj {process n n' : Nat} {extension : Text}
    (h : ending process n extension = ending process n' extension) : n = n' := by
  simp only [ending, List.append_assoc, List.cons_append, List.cons.injEq, true_and] at h
  have hnumber := List.cons.inj (List.append_cancel_left h)
  exact Text.ofNat_inj (List.append_cancel_right hnumber.2)

/-- The directories that lead to a target. -/
def OnWayTo (d : Disk) (target : Path) (q : Place) : Prop :=
  ∃ dir, Path.parent? target = some dir ∧ ∃ p ∈ Disk.ancestors dir, q = d.place p

/-! ## Steps of staging -/

/-- Directories are made that lead to the target, and no file is touched. -/
theorem prepare_cases (s : Site τ) (target : Path) :
    ∃ disk, Disk.Alters Disk.Nowhere (OnWayTo s.disk target) s.disk disk ∧
      (s.prepare target = ({ s with disk }, .ok ()) ∨
        ∃ dir message, Path.parent? target = some dir ∧
          s.prepare target = ({ s with disk }, .error (.io dir message))) := by
  cases hdir : Path.parent? target with
  | none => exact ⟨s.disk, Disk.Alters.refl _ _ _, .inl (by simp only [prepare, hdir])⟩
  | some dir =>
      have halters := (s.disk.alters_makeUpwards (Disk.ancestors dir)).mono (fun _ => id)
        fun q hq => (⟨dir, hdir, hq⟩ : OnWayTo s.disk target q)
      cases hmake : s.disk.makeUpwards (Disk.ancestors dir) with
      | mk disk result =>
          rw [hmake] at halters
          refine ⟨disk, halters, ?_⟩
          cases result with
          | ok done => exact .inl (by simp only [prepare, hdir, change, Disk.makeDirectories, hmake])
          | error fault =>
              exact .inr ⟨dir, fault.message, rfl,
                by simp only [prepare, hdir, change, Disk.makeDirectories, hmake]⟩

/-- The temporary file is written, or nothing happens. -/
theorem draft_cases (s : Site τ) (temporary : Path) (content : Text) :
    (∃ message, s.draft temporary content = (s, .error (.io temporary message))) ∨
      ∃ disk time, s.draft temporary content = ({ s with disk }, .ok ()) ∧
        Disk.Alters (· = s.disk.place temporary) Disk.Nowhere s.disk disk ∧
        disk.Has temporary (.text content) time := by
  have halters := s.disk.alters_write temporary (.text content)
  cases hwrite : s.disk.write temporary (.text content) with
  | mk disk result =>
      rw [hwrite] at halters
      cases result with
      | error fault =>
          cases Disk.write_error hwrite
          exact .inl ⟨fault.message, by simp only [draft, change, hwrite]⟩
      | ok done =>
          exact .inr ⟨disk, s.disk.clock, by simp only [draft, change, hwrite], halters,
            Disk.has_of_nodeAt (Disk.nodeAt_of_write hwrite)⟩

/-- The temporary file is removed, or nothing happens. -/
theorem discard_cases (s : Site τ) (temporary : Path) :
    (∃ message, s.discard temporary = (s, .error (.io temporary message)) ∧
      ∀ content time, ¬s.disk.Has temporary content time) ∨
      ∃ disk, s.discard temporary = ({ s with disk }, .ok false) ∧
        Disk.Alters (· = s.disk.place temporary) Disk.Nowhere s.disk disk ∧
        disk.file? (s.disk.place temporary) = none := by
  have halters := s.disk.alters_remove temporary
  cases hremove : s.disk.remove temporary with
  | mk disk result =>
      rw [hremove] at halters
      cases result with
      | error fault =>
          cases Disk.remove_error hremove
          refine .inl ⟨fault.message, by simp only [discard, change, hremove], ?_⟩
          intro content time hhas
          have hok := Disk.remove_of_has hhas
          rw [hremove] at hok
          cases hok
      | ok done =>
          exact .inr ⟨disk, by simp only [discard, change, hremove], halters,
            Disk.file?_of_remove hremove⟩

/-- The temporary file takes the place of the target, or nothing happens. -/
theorem publish_cases (s : Site τ) {temporary target : Path}
    (hne : s.disk.place temporary ≠ s.disk.place target) :
    (∃ message, s.publish temporary target = (s, .error (.io target message))) ∨
      ∃ disk, s.publish temporary target = ({ s with disk }, .ok true) ∧
        Disk.Alters (Disk.Between (s.disk.place temporary) (s.disk.place target)) Disk.Nowhere
          s.disk disk ∧
        disk.file? (s.disk.place temporary) = none ∧
        ∀ content time, s.disk.Has temporary content time → disk.Has target content time := by
  have halters := s.disk.alters_rename temporary target
  cases hrename : s.disk.rename temporary target with
  | mk disk result =>
      rw [hrename] at halters
      cases result with
      | error fault =>
          cases Disk.rename_error hrename
          exact .inl ⟨fault.message, by simp only [publish, change, hrename]⟩
      | ok done =>
          exact .inr ⟨disk, by simp only [publish, change, hrename], halters,
            Disk.file?_of_rename hrename hne, fun content time hhas =>
              Disk.has_of_nodeAt (Disk.nodeAt_of_rename hrename hhas)⟩

end Site
end OnDemand
