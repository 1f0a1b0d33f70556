import Mathlib.Data.List.Induction
import OnDemand.Proofs.Native.Staging
import OnDemand.Proofs.Positions

/-!
# Staging is atomic

Any number of stagers put their texts under one path, and take their turns in any order.  What holds
between turns is an invariant (`Staging.Sound`): temporary names are all different, each temporary
file holds what its stager has written, and the target is as it was or holds all of one text.  What
is settled stays so at all later moments (`Staging.Later`).  From the two comes what each call can
rely on.
-/

namespace OnDemand

open Disk

namespace Staging

variable {τ : Type}

/-! ## Between turns -/

/-- The temporary name with this number. -/
def nameOf (target : Path) (process serial : Nat) : Path :=
  target ++ Site.ending process serial "tmp".toList

/-- What holds of a state between turns, `s` being the site at the beginning. -/
structure Sound (target : Path) (s : Site τ) (S : State τ) : Prop where
  process : S.site.process = s.process
  here : S.site.disk.here = s.disk.here
  stays : ∀ q, s.disk.isDirectoryAt q = true → S.site.disk.isDirectoryAt q = true
  made : ∀ q, S.site.disk.isDirectoryAt q = true →
    s.disk.isDirectoryAt q = true ∨ Site.OnWayTo s.disk target q
  named : ∀ (i : Nat) (c : Stager) temporary, S.stagers[i]? = some c →
    c.phase.temporary? = some temporary → ∃ n < S.site.serial, temporary = nameOf target s.process n
  apart : ∀ (i j : Nat) (c c' : Stager) temporary, S.stagers[i]? = some c →
    S.stagers[j]? = some c' → c.phase.temporary? = some temporary →
    c'.phase.temporary? = some temporary → i = j
  fits : ∀ (i : Nat) (c : Stager), S.stagers[i]? = some c → Fits S.site.disk c
  whole : S.site.disk.file? (s.disk.place target) = s.disk.file? (s.disk.place target) ∨
    ∃ c ∈ S.stagers, ∃ time, S.site.disk.Has target (.text c.content) time

section Sound

variable {target : Path} {s : Site τ} {S R : State τ} {i j : Nat} {c c' : Stager}

theorem sound_start (target : Path) (s : Site τ) : Sound target s ⟨s, []⟩ where
  process := rfl
  here := rfl
  stays := fun _ => id
  made := fun _ => .inl
  named := by simp
  apart := by simp
  fits := by simp
  whole := .inl rfl

/-- A caller who comes later has touched nothing. -/
theorem Sound.call (h : Sound target s S) (content : Text) :
    Sound target s { S with stagers := S.stagers ++ [.start content] } := by
  have hcases : ∀ (i : Nat) (c : Stager), (S.stagers ++ [.start content])[i]? = some c →
      S.stagers[i]? = some c ∨ c = .start content := by
    intro i c hc
    rw [List.getElem?_append] at hc
    split at hc
    next => exact .inl hc
    next => exact .inr (List.mem_singleton.1 (List.mem_of_getElem? hc))
  refine ⟨h.process, h.here, h.stays, h.made, ?_, ?_, ?_, ?_⟩
  · intro i c temporary hc htemporary
    rcases hcases i c hc with hc | rfl
    · exact h.named i c temporary hc htemporary
    · cases htemporary
  · intro i j c c' temporary hc hc' htemporary htemporary'
    rcases hcases i c hc with hc | rfl
    · rcases hcases j c' hc' with hc' | rfl
      · exact h.apart i j c c' temporary hc hc' htemporary htemporary'
      · cases htemporary'
    · cases htemporary
  · intro i c hc
    rcases hcases i c hc with hc | rfl
    · exact h.fits i c hc
    · trivial
  · refine h.whole.imp_right ?_
    rintro ⟨c, hc, htime⟩
    exact ⟨c, List.mem_append_left _ hc, htime⟩

theorem Sound.place_ne (h : Sound target s S) {temporary : Path} (hc : S.stagers[i]? = some c)
    (htemporary : c.phase.temporary? = some temporary) :
    S.site.disk.place temporary ≠ S.site.disk.place target := by
  obtain ⟨n, -, rfl⟩ := h.named i c temporary hc htemporary
  exact place_append_ne _ _ (Site.makesName_draft _ _)

/-- Temporary names of different stagers are at different places. -/
theorem Sound.place_inj (h : Sound target s S) {temporary temporary' : Path}
    (hc : S.stagers[i]? = some c) (hc' : S.stagers[j]? = some c')
    (htemporary : c.phase.temporary? = some temporary)
    (htemporary' : c'.phase.temporary? = some temporary')
    (hplace : S.site.disk.place temporary = S.site.disk.place temporary') : i = j := by
  obtain ⟨n, -, rfl⟩ := h.named i c _ hc htemporary
  obtain ⟨n', -, rfl⟩ := h.named j c' _ hc' htemporary'
  have hending := ending_inj _ _ (Site.makesName_draft _ _) (Site.makesName_draft _ _) hplace
  have hname : nameOf target s.process n = nameOf target s.process n' :=
    congrArg (target ++ ·) hending
  rw [← hname] at htemporary'
  exact h.apart i j c c' _ hc hc' htemporary htemporary'

/-- What is known of the disk for a stager stays so as long as its temporary file is left alone. -/
theorem Fits.alters {d d' : Disk} {files directories : Place → Prop} (h : Fits d c)
    (halters : Alters files directories d d')
    (hfiles : ∀ temporary, c.phase.temporary? = some temporary → ¬files (d.place temporary)) :
    Fits d' c := by
  obtain ⟨content, phase⟩ := c
  cases phase with
  | compares temporary => exact h.imp fun time hdraft => hdraft.alters halters (hfiles _ rfl)
  | settles temporary same => exact h.imp fun time hdraft => hdraft.alters halters (hfiles _ rfl)
  | returns temporary changed =>
      show d'.file? (d'.place temporary) = none
      rw [halters.place_eq, halters.file _ (hfiles _ rfl)]
      exact h
  | done temporary changed =>
      show d'.file? (d'.place temporary) = none
      rw [halters.place_eq, halters.file _ (hfiles _ rfl)]
      exact h
  | _ => trivial

theorem onWayTo_of_here {d d' : Disk} (h : d'.here = d.here) {q : Place}
    (hq : Site.OnWayTo d' target q) : Site.OnWayTo d target q := by
  obtain ⟨dir, hdir, p, hp, rfl⟩ := hq
  exact ⟨dir, hdir, p, hp, place_of_here h p⟩

/-- The name that a turn chooses is nobody else's. -/
theorem Sound.temporary_ne (h : Sound target s S) (hc : S.stagers[i]? = some c) {s' : Site τ}
    (ht : Turned target S.site s' c c') {c₁ : Stager} {temporary : Path} (hne : j ≠ i)
    (hc₁ : S.stagers[j]? = some c₁) (htemporary : c₁.phase.temporary? = some temporary) :
    c'.phase.temporary? ≠ some temporary := by
  intro htemporary'
  rcases ht.named temporary htemporary' with hkept | ⟨rfl, -⟩
  · exact hne (h.apart j i c₁ c temporary hc₁ hc htemporary hkept)
  · obtain ⟨n, hn, hname⟩ := h.named j c₁ _ hc₁ htemporary
    rw [h.process] at hname
    have hserial := Site.serial_inj (List.append_cancel_left hname)
    exact Nat.lt_irrefl _ (hserial ▸ hn)

/-- The target is as it was at the beginning, or somebody's text has come there since. -/
theorem Sound.whole_turn (h : Sound target s S) (hc : S.stagers[i]? = some c) {s' : Site τ}
    (ht : Turned target S.site s' c c') :
    s'.disk.file? (s.disk.place target) = s.disk.file? (s.disk.place target) ∨
      ∃ c₁ ∈ S.stagers.set i c', ∃ time, s'.disk.Has target (.text c₁.content) time := by
  have hplace : S.site.disk.place target = s.disk.place target := place_of_here h.here target
  have hmem : c' ∈ S.stagers.set i c' :=
    List.mem_set (List.getElem?_eq_some_iff.1 hc).1 c'
  rcases ht.whole with hsame | ⟨-, time, hhas⟩
  · rw [hplace] at hsame
    rcases h.whole with hstart | ⟨c₁, hc₁, time, hhas⟩
    · exact .inl (hsame.trans hstart)
    · -- The text is still that of the same stager, who may be the one whose turn it was.
      have hhas' := hhas.of_same ht.alters.here ht.alters.stays (hplace.symm ▸ hsame)
      obtain ⟨j, hj⟩ := List.mem_iff_getElem?.1 hc₁
      by_cases hij : i = j
      · subst hij
        cases hc.symm.trans hj
        exact .inr ⟨c', hmem, time, by rw [ht.content]; exact hhas'⟩
      · refine .inr ⟨c₁, List.mem_of_getElem? (i := j) ?_, time, hhas'⟩
        rw [List.getElem?_set_ne hij]
        exact hj
  · exact .inr ⟨c', hmem, time, by rw [ht.content]; exact hhas⟩

/-- A turn leaves alone what is known for the others. -/
theorem Sound.turn (h : Sound target s S) (hc : S.stagers[i]? = some c) {s' : Site τ}
    (ht : Turned target S.site s' c c') :
    Sound target s { site := s', stagers := S.stagers.set i c' } := by
  refine ⟨ht.process.trans h.process, ht.alters.here.trans h.here,
    fun q hq => ht.alters.stays q (h.stays q hq), ?_, ?_, ?_, ?_, h.whole_turn hc ht⟩
  · intro q hq
    rcases ht.alters.made q hq with hbefore | hmade
    · exact h.made q hbefore
    · exact .inr (onWayTo_of_here h.here hmade)
  · intro j c₁ temporary hc₁ htemporary
    rcases getElem?_set_cases hc₁ with ⟨-, rfl⟩ | ⟨-, hold⟩
    · rcases ht.named temporary htemporary with hkept | ⟨rfl, hlt⟩
      · obtain ⟨n, hn, hname⟩ := h.named i c temporary hc hkept
        exact ⟨n, Nat.lt_of_lt_of_le hn ht.serial, hname⟩
      · exact ⟨S.site.serial, hlt, by rw [nameOf, h.process]⟩
    · obtain ⟨n, hn, hname⟩ := h.named j c₁ temporary hold htemporary
      exact ⟨n, Nat.lt_of_lt_of_le hn ht.serial, hname⟩
  · intro j k c₁ c₂ temporary hc₁ hc₂ htemporary htemporary'
    rcases getElem?_set_cases hc₁ with ⟨rfl, rfl⟩ | ⟨hne, hold⟩
    · rcases getElem?_set_cases hc₂ with ⟨rfl, -⟩ | ⟨hne', hold'⟩
      · rfl
      · exact absurd htemporary (h.temporary_ne hc ht hne' hold' htemporary')
    · rcases getElem?_set_cases hc₂ with ⟨rfl, rfl⟩ | ⟨-, hold'⟩
      · exact absurd htemporary' (h.temporary_ne hc ht hne hold htemporary)
      · exact h.apart j k c₁ c₂ temporary hold hold' htemporary htemporary'
  · intro j c₁ hc₁
    rcases getElem?_set_cases hc₁ with ⟨-, rfl⟩ | ⟨hne, hold⟩
    · exact ht.fits
    · -- The turn touches no temporary file but the stager's own.
      refine (h.fits j c₁ hold).alters ht.alters ?_
      rintro temporary htemporary (⟨temporary', htemporary', heq⟩ | heq)
      · exact hne (h.place_inj hold hc htemporary htemporary' heq)
      · exact h.place_ne hold htemporary heq

/-- What a move is, and what it does. -/
theorem Sound.move_cases (h : Sound target s S) {m : Move} (hmove : move? target S m = some R) :
    (∃ content, m = .call content ∧ R = { S with stagers := S.stagers ++ [.start content] }) ∨
      ∃ i c c' s', m = .turn i ∧ S.stagers[i]? = some c ∧ c.phase.left ≠ 0 ∧
        R = { site := s', stagers := S.stagers.set i c' } ∧ Turned target S.site s' c c' := by
  rcases move?_eq_some hmove with ⟨content, rfl, rfl⟩ | ⟨i, c, rfl, hc, hleft, rfl⟩
  · exact .inl ⟨content, rfl, rfl⟩
  · have hgoes := goes hleft (h.fits i c hc) fun temporary htemporary =>
      h.place_ne hc htemporary
    exact .inr ⟨i, c, _, _, rfl, hc, hleft, rfl, hgoes⟩

theorem Sound.move (h : Sound target s S) {m : Move} (hmove : move? target S m = some R) :
    Sound target s R := by
  rcases h.move_cases hmove with ⟨content, -, rfl⟩ | ⟨i, c, c', s', -, hc, -, rfl, ht⟩
  · exact h.call content
  · exact h.turn hc ht

theorem sound_of_run {moves : List Move} (h : run target ⟨s, []⟩ moves = some R) :
    Sound target s R := by
  induction moves using List.reverseRecOn generalizing R with
  | nil =>
      cases h
      exact sound_start target s
  | append_singleton moves m ih =>
      obtain ⟨S, hrun, hmove⟩ := run_concat_eq_some.1 h
      exact (ih hrun).move hmove

end Sound

/-! ## One moment and a later one -/

/-- What holds of a state at a later moment. -/
structure Later (target : Path) (S R : State τ) : Prop where
  here : R.site.disk.here = S.site.disk.here
  stays : ∀ q, S.site.disk.isDirectoryAt q = true → R.site.disk.isDirectoryAt q = true
  /-- A target that is there may be replaced, but it is never taken away. -/
  present : (S.site.disk.file? (S.site.disk.place target)).isSome = true →
    (R.site.disk.file? (S.site.disk.place target)).isSome = true
  stager : ∀ (i : Nat) (c : Stager), S.stagers[i]? = some c → ∃ c', R.stagers[i]? = some c' ∧
    c'.content = c.content ∧
      ∀ changed, c.phase.changed? = some changed → c'.phase.changed? = some changed

section Later

variable {target : Path} {s : Site τ} {S S' R : State τ} {i : Nat} {c : Stager}

theorem Later.refl (target : Path) (S : State τ) : Later target S S where
  here := rfl
  stays := fun _ => id
  present := id
  stager := fun _ c hc => ⟨c, hc, rfl, fun _ => id⟩

theorem Later.trans (h : Later target S S') (h' : Later target S' R) : Later target S R where
  here := h'.here.trans h.here
  stays := fun q hq => h'.stays q (h.stays q hq)
  present := by
    intro hpresent
    have hlater := h'.present
    rw [place_of_here h.here] at hlater
    exact hlater (h.present hpresent)
  stager := by
    intro i c hc
    obtain ⟨c', hc', hcontent, hchanged⟩ := h.stager i c hc
    obtain ⟨c'', hc'', hcontent', hchanged'⟩ := h'.stager i c' hc'
    exact ⟨c'', hc'', hcontent'.trans hcontent, fun changed hsettled =>
      hchanged' changed (hchanged changed hsettled)⟩

theorem Sound.later (h : Sound target s S) {m : Move} (hmove : move? target S m = some R) :
    Later target S R := by
  rcases h.move_cases hmove with ⟨content, -, rfl⟩ | ⟨i, c, c', s', -, hc, -, rfl, ht⟩
  · refine ⟨rfl, fun _ => id, id, fun i c hc => ⟨c, ?_, rfl, fun _ => id⟩⟩
    rw [List.getElem?_append_left (List.getElem?_eq_some_iff.1 hc).1]
    exact hc
  · refine ⟨ht.alters.here, ht.alters.stays, ?_, ?_⟩
    · intro hpresent
      rcases ht.whole with hsame | ⟨-, time, hhas⟩
      · rw [hsame]
        exact hpresent
      · rw [← place_of_here ht.alters.here, hhas.file?]
        rfl
    · intro j c₁ hc₁
      by_cases hij : i = j
      · subst hij
        cases hc.symm.trans hc₁
        exact ⟨c', List.getElem?_set_self (List.getElem?_eq_some_iff.1 hc).1, ht.content,
          ht.settled⟩
      · refine ⟨c₁, ?_, rfl, fun _ => id⟩
        rw [List.getElem?_set_ne hij]
        exact hc₁

theorem later_of_run {moves more : List Move} (h : run target ⟨s, []⟩ moves = some S)
    (hmore : run target S more = some R) : Later target S R := by
  induction more using List.reverseRecOn generalizing R with
  | nil =>
      cases hmore
      exact Later.refl target S
  | append_singleton more m ih =>
      obtain ⟨S', hrun, hmove⟩ := run_concat_eq_some.1 hmore
      exact (ih hrun).trans ((sound_of_run (run_append_eq_some.2 ⟨S, h, hrun⟩)).later hmove)

end Later

/-! ## What a run shows -/

/-- The run has come to this state after these of its moves. -/
def At (target : Path) (s : Site τ) (moves before : List Move) (Q : State τ) : Prop :=
  before <+: moves ∧ run target ⟨s, []⟩ before = some Q

section Shows

variable {target : Path} {s : Site τ} {Q R : State τ} {moves before : List Move} {i : Nat}
  {c : Stager} {t : Text}

theorem At.sound (h : At target s moves before Q) : Sound target s Q :=
  sound_of_run h.2

theorem At.later (h : At target s moves before Q) (hrun : run target ⟨s, []⟩ moves = some R) :
    Later target Q R := by
  obtain ⟨⟨more, rfl⟩, hbefore⟩ := h
  obtain ⟨S, hS, hmore⟩ := run_append_eq_some.1 hrun
  cases hbefore.symm.trans hS
  exact later_of_run hbefore hmore

theorem At.concat (h : At target s moves before Q) (m : Move) :
    At target s (moves ++ [m]) before Q :=
  ⟨h.1.trans (List.prefix_append _ _), h.2⟩

/-- A stager who has not failed takes six turns. -/
theorem turns_count (h : run target ⟨s, []⟩ moves = some R) (i : Nat) :
    match R.stagers[i]? with
    | none => moves.count (.turn i) = 0
    | some c => c.phase.isFailed = false → moves.count (.turn i) + c.phase.left = 6 := by
  -- Moves are counted from the last one, which starts from a state that the rest leads to.
  induction moves using List.reverseRecOn generalizing R with
  | nil =>
      cases h
      rfl
  | append_singleton moves m ih =>
      obtain ⟨S, hrun, hmove⟩ := run_concat_eq_some.1 h
      have hbefore := ih hrun
      rcases (sound_of_run hrun).move_cases hmove with
        ⟨content, rfl, rfl⟩ | ⟨j, c, c', s', rfl, hc, hleft, rfl, ht⟩
      · -- A call adds a stager that has taken no turn, and takes none.
        rw [List.count_append, List.count_singleton, if_neg (by simp), Nat.add_zero,
          List.getElem?_append]
        split at hbefore
        next hnone =>
            rw [if_neg (by rw [List.getElem?_eq_none_iff] at hnone; omega), hbefore]
            cases hindex : [Stager.start content][i - S.stagers.length]? with
            | none => rfl
            | some c =>
                cases List.mem_singleton.1 (List.mem_of_getElem? hindex)
                exact fun _ => rfl
        next c hc =>
            rw [if_pos (List.getElem?_eq_some_iff.1 hc).1, hc]
            exact hbefore
      · rw [List.count_append, List.count_singleton]
        by_cases hij : j = i
        · subst hij
          rw [hc] at hbefore
          rw [List.getElem?_set_self (List.getElem?_eq_some_iff.1 hc).1, if_pos (by simp)]
          intro hgood
          -- A stager that has not failed has one turn less to take.
          have hstep := ht.goes.resolve_left (by rw [hgood]; decide)
          have hfailed : c.phase.isFailed = false := by
            revert hleft
            cases c.phase with
            | failed e => exact fun hleft => absurd rfl hleft
            | _ => exact fun _ => rfl
          have hcount := hbefore hfailed
          omega
        · rw [List.getElem?_set_ne hij, if_neg (by simpa using hij), Nat.add_zero]
          exact hbefore

/-- Who knows that the target held the text has been called, and was not done, at such a moment. -/
theorem exists_seen (h : run target ⟨s, []⟩ moves = some R) (hc : R.stagers[i]? = some c)
    (hknows : Knows c.phase) : ∃ before Q, At target s moves before Q ∧
      (∃ c', Q.stagers[i]? = some c' ∧ c'.phase.left ≠ 0) ∧
        Q.site.disk.read target = .ok c.content := by
  induction moves using List.reverseRecOn generalizing R c with
  | nil =>
      cases h
      cases hc
  | append_singleton moves m ih =>
      obtain ⟨S, hrun, hmove⟩ := run_concat_eq_some.1 h
      have hold : ∀ c, S.stagers[i]? = some c → Knows c.phase → ∃ before Q,
          At target s (moves ++ [m]) before Q ∧
            (∃ c', Q.stagers[i]? = some c' ∧ c'.phase.left ≠ 0) ∧
              Q.site.disk.read target = .ok c.content := by
        intro c hc hknows
        obtain ⟨before, Q, hat, hseen⟩ := ih hrun hc hknows
        exact ⟨before, Q, hat.concat m, hseen⟩
      rcases (sound_of_run hrun).move_cases hmove with
        ⟨content, rfl, rfl⟩ | ⟨j, c₁, c', s', rfl, hc₁, hleft, rfl, ht⟩
      · rw [List.getElem?_append] at hc
        split at hc
        next => exact hold c hc hknows
        next =>
            cases List.mem_singleton.1 (List.mem_of_getElem? hc)
            exact hknows.elim
      · rcases getElem?_set_cases hc with ⟨rfl, rfl⟩ | ⟨hne, hc⟩
        · rw [ht.content]
          -- It has known so before, or it has just looked, or it has just put the text there.
          rcases ht.knows hknows with hbefore | hread | ⟨hread, hleft'⟩
          · exact hold c₁ hc₁ hbefore
          · exact ⟨moves, S, ⟨List.prefix_append _ _, hrun⟩, ⟨c₁, hc₁, hleft⟩, hread⟩
          · refine ⟨_, _, ⟨List.prefix_rfl, h⟩, ⟨c, ?_, hleft'⟩, hread⟩
            exact List.getElem?_set_self (List.getElem?_eq_some_iff.1 hc₁).1
        · exact hold c hc hknows

/-- Where all stage what the target holds already, it is left alone. -/
theorem still (hread : s.disk.read target = .ok t) (h : run target ⟨s, []⟩ moves = some R)
    (hall : ∀ c ∈ R.stagers, c.content = t) :
    R.site.disk.file? (s.disk.place target) = s.disk.file? (s.disk.place target) ∧
      ∀ c ∈ R.stagers, Keeps c.phase := by
  induction moves using List.reverseRecOn generalizing R with
  | nil =>
      cases h
      exact ⟨rfl, by simp⟩
  | append_singleton moves m ih =>
      obtain ⟨S, hrun, hmove⟩ := run_concat_eq_some.1 h
      have hsound := sound_of_run hrun
      have hcontent : ∀ c ∈ S.stagers, c.content = t := by
        intro c hc
        obtain ⟨i, hi⟩ := List.mem_iff_getElem?.1 hc
        obtain ⟨c', hc', hsame, -⟩ := (hsound.later hmove).stager i c hi
        exact hsame.symm.trans (hall c' (List.mem_of_getElem? hc'))
      obtain ⟨hfile, hkeeps⟩ := ih hrun hcontent
      rcases hsound.move_cases hmove with
        ⟨content, rfl, rfl⟩ | ⟨i, c, c', s', rfl, hc, hleft, rfl, ht⟩
      · refine ⟨hfile, ?_⟩
        intro c hc
        rcases List.mem_append.1 hc with hc | hc
        · exact hkeeps c hc
        · cases List.mem_singleton.1 hc
          trivial
      · have hmem := List.mem_of_getElem? hc
        obtain ⟨time, hhas⟩ := read_eq_ok_iff.1 hread
        -- The target still holds the text, so the stager finds nothing to do.
        have hnow : S.site.disk.read target = .ok c.content := by
          rw [hcontent c hmem]
          exact read_eq_ok_iff.2 ⟨time, hhas.of_same hsound.here hsound.stays hfile⟩
        obtain ⟨hkeeps', hsame⟩ := ht.keeps hnow (hkeeps c hmem)
        rw [place_of_here hsound.here] at hsame
        refine ⟨hsame.trans hfile, ?_⟩
        intro c₁ hc₁
        rcases List.mem_or_eq_of_mem_set hc₁ with hold | rfl
        · exact hkeeps c₁ hold
        · exact hkeeps'

end Shows

/-! ## What calls can rely on -/

/-- What holds in a run from the site `s` on that ends in the state `R`. -/
structure Atomic (target : Path) (s : Site τ) (moves : List Move) (R : State τ) : Prop where
  /-- At each moment the target is as it was, or holds all of a text that is being staged. -/
  whole : ∀ before Q, At target s moves before Q →
    (Q.site.disk.file? (s.disk.place target) = s.disk.file? (s.disk.place target) ∧
      ∀ t, s.disk.read target = .ok t → Q.site.disk.read target = .ok t) ∨
    ∃ c ∈ Q.stagers, Q.site.disk.read target = .ok c.content
  /-- No directory comes to stand where the target is, unless it is one that leads there. -/
  clear : s.disk.isDirectoryAt (s.disk.place target) = false →
    (¬Site.OnWayTo s.disk target (s.disk.place target) ∨
      ∃ c ∈ R.stagers, c.phase.changed?.isSome = true) →
    ∀ before Q, At target s moves before Q → Q.site.disk.isDirectoryAt (s.disk.place target) = false
  /-- Each call returns after six turns, if no step of it fails. -/
  returns : ∀ (i : Nat) (c : Stager), R.stagers[i]? = some c → c.phase.isFailed = false →
    moves.count (.turn i) + c.phase.left = 6 ∧
      ((move? target R (.turn i)).isSome = true ∨
        ∃ temporary changed, c.phase = .done temporary changed)
  /-- At some moment of the call the target has held its text. -/
  seen : ∀ (i : Nat) (c : Stager), R.stagers[i]? = some c → c.phase.changed?.isSome = true →
    ∃ before Q, At target s moves before Q ∧
      (∃ c', Q.stagers[i]? = some c' ∧ c'.phase.left ≠ 0) ∧ Q.site.disk.read target = .ok c.content
  /-- A call that says that the target did not change has not replaced it. -/
  kept : ∀ (i : Nat) (c : Stager), R.stagers[i]? = some c → c.phase.changed? = some false →
    ∀ before Q Q', At target s moves before Q → At target s moves (before ++ [.turn i]) Q' →
      Q'.site.disk.file? (s.disk.place target) = Q.site.disk.file? (s.disk.place target)
  /-- No temporary file of a call that has returned is there. -/
  gone : ∀ c ∈ R.stagers, ∀ temporary changed, c.phase = .done temporary changed →
    R.site.disk.file? (R.site.disk.place temporary) = none
  /-- Where all stage what the target holds already, it keeps its time, and all say so. -/
  still : ∀ t, s.disk.read target = .ok t → (∀ c ∈ R.stagers, c.content = t) →
    (∀ before Q, At target s moves before Q →
      Q.site.disk.file? (s.disk.place target) = s.disk.file? (s.disk.place target)) ∧
    ∀ c ∈ R.stagers, ∀ temporary changed, c.phase = .done temporary changed → changed = false

section Atomic

variable {target : Path} {s : Site τ} {R : State τ} {moves : List Move}

theorem knows_of_settled {phase : Phase} (h : phase.changed?.isSome = true) : Knows phase := by
  cases phase with
  | returns temporary changed => trivial
  | done temporary changed => trivial
  | _ => cases h

theorem whole_at {Q : State τ} {before : List Move} (h : At target s moves before Q) :
    (Q.site.disk.file? (s.disk.place target) = s.disk.file? (s.disk.place target) ∧
      ∀ t, s.disk.read target = .ok t → Q.site.disk.read target = .ok t) ∨
    ∃ c ∈ Q.stagers, Q.site.disk.read target = .ok c.content := by
  have hsound := h.sound
  rcases hsound.whole with hsame | ⟨c, hc, time, hhas⟩
  · refine .inl ⟨hsame, ?_⟩
    intro t hread
    obtain ⟨time, hhas⟩ := read_eq_ok_iff.1 hread
    exact read_eq_ok_iff.2 ⟨time, hhas.of_same hsound.here hsound.stays hsame⟩
  · exact .inr ⟨c, hc, read_eq_ok_iff.2 ⟨time, hhas⟩⟩

/-- What has been seen at the target is a file, and no directory takes its place. -/
theorem clear_at {Q : State τ} {before : List Move}
    (hrun : run target ⟨s, []⟩ moves = some R)
    (hstart : s.disk.isDirectoryAt (s.disk.place target) = false)
    (hway : ¬Site.OnWayTo s.disk target (s.disk.place target) ∨
      ∃ c ∈ R.stagers, c.phase.changed?.isSome = true)
    (h : At target s moves before Q) : Q.site.disk.isDirectoryAt (s.disk.place target) = false := by
  have hroot : s.disk.place target ≠ [] := by
    intro hplace
    rw [hplace] at hstart
    cases hstart
  rcases hway with hway | ⟨c, hc, hsettled⟩
  · by_contra hdirectory
    rw [Bool.not_eq_false] at hdirectory
    rcases h.sound.made _ hdirectory with hbefore | hmade
    · rw [hstart] at hbefore
      cases hbefore
    · exact hway hmade
  · obtain ⟨i, hi⟩ := List.mem_iff_getElem?.1 hc
    obtain ⟨before', Q', hat, -, hread⟩ := exists_seen hrun hi (knows_of_settled hsettled)
    obtain ⟨time, hhas⟩ := read_eq_ok_iff.1 hread
    have hfile := hhas.file?
    rw [place_of_here hat.sound.here] at hfile
    -- Before that moment a directory would still be there, and afterwards the file is.
    rcases List.prefix_or_prefix_of_prefix h.1 hat.1 with hearlier | hlater
    · by_contra hdirectory
      rw [Bool.not_eq_false] at hdirectory
      have hstays := (At.later ⟨hearlier, h.2⟩ hat.2).stays _ hdirectory
      rw [not_isDirectoryAt_of_file? hfile hroot] at hstays
      cases hstays
    · have hpresent := (At.later ⟨hlater, hat.2⟩ h.2).present
      rw [place_of_here hat.sound.here, hfile] at hpresent
      obtain ⟨file, hthere⟩ := Option.isSome_iff_exists.1 (hpresent rfl)
      exact not_isDirectoryAt_of_file? hthere hroot

theorem returns_of_run (hrun : run target ⟨s, []⟩ moves = some R) {i : Nat} {c : Stager}
    (hc : R.stagers[i]? = some c) (hgood : c.phase.isFailed = false) :
    moves.count (.turn i) + c.phase.left = 6 ∧
      ((move? target R (.turn i)).isSome = true ∨
        ∃ temporary changed, c.phase = .done temporary changed) := by
  have hcount := turns_count hrun i
  rw [hc] at hcount
  refine ⟨hcount hgood, ?_⟩
  by_cases hleft : c.phase.left = 0
  · refine .inr ?_
    cases hphase : c.phase with
    | done temporary changed => exact ⟨temporary, changed, rfl⟩
    | failed e =>
        rw [hphase] at hgood
        cases hgood
    | _ =>
        rw [hphase] at hleft
        cases hleft
  · refine .inl ?_
    simp only [move?, hc, if_neg hleft, Option.isSome_some]

/-- Only who says that the target changed has replaced it. -/
theorem kept_by_turn (hrun : run target ⟨s, []⟩ moves = some R) {i : Nat} {c : Stager}
    (hc : R.stagers[i]? = some c) (hfalse : c.phase.changed? = some false) {before : List Move}
    {Q Q' : State τ} (h : At target s moves before Q)
    (h' : At target s moves (before ++ [.turn i]) Q') :
    Q'.site.disk.file? (s.disk.place target) = Q.site.disk.file? (s.disk.place target) := by
  obtain ⟨S, hbefore, hmove⟩ := run_concat_eq_some.1 h'.2
  cases hbefore.symm.trans h.2
  rcases h.sound.move_cases hmove with ⟨content, hcall, -⟩ | ⟨j, c₁, c', s', hturn, hc₁, -, rfl, ht⟩
  · cases hcall
  · cases hturn
    have hwhole := ht.whole
    rw [place_of_here h.sound.here] at hwhole
    rcases hwhole with hsame | ⟨htrue, -⟩
    · exact hsame
    · have hnow : (Q.stagers.set i c')[i]? = some c' :=
        List.getElem?_set_self (List.getElem?_eq_some_iff.1 hc₁).1
      obtain ⟨c'', hc'', -, hsettled⟩ := (h'.later hrun).stager i c' hnow
      cases hc''.symm.trans hc
      rw [hsettled true htrue] at hfalse
      cases hfalse

/--
Those who stage texts under one path do not disturb each other, whatever turns they take.  A call by
itself is staging (`Site.stage`).
-/
theorem staging_is_atomic (target : Path) (s : Site τ) :
    (∀ content, ∃ phase,
      (fun x : Phase × Site τ => advance target content x.2 x.1)^[6] (.prepares, s) =
        (phase, (s.stage target content).1) ∧ Says (s.stage target content).2 phase) ∧
    ∀ moves R, run target ⟨s, []⟩ moves = some R → Atomic target s moves R := by
  refine ⟨fun content => alone target content s, ?_⟩
  intro moves R hrun
  have hsound := sound_of_run hrun
  exact {
    whole := fun before Q h => whole_at h
    clear := fun hstart hway before Q h => clear_at hrun hstart hway h
    returns := fun i c hc hgood => returns_of_run hrun hc hgood
    seen := fun i c hc hsettled => exists_seen hrun hc (knows_of_settled hsettled)
    kept := fun i c hc hfalse before Q Q' h h' => kept_by_turn hrun hc hfalse h h'
    gone := by
      intro c hc temporary changed hdone
      obtain ⟨i, hi⟩ := List.mem_iff_getElem?.1 hc
      have hfits := hsound.fits i c hi
      rw [Fits, hdone] at hfits
      exact hfits
    still := by
      intro t hread hall
      refine ⟨?_, ?_⟩
      · intro before Q h
        refine (still hread h.2 ?_).1
        intro c hc
        obtain ⟨i, hi⟩ := List.mem_iff_getElem?.1 hc
        obtain ⟨c', hc', hsame, -⟩ := (h.later hrun).stager i c hi
        exact hsame.symm.trans (hall c' (List.mem_of_getElem? hc'))
      · intro c hc temporary changed hdone
        have hkeeps := (still hread hrun hall).2 c hc
        rw [hdone] at hkeeps
        exact hkeeps }

/-- A site where a file `t` holds `x`. -/
def oneFile : Site Unit where
  disk := { nodes := [(["t".toList], .file (.text "x".toList) 0)], clock := 1, here := [] }
  process := 7
  memory := ()

/--
One stager finds its own text at the target, and another puts a different one there before the first
has taken its own temporary file away.
-/
def crossed : List Move :=
  [.call "x".toList, .turn 0, .turn 0, .turn 0, .call "y".toList, .turn 1, .turn 1, .turn 1,
    .turn 0, .turn 1, .turn 1, .turn 0, .turn 1, .turn 0]

theorem isSome_run_crossed : (run "t".toList ⟨oneFile, []⟩ crossed).isSome = true := by
  decide +kernel

theorem staging_is_atomic_crossed : ∃ R, run "t".toList ⟨oneFile, []⟩ crossed = some R ∧
    R.stagers = [⟨"x".toList, .done "t.7.0.tmp".toList false⟩,
      ⟨"y".toList, .done "t.7.1.tmp".toList true⟩] ∧
    R.site.disk.read "t".toList = .ok "y".toList ∧ Atomic "t".toList oneFile crossed R := by
  have hrun := (Option.some_get isSome_run_crossed).symm
  refine ⟨_, hrun, ?_, ?_, (staging_is_atomic "t".toList oneFile).2 crossed _ hrun⟩
  · decide +kernel
  · decide +kernel

end Atomic

end Staging
end OnDemand
