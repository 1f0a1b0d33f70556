import OnDemand.Proofs.Native.Temporaries

/-!
# Staging side by side

To stage a text takes several steps, between which others who stage texts under the same path take
theirs.  One stager by itself does what `Site.stage` does (`Staging.alone`).  What one turn does is
said once, of all turns (`Staging.Turned`); `OnDemand.Proofs.Native.Atomicity` has what comes of it.
-/

namespace OnDemand

open Disk

namespace Staging

variable {τ : Type}

/-! ## Stagers -/

/-- Where a stager stands. -/
inductive Phase where
  /-- About to make the directories that lead to the target. -/
  | prepares
  /-- About to choose a temporary name. -/
  | drafts
  /-- About to write the text under the temporary name. -/
  | writes (temporary : Path)
  /-- About to see whether the target holds the text already. -/
  | compares (temporary : Path)
  /-- About to remove the temporary file, or to move it into place. -/
  | settles (temporary : Path) (same : Bool)
  /-- About to say whether the target changed. -/
  | returns (temporary : Path) (changed : Bool)
  | done (temporary : Path) (changed : Bool)
  | failed (e : BuildError)
  deriving DecidableEq

namespace Phase

/-- The temporary name that has been chosen. -/
def temporary? : Phase → Option Path
  | writes temporary | compares temporary | settles temporary _ | returns temporary _
  | done temporary _ => some temporary
  | prepares | drafts | failed _ => none

/-- Whether the target changed, when that is settled. -/
def changed? : Phase → Option Bool
  | returns _ changed | done _ changed => some changed
  | _ => none

/-- How many turns there are to take if none fails. -/
def left : Phase → Nat
  | prepares => 6
  | drafts => 5
  | writes _ => 4
  | compares _ => 3
  | settles .. => 2
  | returns .. => 1
  | done .. | failed _ => 0

/-- Whether a step has failed. -/
def isFailed : Phase → Bool
  | failed _ => true
  | _ => false

end Phase

/-- Who stages a text. -/
structure Stager where
  content : Text
  phase : Phase
  deriving DecidableEq

/-- Who is called to stage a text. -/
def Stager.start (content : Text) : Stager := ⟨content, .prepares⟩

/-- The next phase of a stager, and the site after the step. -/
def advance (target : Path) (content : Text) (s : Site τ) : Phase → Phase × Site τ
  | .prepares =>
    match s.prepare target with
    | (s, .ok ()) => (.drafts, s)
    | (s, .error e) => (.failed e, s)
  | .drafts =>
    let (s, temporary) := s.temporary target "tmp".toList
    (.writes temporary, s)
  | .writes temporary =>
    match s.draft temporary content with
    | (s, .ok ()) => (.compares temporary, s)
    | (s, .error e) => (.failed e, s)
  | .compares temporary => (.settles temporary (s.disk.holds target content), s)
  | .settles temporary same =>
    match s.settle temporary target same with
    | (s, .ok changed) => (.returns temporary changed, s)
    | (s, .error e) => (.failed e, s)
  | .returns temporary changed => (.done temporary changed, s)
  | .done temporary changed => (.done temporary changed, s)
  | .failed e => (.failed e, s)

/-- The phase says what has come of staging. -/
def Says (result : Except BuildError Bool) : Phase → Prop
  | .done _ changed => result = .ok changed
  | .failed e => result = .error e
  | _ => False

/-- A stager by itself does what staging does. -/
theorem alone (target : Path) (content : Text) (s : Site τ) :
    ∃ phase, (fun x : Phase × Site τ => advance target content x.2 x.1)^[6] (.prepares, s) =
      (phase, (s.stage target content).1) ∧ Says (s.stage target content).2 phase := by
  -- Four calls may fail, one after another; what each answers decides whether the next is made, and
  -- staging in one go makes the same calls.
  simp only [Function.iterate_succ_apply, Function.iterate_zero, id]
  cases hprepare : s.prepare target with
  | mk s₁ result =>
      cases result with
      | error e =>
          simp only [advance, Site.stage, hprepare]
          exact ⟨_, rfl, rfl⟩
      | ok done =>
          cases htemporary : s₁.temporary target "tmp".toList with
          | mk s₂ temporary =>
              cases hdraft : s₂.draft temporary content with
              | mk s₃ result =>
                  cases result with
                  | error e =>
                      simp only [advance, Site.stage, hprepare, htemporary, hdraft]
                      exact ⟨_, rfl, rfl⟩
                  | ok done =>
                      cases hsettle : s₃.settle temporary target (s₃.disk.holds target content) with
                      | mk s₄ result =>
                          cases result with
                          | error e =>
                              simp only [advance, Site.stage, hprepare, htemporary, hdraft, hsettle]
                              exact ⟨_, rfl, rfl⟩
                          | ok changed =>
                              simp only [advance, Site.stage, hprepare, htemporary, hdraft, hsettle]
                              exact ⟨_, rfl, rfl⟩

/-! ## Runs -/

/-- A site and those who stage texts there, under one path. -/
structure State (τ : Type) where
  site : Site τ
  stagers : List Stager := []

/-- What happens next. -/
inductive Move where
  /-- A text is to be staged. -/
  | call (content : Text)
  /-- A stager takes a turn. -/
  | turn (i : Nat)
  deriving DecidableEq

/-- The state after a move, if it can be made. -/
def move? (target : Path) (S : State τ) : Move → Option (State τ)
  | .call content => some { S with stagers := S.stagers ++ [.start content] }
  | .turn i =>
    match S.stagers[i]? with
    | none => none
    | some c =>
      if c.phase.left = 0 then none
      else
        let (phase, site) := advance target c.content S.site c.phase
        some { site, stagers := S.stagers.set i { c with phase } }

/-- The state after the moves, if they can be made one after another. -/
def run (target : Path) (S : State τ) (moves : List Move) : Option (State τ) :=
  moves.foldlM (move? target) S

section Runs

variable {target : Path} {S S' R : State τ} {moves : List Move}

theorem run_concat (target : Path) (S : State τ) (moves : List Move) (m : Move) :
    run target S (moves ++ [m]) = (run target S moves).bind fun S' => move? target S' m := by
  rw [run, List.foldlM_append]
  cases h : List.foldlM (move? target) S moves with
  | none => simp [run, h]
  | some S' => simp [run, h]

theorem run_concat_eq_some {m : Move} :
    run target S (moves ++ [m]) = some R ↔
      ∃ S', run target S moves = some S' ∧ move? target S' m = some R := by
  rw [run_concat, Option.bind_eq_some_iff]

theorem run_append_eq_some {more : List Move} :
    run target S (moves ++ more) = some R ↔
      ∃ S', run target S moves = some S' ∧ run target S' more = some R := by
  rw [run, List.foldlM_append]
  exact Option.bind_eq_some_iff

/-- A move is a call, or the turn of a stager who is not done. -/
theorem move?_eq_some {m : Move} (h : move? target S m = some R) :
    (∃ content, m = .call content ∧ R = { S with stagers := S.stagers ++ [.start content] }) ∨
      ∃ i c, m = .turn i ∧ S.stagers[i]? = some c ∧ c.phase.left ≠ 0 ∧
        R = { site := (advance target c.content S.site c.phase).2
              stagers := S.stagers.set i
                { c with phase := (advance target c.content S.site c.phase).1 } } := by
  cases m with
  | call content =>
      cases h
      exact .inl ⟨content, rfl, rfl⟩
  | turn i =>
      rw [move?] at h
      split at h
      next => cases h
      next c hc =>
          split at h
          next => cases h
          next hleft =>
              cases h
              exact .inr ⟨i, c, rfl, hc, hleft, rfl⟩

end Runs

/-! ## Turns -/

/-- What is known of the disk while a stager is in its phase. -/
def Fits (d : Disk) (c : Stager) : Prop :=
  match c.phase with
  | .compares temporary | .settles temporary _ => ∃ time, d.Has temporary (.text c.content) time
  | .returns temporary _ | .done temporary _ => d.file? (d.place temporary) = none
  | _ => True

/-- The target has been seen to hold the text, or it has been put there. -/
def Knows : Phase → Prop
  | .settles _ same => same = true
  | .returns .. | .done .. => True
  | _ => False

/-- The target has not been changed, and will not be. -/
def Keeps : Phase → Prop
  | .settles _ same => same = true
  | .returns _ changed | .done _ changed => changed = false
  | _ => True

/-- Places that a stager touches. -/
def Near (target : Path) (d : Disk) (c : Stager) (q : Place) : Prop :=
  (∃ temporary, c.phase.temporary? = some temporary ∧ q = d.place temporary) ∨ q = d.place target

/-- What a turn does that makes a stager `c'` of the stager `c`. -/
structure Turned (target : Path) (s s' : Site τ) (c c' : Stager) : Prop where
  content : c'.content = c.content
  process : s'.process = s.process
  serial : s.serial ≤ s'.serial
  alters : Alters (Near target s.disk c) (Site.OnWayTo s.disk target) s.disk s'.disk
  /-- A temporary name is kept, or chosen once for all. -/
  named : ∀ temporary, c'.phase.temporary? = some temporary →
    c.phase.temporary? = some temporary ∨
      temporary = target ++ Site.ending s.process s.serial "tmp".toList ∧ s.serial < s'.serial
  fits : Fits s'.disk c'
  /-- The target is replaced by all of the text, and only by who says so. -/
  whole : s'.disk.file? (s.disk.place target) = s.disk.file? (s.disk.place target) ∨
    c'.phase.changed? = some true ∧ ∃ time, s'.disk.Has target (.text c.content) time
  goes : c'.phase.isFailed = true ∨ c'.phase.left + 1 = c.phase.left
  settled : ∀ changed, c.phase.changed? = some changed → c'.phase.changed? = some changed
  knows : Knows c'.phase → Knows c.phase ∨ s.disk.read target = .ok c.content ∨
    s'.disk.read target = .ok c.content ∧ c'.phase.left ≠ 0
  keeps : s.disk.read target = .ok c.content → Keeps c.phase → Keeps c'.phase ∧
    s'.disk.file? (s.disk.place target) = s.disk.file? (s.disk.place target)

section Turns

variable {target : Path} {s : Site τ} {content : Text} {phase : Phase} {temporary : Path}

/-- The turn that a stager takes in a phase is as it should be. -/
def Goes (target : Path) (content : Text) (s : Site τ) (phase : Phase) : Prop :=
  Turned target s (advance target content s phase).2 ⟨content, phase⟩
    ⟨content, (advance target content s phase).1⟩

theorem goes_of_advance {s' : Site τ} {phase' : Phase}
    (h : advance target content s phase = (phase', s'))
    (hturned : Turned target s s' ⟨content, phase⟩ ⟨content, phase'⟩) :
    Goes target content s phase := by
  rw [Goes, h]
  exact hturned

/-- A turn that fails, and touches no file. -/
theorem turned_failed {disk : Disk} {e : BuildError}
    (halters : Alters Nowhere (Site.OnWayTo s.disk target) s.disk disk)
    (hsettled : phase.changed? = none) :
    Turned target s { s with disk } ⟨content, phase⟩ ⟨content, .failed e⟩ where
  content := rfl
  process := rfl
  serial := Nat.le_refl _
  alters := halters.mono (fun _ => False.elim) fun _ => id
  named := by
    rintro temporary ⟨⟩
  fits := trivial
  whole := .inl (halters.file _ id)
  goes := .inl rfl
  settled := by
    intro changed hchanged
    rw [hsettled] at hchanged
    cases hchanged
  knows := False.elim
  keeps := fun _ _ => ⟨trivial, halters.file _ id⟩

theorem goes_prepares : Goes target content s .prepares := by
  obtain ⟨disk, halters, hok | ⟨dir, message, -, herror⟩⟩ := s.prepare_cases target
  · have hadvance : advance target content s .prepares = (.drafts, { s with disk }) := by
      simp only [advance, hok]
    refine goes_of_advance hadvance ?_
    exact {
      content := rfl
      process := rfl
      serial := Nat.le_refl _
      alters := halters.mono (fun _ => False.elim) fun _ => id
      named := by
        rintro temporary ⟨⟩
      fits := trivial
      whole := .inl (halters.file _ id)
      goes := .inr rfl
      settled := by
        rintro changed ⟨⟩
      knows := False.elim
      keeps := fun _ _ => ⟨trivial, halters.file _ id⟩ }
  · have hadvance : advance target content s .prepares =
        (.failed (.io dir message), { s with disk }) := by
      simp only [advance, herror]
    exact goes_of_advance hadvance (turned_failed halters rfl)

theorem goes_drafts : Goes target content s .drafts := by
  refine goes_of_advance rfl ?_
  exact {
    content := rfl
    process := rfl
    serial := Nat.le_succ _
    alters := Alters.refl _ _ _
    named := by
      rintro temporary ⟨⟩
      exact .inr ⟨rfl, Nat.lt_succ_self _⟩
    fits := trivial
    whole := .inl rfl
    goes := .inr rfl
    settled := by
      rintro changed ⟨⟩
    knows := False.elim
    keeps := fun _ _ => ⟨trivial, rfl⟩ }

section Temporary

variable (hne : s.disk.place temporary ≠ s.disk.place target)

include hne

theorem goes_writes : Goes target content s (.writes temporary) := by
  rcases s.draft_cases temporary content with
    ⟨message, herror⟩ | ⟨disk, time, hok, halters, hhas⟩
  · have hadvance : advance target content s (.writes temporary) =
        (.failed (.io temporary message), s) := by
      simp only [advance, herror]
    exact goes_of_advance hadvance (turned_failed (Alters.refl _ _ _) rfl)
  · have hadvance : advance target content s (.writes temporary) =
        (.compares temporary, { s with disk }) := by
      simp only [advance, hok]
    refine goes_of_advance hadvance ?_
    exact {
      content := rfl
      process := rfl
      serial := Nat.le_refl _
      alters := halters.mono (fun q hq => .inl ⟨temporary, rfl, hq⟩) fun _ => False.elim
      named := fun temporary htemporary => .inl htemporary
      fits := ⟨time, hhas⟩
      whole := .inl (halters.file _ (Ne.symm hne))
      goes := .inr rfl
      settled := by
        rintro changed ⟨⟩
      knows := False.elim
      keeps := fun _ _ => ⟨trivial, halters.file _ (Ne.symm hne)⟩ }

omit hne in
theorem goes_compares (hfits : Fits s.disk ⟨content, .compares temporary⟩) :
    Goes target content s (.compares temporary) := by
  refine goes_of_advance rfl ?_
  exact {
    content := rfl
    process := rfl
    serial := Nat.le_refl _
    alters := Alters.refl _ _ _
    named := fun temporary htemporary => .inl htemporary
    fits := hfits
    whole := .inl rfl
    goes := .inr rfl
    settled := by
      rintro changed ⟨⟩
    knows := fun hsame => .inr (.inl (holds_iff.1 hsame))
    keeps := fun hread _ => ⟨holds_iff.2 hread, rfl⟩ }

/-- The target holds the text, and the temporary file is removed. -/
theorem goes_settles_same : Goes target content s (.settles temporary true) := by
  rcases s.discard_cases temporary with ⟨message, herror, -⟩ | ⟨disk, hok, halters, hgone⟩
  · have hadvance : advance target content s (.settles temporary true) =
        (.failed (.io temporary message), s) := by
      simp only [advance, Site.settle, if_pos, herror]
    exact goes_of_advance hadvance (turned_failed (Alters.refl _ _ _) rfl)
  · have hadvance : advance target content s (.settles temporary true) =
        (.returns temporary false, { s with disk }) := by
      simp only [advance, Site.settle, if_pos, hok]
    rw [← halters.place_eq] at hgone
    refine goes_of_advance hadvance ?_
    exact {
      content := rfl
      process := rfl
      serial := Nat.le_refl _
      alters := halters.mono (fun q hq => .inl ⟨temporary, rfl, hq⟩) fun _ => False.elim
      named := fun temporary htemporary => .inl htemporary
      fits := hgone
      whole := .inl (halters.file _ (Ne.symm hne))
      goes := .inr rfl
      settled := by
        rintro changed ⟨⟩
      knows := fun _ => .inl rfl
      keeps := fun _ _ => ⟨rfl, halters.file _ (Ne.symm hne)⟩ }

/-- The temporary file takes the place of the target. -/
theorem goes_settles_other (hfits : Fits s.disk ⟨content, .settles temporary false⟩) :
    Goes target content s (.settles temporary false) := by
  rcases s.publish_cases hne with ⟨message, herror⟩ | ⟨disk, hok, halters, hgone, hmoved⟩
  · have hadvance : advance target content s (.settles temporary false) =
        (.failed (.io target message), s) := by
      simp [advance, Site.settle, herror]
    exact goes_of_advance hadvance (turned_failed (Alters.refl _ _ _) rfl)
  · have hadvance : advance target content s (.settles temporary false) =
        (.returns temporary true, { s with disk }) := by
      simp [advance, Site.settle, hok]
    obtain ⟨time, hdraft⟩ := hfits
    have htarget := hmoved _ time hdraft
    rw [← halters.place_eq] at hgone
    refine goes_of_advance hadvance ?_
    exact {
      content := rfl
      process := rfl
      serial := Nat.le_refl _
      alters := halters.mono (fun q hq => hq.imp_left fun hq => ⟨temporary, rfl, hq⟩)
        fun _ => False.elim
      named := fun temporary htemporary => .inl htemporary
      fits := hgone
      whole := .inr ⟨rfl, time, htarget⟩
      goes := .inr rfl
      settled := by
        rintro changed ⟨⟩
      knows := fun _ => .inr (.inr ⟨read_eq_ok_iff.2 ⟨time, htarget⟩, by simp [Phase.left]⟩)
      keeps := by
        rintro - ⟨⟩ }

end Temporary

theorem goes_returns {changed : Bool} (hfits : Fits s.disk ⟨content, .returns temporary changed⟩) :
    Goes target content s (.returns temporary changed) := by
  refine goes_of_advance rfl ?_
  exact {
    content := rfl
    process := rfl
    serial := Nat.le_refl _
    alters := Alters.refl _ _ _
    named := fun temporary htemporary => .inl htemporary
    fits := hfits
    whole := .inl rfl
    goes := .inr rfl
    settled := fun changed hchanged => hchanged
    knows := fun _ => .inl trivial
    keeps := fun _ hkeeps => ⟨hkeeps, rfl⟩ }

/-- Whatever turn a stager takes, it is as it should be. -/
theorem goes {c : Stager} (hleft : c.phase.left ≠ 0) (hfits : Fits s.disk c)
    (hne : ∀ temporary, c.phase.temporary? = some temporary →
      s.disk.place temporary ≠ s.disk.place target) : Goes target c.content s c.phase := by
  obtain ⟨content, phase⟩ := c
  cases phase with
  | prepares => exact goes_prepares
  | drafts => exact goes_drafts
  | writes temporary => exact goes_writes (hne temporary rfl)
  | compares temporary => exact goes_compares hfits
  | settles temporary same =>
      cases same with
      | true => exact goes_settles_same (hne temporary rfl)
      | false => exact goes_settles_other (hne temporary rfl) hfits
  | returns temporary changed => exact goes_returns hfits
  | done temporary changed => exact absurd rfl hleft
  | failed e => exact absurd rfl hleft

end Turns

end Staging
end OnDemand
