import OnDemand.Proofs.Native.Plant

/-!
# The turns of a worker

What is known of the disk when a worker is in a phase (`Fits`), and what a turn does (`Advances`).
All of it is about the source and the library of the module and the times of the two: whoever else
works at the plant touches neither as long as the worker holds the lock.
-/

namespace OnDemand

open Plugin

/-! ## Sources and libraries -/

section Module

variable {τ : Type} {IsBuilt : Text → Content → Prop} {b : Builder τ} {d d' : Disk}
  {m m' : GeneratedModule} {files directories : Place → Prop}

/-- The library is no older than the source. -/
def Warm (b : Builder τ) (d : Disk) (m : GeneratedModule) : Prop :=
  ∃ source time library time', d.file? (d.place (b.source m)) = some (source, time) ∧
    d.file? (d.place (b.library m)) = some (library, time') ∧ time ≤ time'

/-- A library that is no older than the source has been built from what the source holds. -/
def Fresh (IsBuilt : Text → Content → Prop) (b : Builder τ) (d : Disk) (m : GeneratedModule) :
    Prop :=
  ∀ source time library time', d.file? (d.place (b.source m)) = some (source, time) →
    d.file? (d.place (b.library m)) = some (library, time') → time ≤ time' →
    ∃ text, source = .text text ∧ IsBuilt text library

/-- Places apart from the source and the library of a module, which a worker may touch. -/
def Aside (b : Builder τ) (d : Disk) (m : GeneratedModule) (q : Place) : Prop :=
  Spare b d q ∨ ∃ e, IsTemporary e ∧ q = d.place (b.file m e)

/-- Places that a worker may touch. -/
def Touched (b : Builder τ) (d : Disk) (m : GeneratedModule) (q : Place) : Prop :=
  Spare b d q ∨ ∃ e, IsEnding e ∧ q = d.place (b.file m e)

/-- Places at which a worker may make directories. -/
def Made (b : Builder τ) (d : Disk) (m : GeneratedModule) (q : Place) : Prop :=
  Aside b d m q ∨ ∃ p, OnWay b m p ∧ q = d.place p

theorem Aside.touched {q : Place} (h : Aside b d m q) : Touched b d m q := by
  rcases h with hspare | ⟨e, he, rfl⟩
  · exact .inl hspare
  · exact .inr ⟨e, he.toIsEnding, rfl⟩

theorem not_aside_source (hm : m.Placed) : ¬Aside b d m (d.place (b.source m)) := by
  rintro (hspare | ⟨e, he, heq⟩)
  · exact hspare m hm _ isEnding_source rfl
  · exact he.ne_source (file_inj hm hm isEnding_source he.toIsEnding heq).2.symm

theorem not_aside_library (hm : m.Placed) : ¬Aside b d m (d.place (b.library m)) := by
  rintro (hspare | ⟨e, he, heq⟩)
  · exact hspare m hm _ isEnding_library rfl
  · exact he.ne_library (file_inj hm hm isEnding_library he.toIsEnding heq).2.symm

/-- What a worker touches is not among the files of a module at another place. -/
theorem not_touched (hm : m.Placed) (hm' : m'.Placed) (hne : b.base m ≠ b.base m') {e : Text}
    (he : IsEnding e) : ¬Touched b d m (d.place (b.file m' e)) := by
  rintro (hspare | ⟨e', he', heq⟩)
  · exact hspare m' hm' e he rfl
  · exact hne (file_inj hm' hm he he' heq).1.symm

/-- No directory is made where there is room for a library. -/
theorem not_made_library (hdirect : b.IsDirect d) (hm : m.Placed) (hm' : m'.Placed) :
    ¬Made b d m (d.place (b.library m')) := by
  rintro ((hspare | ⟨e, he, heq⟩) | ⟨p, hp, heq⟩)
  · exact hspare m' hm' _ isEnding_library rfl
  · exact he.ne_library (file_inj hm' hm isEnding_library he.toIsEnding heq).2.symm
  · exact hp.ne_library hdirect hm hm' heq.symm

section Alter

variable (halters : Disk.Alters files directories d d')

include halters

theorem file?_of_alters {p : Path} (hp : ¬files (d.place p)) :
    d'.file? (d'.place p) = d.file? (d.place p) := by
  rw [halters.place_eq, halters.file _ hp]

theorem Warm.alters (hsource : ¬files (d.place (b.source m)))
    (hlibrary : ¬files (d.place (b.library m))) : Warm b d' m ↔ Warm b d m := by
  rw [Warm, Warm, file?_of_alters halters hsource, file?_of_alters halters hlibrary]

theorem Fresh.alters (h : Fresh IsBuilt b d m) (hsource : ¬files (d.place (b.source m)))
    (hlibrary : ¬files (d.place (b.library m))) : Fresh IsBuilt b d' m := by
  rw [Fresh, file?_of_alters halters hsource, file?_of_alters halters hlibrary]
  exact h

end Alter

/-- A source that is newer than the library, or without one, does not make the library warm. -/
theorem not_warm_of_newer {source : Content} {time : Nat} (hsource : d.Has (b.source m) source time)
    (hnewer : ∀ library time', d.file? (d.place (b.library m)) = some (library, time') →
      time' < time) : ¬Warm b d m := by
  rintro ⟨source', time', library, time'', hsource', hlibrary, hle⟩
  have heq := hsource.file?.symm.trans hsource'
  cases heq
  exact Nat.not_lt_of_le hle (hnewer library time'' hlibrary)

/-- Where there is a source, the path of the library leads to it, if there is one. -/
theorem has_library (hm : m.Placed) {source library : Content} {time time' : Nat}
    (hsource : d.Has (b.source m) source time)
    (hlibrary : d.file? (d.place (b.library m)) = some (library, time')) :
    d.Has (b.library m) library time' :=
  nodeAt_sibling hm isEnding_source isEnding_library (by decide) hsource hlibrary

/-! ## Phases -/

/-- The path is that of a temporary file of the module. -/
def Temporary (b : Builder τ) (m : GeneratedModule) (p : Path) : Prop :=
  ∃ e, IsTemporary e ∧ p = b.file m e

/-- The temporary file holds the source of the module, and is newer than the library. -/
def Drafted (b : Builder τ) (d : Disk) (m : GeneratedModule) (p : Path) : Prop :=
  Temporary b m p ∧ ∃ time, d.Has p (.text m.source) time ∧
    ∀ library time', d.file? (d.place (b.library m)) = some (library, time') → time' < time

/-- The source is in place. -/
def Sourced (b : Builder τ) (d : Disk) (m : GeneratedModule) : Prop :=
  ∃ time, d.Has (b.source m) (.text m.source) time

/-- The library is in place, and was built from the source of the module. -/
def Ready (IsBuilt : Text → Content → Prop) (b : Builder τ) (d : Disk) (m : GeneratedModule) :
    Prop :=
  ∃ library time, d.Has (b.library m) library time ∧ IsBuilt m.source library

/-- What is known of the disk when a worker is in a phase. -/
def Fits (IsBuilt : Text → Content → Prop) (b : Builder τ) (d : Disk) (m : GeneratedModule) :
    Worker.Phase → Prop
  | .waits | .drafts | .done _ => True
  | .climbs _ outer inner => ∀ p ∈ outer ++ inner, OnWay b m p
  | .probes _ _ _ inner | .descends _ inner => ∀ p ∈ inner, OnWay b m p
  | .writes temporary => Temporary b m temporary
  | .compares temporary => Drafted b d m temporary
  | .settles temporary same =>
    Drafted b d m temporary ∧ same = d.holds (b.source m) m.source
  | .examines => Sourced b d m
  | .weighs time => ∃ t, time = some t ∧ d.Has (b.source m) (.text m.source) t
  | .names => Sourced b d m ∧ ¬Warm b d m
  | .builds temporary => Temporary b m temporary ∧ Sourced b d m ∧ ¬Warm b d m
  | .discards temporary _ => Temporary b m temporary
  | .installs temporary => Temporary b m temporary ∧
    ∃ time library time', d.Has (b.source m) (.text m.source) time ∧
      d.Has temporary library time' ∧ IsBuilt m.source library ∧ time ≤ time'
  | .records | .loads => Ready IsBuilt b d m

/-- What holds of a disk between the turns of all workers, for modules that may be ordered. -/
structure Kept (IsBuilt : Text → Content → Prop) (b : Builder τ) (d : Disk) : Prop where
  timely : d.Timely
  direct : b.IsDirect d
  logs : b.LogsApart d
  fresh : ∀ m : GeneratedModule, m.Placed → Fresh IsBuilt b d m
  /-- There is no directory in the place of a library. -/
  clear : ∀ m : GeneratedModule, m.Placed → d.isDirectoryAt (d.place (b.library m)) = false

/-- What a turn does that leads a worker from one phase to another. -/
structure Advances (IsBuilt : Text → Content → Prop) (b : Builder τ) (m : GeneratedModule)
    (d d' : Disk) (phase phase' : Worker.Phase) : Prop where
  alters : Disk.Alters (Touched b d m) (Made b d m) d d'
  fits : Fits IsBuilt b d' m phase'
  fresh : Fresh IsBuilt b d' m
  /-- The source is replaced by another text only. -/
  settled : d.read (b.source m) = .ok m.source → d'.read (b.source m) = .ok m.source
  /-- As long as the source stays, a library that is warm, or about to be, is so afterwards. -/
  warm : d'.read (b.source m) = d.read (b.source m) →
    (Warm b d m ∨ ∃ temporary, phase = .installs temporary) →
    Warm b d' m ∨ ∃ temporary, phase' = .installs temporary

/-! ## Turns that touch neither the source nor the library -/

section Aside

variable {phase phase' : Worker.Phase} (hm : m.Placed)

include hm

/-- A turn that touches neither the source nor the library. -/
theorem advances_aside (halters : Disk.Alters (Aside b d m) (Made b d m) d d')
    (hfresh : Fresh IsBuilt b d m) (hphase : ∀ temporary, phase ≠ .installs temporary)
    (hfits : Fits IsBuilt b d' m phase') : Advances IsBuilt b m d d' phase phase' where
  alters := halters.mono (fun _ => Aside.touched) fun _ => id
  fits := hfits
  fresh := hfresh.alters halters (not_aside_source hm) (not_aside_library hm)
  settled := by
    rw [Disk.read_eq_ok_iff, Disk.read_eq_ok_iff]
    rintro ⟨time, hsource⟩
    exact ⟨time, hsource.alters halters (not_aside_source hm)⟩
  warm := by
    rintro - (hwarm | ⟨temporary, rfl⟩)
    · exact .inl ((Warm.alters halters (not_aside_source hm) (not_aside_library hm)).2 hwarm)
    · exact absurd rfl (hphase temporary)

end Aside

/-- The turn that a worker takes in a phase is as it should be. -/
def Goes (IsBuilt : Text → Content → Prop) (b : Builder τ) (m : GeneratedModule) (s : Site τ)
    (phase : Worker.Phase) : Prop :=
  Advances IsBuilt b m s.disk (Worker.advance b m s phase).2.disk phase
    (Worker.advance b m s phase).1

theorem goes_of_advance {s s' : Site τ} {phase phase' : Worker.Phase}
    (h : Worker.advance b m s phase = (phase', s'))
    (hadvances : Advances IsBuilt b m s.disk s'.disk phase phase') : Goes IsBuilt b m s phase := by
  rw [Goes, h]
  exact hadvances

section Phases

variable {s : Site τ} (hkept : Kept IsBuilt b s.disk) (hm : m.Placed)

include hkept hm

/-- A turn in which the worker only looks around. -/
theorem goes_still {s' : Site τ} {phase phase' : Worker.Phase}
    (h : Worker.advance b m s phase = (phase', s')) (hdisk : s'.disk = s.disk)
    (hphase : ∀ temporary, phase ≠ .installs temporary) (hfits : Fits IsBuilt b s.disk m phase') :
    Goes IsBuilt b m s phase := by
  refine goes_of_advance h ?_
  rw [hdisk]
  exact advances_aside hm (Disk.Alters.refl _ _ _) (hkept.fresh m hm) hphase hfits

/-- A turn in which a directory is made on the way. -/
theorem goes_makeDirectory {p : Path} (hp : OnWay b m p) {phase phase' : Worker.Phase}
    {disk : Disk} {result : Except Fault Unit} (hmake : s.disk.makeDirectory p = (disk, result))
    (h : Worker.advance b m s phase = (phase', { s with disk }))
    (hphase : ∀ temporary, phase ≠ .installs temporary) (hfits : Fits IsBuilt b disk m phase') :
    Goes IsBuilt b m s phase := by
  have halters := s.disk.alters_makeDirectory p
  rw [hmake] at halters
  refine goes_of_advance h (advances_aside hm (halters.mono ?_ ?_) (hkept.fresh m hm) hphase hfits)
  · rintro q ⟨⟩
  · rintro q rfl
    exact .inr ⟨p, hp, rfl⟩

/-- A turn in which a temporary file is touched. -/
theorem goes_temporary {s' : Site τ} {temporary : Path} (htemporary : Temporary b m temporary)
    {phase phase' : Worker.Phase} (h : Worker.advance b m s phase = (phase', s'))
    (halters : Disk.Alters (· = s.disk.place temporary) (· = s.disk.place temporary) s.disk s'.disk)
    (hphase : ∀ temporary, phase ≠ .installs temporary) (hfits : Fits IsBuilt b s'.disk m phase') :
    Goes IsBuilt b m s phase := by
  obtain ⟨e, he, rfl⟩ := htemporary
  refine goes_of_advance h (advances_aside hm (halters.mono ?_ ?_) (hkept.fresh m hm) hphase hfits)
  · rintro q rfl
    exact .inr ⟨e, he, rfl⟩
  · rintro q rfl
    exact .inl (.inr ⟨e, he, rfl⟩)

/-- A turn in which no file of a module is touched. -/
theorem goes_spare {s' : Site τ} {phase phase' : Worker.Phase}
    (h : Worker.advance b m s phase = (phase', s'))
    (halters : Disk.Alters (Spare b s.disk) (Spare b s.disk) s.disk s'.disk)
    (hphase : ∀ temporary, phase ≠ .installs temporary) (hfits : Fits IsBuilt b s'.disk m phase') :
    Goes IsBuilt b m s phase :=
  goes_of_advance h (advances_aside hm (halters.mono (fun _ => .inl) fun _ hq => .inl (.inl hq))
    (hkept.fresh m hm) hphase hfits)

theorem goes_waits : Goes IsBuilt b m s .waits := by
  cases hdir : Path.parent? (b.source m) with
  | none =>
      have hadvance : Worker.advance b m s .waits = (.drafts, s) := by
        simp only [Worker.advance, hdir]
      exact goes_still hkept hm hadvance rfl (by simp) trivial
  | some dir =>
      have hadvance : Worker.advance b m s .waits = (.climbs dir (Disk.ancestors dir) [], s) := by
        simp only [Worker.advance, hdir]
      refine goes_still hkept hm hadvance rfl (by simp) ?_
      intro p hp
      rw [List.append_nil] at hp
      exact onWay_ancestors hdir hp

theorem goes_climbs {wanted : Path} {outer inner : List Path}
    (hfits : Fits IsBuilt b s.disk m (.climbs wanted outer inner)) :
    Goes IsBuilt b m s (.climbs wanted outer inner) := by
  have hinner : ∀ p ∈ inner, OnWay b m p := fun p hp => hfits p (List.mem_append_right _ hp)
  cases outer with
  | nil => exact goes_still hkept hm rfl rfl (by simp) hinner
  | cons p outer =>
      have hp : OnWay b m p := hfits p (by simp)
      cases hmake : s.disk.makeDirectory p with
      | mk disk result =>
          cases result with
          | ok done =>
              have hadvance : Worker.advance b m s (.climbs wanted (p :: outer) inner) =
                  (.descends wanted inner, { s with disk }) := by
                simp only [Worker.advance, hmake]
              exact goes_makeDirectory hkept hm hp hmake hadvance (by simp) hinner
          | error fault =>
              by_cases hfault : fault = .notFound
              · -- The directory is put aside for the way back; it is on the way to the source
                -- still.
                subst hfault
                have hadvance : Worker.advance b m s (.climbs wanted (p :: outer) inner) =
                    (.climbs wanted outer (p :: inner), { s with disk }) := by
                  simp only [Worker.advance, hmake]
                refine goes_makeDirectory hkept hm hp hmake hadvance (by simp) ?_
                intro q hq
                refine hfits q ?_
                simp only [List.mem_append, List.mem_cons] at hq ⊢
                tauto
              · have hadvance : Worker.advance b m s (.climbs wanted (p :: outer) inner) =
                    (.probes wanted fault p inner, { s with disk }) := by
                  cases fault with
                  | notFound => exact absurd rfl hfault
                  | _ => simp only [Worker.advance, hmake]
                exact goes_makeDirectory hkept hm hp hmake hadvance (by simp) hinner

theorem goes_probes {wanted p : Path} {fault : Fault} {inner : List Path}
    (hfits : Fits IsBuilt b s.disk m (.probes wanted fault p inner)) :
    Goes IsBuilt b m s (.probes wanted fault p inner) := by
  by_cases hp : s.disk.isDirectory p = true
  · have hadvance : Worker.advance b m s (.probes wanted fault p inner) =
        (.descends wanted inner, s) := if_pos hp
    exact goes_still hkept hm hadvance rfl (by simp) hfits
  · have hadvance : Worker.advance b m s (.probes wanted fault p inner) =
        (Worker.failed (.io wanted fault.message), s) := if_neg hp
    exact goes_still hkept hm hadvance rfl (by simp) trivial

theorem goes_descends {wanted : Path} {inner : List Path}
    (hfits : Fits IsBuilt b s.disk m (.descends wanted inner)) :
    Goes IsBuilt b m s (.descends wanted inner) := by
  cases inner with
  | nil => exact goes_still hkept hm rfl rfl (by simp) trivial
  | cons p inner =>
      have hp : OnWay b m p := hfits p (by simp)
      have hinner : ∀ q ∈ inner, OnWay b m q := fun q hq => hfits q (by simp [hq])
      cases hmake : s.disk.makeDirectory p with
      | mk disk result =>
          cases result with
          | ok done =>
              have hadvance : Worker.advance b m s (.descends wanted (p :: inner)) =
                  (.descends wanted inner, { s with disk }) := by
                simp only [Worker.advance, hmake]
              exact goes_makeDirectory hkept hm hp hmake hadvance (by simp) hinner
          | error fault =>
              have hadvance : Worker.advance b m s (.descends wanted (p :: inner)) =
                  (.probes wanted fault p inner, { s with disk }) := by
                simp only [Worker.advance, hmake]
              exact goes_makeDirectory hkept hm hp hmake hadvance (by simp) hinner

theorem goes_drafts : Goes IsBuilt b m s .drafts := by
  have htemporary : Temporary b m (s.temporary (b.source m) "tmp".toList).2 := by
    refine ⟨_, isTemporary_ending s.process s.serial (.inr rfl) (.inl rfl), ?_⟩
    simp [Site.temporary, Builder.source, Builder.file, Path.withEnding]
  exact goes_still hkept hm rfl rfl (by simp) htemporary

theorem goes_writes {temporary : Path} (hfits : Fits IsBuilt b s.disk m (.writes temporary)) :
    Goes IsBuilt b m s (.writes temporary) := by
  have halters := s.disk.alters_write temporary (.text m.source)
  cases hwrite : s.disk.write temporary (.text m.source) with
  | mk disk result =>
      rw [hwrite] at halters
      cases result with
      | ok done =>
          have hadvance : Worker.advance b m s (.writes temporary) =
              (.compares temporary, { s with disk }) := by
            simp only [Worker.advance, Site.draft, Site.change, hwrite]
          refine goes_temporary hkept hm hfits hadvance halters.of_nowhere (by simp)
            ⟨hfits, s.disk.clock, Disk.has_of_nodeAt (Disk.nodeAt_of_write hwrite), ?_⟩
          -- The library was written before.
          intro library time hlibrary
          obtain ⟨e, he, rfl⟩ := hfits
          rw [file?_of_alters halters
            fun heq => not_aside_library hm (.inr ⟨e, he, heq⟩)] at hlibrary
          exact hkept.timely.of_file? hlibrary
      | error fault =>
          have hadvance : Worker.advance b m s (.writes temporary) =
              (Worker.failed (.io temporary fault.message), { s with disk }) := by
            simp only [Worker.advance, Site.draft, Site.change, hwrite]
          exact goes_temporary hkept hm hfits hadvance halters.of_nowhere (by simp) trivial

theorem goes_compares {temporary : Path}
    (hfits : Fits IsBuilt b s.disk m (.compares temporary)) :
    Goes IsBuilt b m s (.compares temporary) :=
  goes_still hkept hm rfl rfl (by simp) ⟨hfits, rfl⟩

/-- The source is there already. -/
theorem goes_settles_same {temporary : Path}
    (hfits : Fits IsBuilt b s.disk m (.settles temporary true)) :
    Goes IsBuilt b m s (.settles temporary true) := by
  obtain ⟨⟨htemporary, -⟩, hsame⟩ := hfits
  obtain ⟨time, hsource⟩ := Disk.read_eq_ok_iff.1 (Disk.holds_iff.1 hsame.symm)
  have halters := s.disk.alters_remove temporary
  cases hremove : s.disk.remove temporary with
  | mk disk result =>
      rw [hremove] at halters
      cases result with
      | ok done =>
          have hadvance : Worker.advance b m s (.settles temporary true) =
              (.examines, { s with disk }) := by
            simp only [Worker.advance, Site.settle, Site.discard, Site.change, hremove, if_pos]
          -- The draft goes, and the source keeps its time.
          refine goes_temporary hkept hm htemporary hadvance halters.of_nowhere (by simp) ⟨time, ?_⟩
          obtain ⟨e, he, rfl⟩ := htemporary
          exact hsource.alters halters fun heq => not_aside_source hm (.inr ⟨e, he, heq⟩)
      | error fault =>
          have hadvance : Worker.advance b m s (.settles temporary true) =
              (Worker.failed (.io temporary fault.message), { s with disk }) := by
            simp only [Worker.advance, Site.settle, Site.discard, Site.change, hremove, if_pos]
          exact goes_temporary hkept hm htemporary hadvance halters.of_nowhere (by simp) trivial

/-- The source takes the place of another one. -/
theorem goes_settles_other {temporary : Path}
    (hfits : Fits IsBuilt b s.disk m (.settles temporary false)) :
    Goes IsBuilt b m s (.settles temporary false) := by
  obtain ⟨⟨⟨e, he, rfl⟩, time, hdraft, hnewer⟩, hother⟩ := hfits
  have halters := s.disk.alters_rename (b.file m e) (b.source m)
  cases hrename : s.disk.rename (b.file m e) (b.source m) with
  | mk disk result =>
      rw [hrename] at halters
      cases result with
      -- Nothing is changed when the draft cannot be moved.
      | error fault =>
          have hadvance : Worker.advance b m s (.settles (b.file m e) false) =
              (Worker.failed (.io (b.source m) fault.message), { s with disk }) := by
            simp [Worker.advance, Site.settle, Site.publish, Site.change, hrename]
          exact goes_still hkept hm hadvance (Disk.rename_error hrename) (by simp) trivial
      | ok done =>
          have hadvance : Worker.advance b m s (.settles (b.file m e) false) =
              (.examines, { s with disk }) := by
            simp [Worker.advance, Site.settle, Site.publish, Site.change, hrename]
          have hsource : disk.Has (b.source m) (.text m.source) time :=
            Disk.has_of_nodeAt (Disk.nodeAt_of_rename hrename hdraft)
          have hread : disk.read (b.source m) = .ok m.source :=
            Disk.read_eq_ok_iff.2 ⟨time, hsource⟩
          refine goes_of_advance hadvance ⟨halters.mono ?_ ?_, ⟨time, hsource⟩, ?_,
            fun _ => hread, ?_⟩
          · rintro q (rfl | rfl)
            · exact .inr ⟨e, he.toIsEnding, rfl⟩
            · exact .inr ⟨_, isEnding_source, rfl⟩
          · rintro q ⟨⟩
          · -- The library is older than the new source.
            intro source time₁ library time₂ hsource₁ hlibrary hle
            have heq := hsource.file?.symm.trans hsource₁
            cases heq
            rw [file?_of_alters halters] at hlibrary
            · exact absurd (hnewer library time₂ hlibrary) (Nat.not_lt_of_le hle)
            · rintro (heq | heq)
              · exact not_aside_library hm (.inr ⟨e, he, heq⟩)
              · exact absurd (file_inj hm hm isEnding_library isEnding_source heq).2 (by decide)
          · -- The source that it replaces is another text.
            intro hsame
            rw [hread] at hsame
            rw [Disk.holds_iff.2 hsame.symm] at hother
            cases hother

theorem goes_settles {temporary : Path} {same : Bool}
    (hfits : Fits IsBuilt b s.disk m (.settles temporary same)) :
    Goes IsBuilt b m s (.settles temporary same) := by
  cases same with
  | true => exact goes_settles_same hkept hm hfits
  | false => exact goes_settles_other hkept hm hfits

theorem goes_examines (hfits : Fits IsBuilt b s.disk m .examines) :
    Goes IsBuilt b m s .examines := by
  obtain ⟨time, hsource⟩ := hfits
  exact goes_still hkept hm rfl rfl (by simp) ⟨time, hsource.time?, hsource⟩

theorem goes_weighs {time : Option Nat} (hfits : Fits IsBuilt b s.disk m (.weighs time)) :
    Goes IsBuilt b m s (.weighs time) := by
  obtain ⟨src, rfl, hsource⟩ := hfits
  cases hout : s.disk.time? (b.library m) with
  | none =>
      have hadvance : Worker.advance b m s (.weighs (some src)) = (.names, s) := by
        simp only [Worker.advance, hout]
      refine goes_still hkept hm hadvance rfl (by simp)
        ⟨⟨src, hsource⟩, not_warm_of_newer hsource ?_⟩
      intro library time hlibrary
      rw [(has_library hm hsource hlibrary).time?] at hout
      cases hout
  | some out =>
      by_cases hlt : out < src
      · have hadvance : Worker.advance b m s (.weighs (some src)) = (.names, s) := by
          simp only [Worker.advance, hout, if_pos hlt]
        refine goes_still hkept hm hadvance rfl (by simp)
          ⟨⟨src, hsource⟩, not_warm_of_newer hsource ?_⟩
        intro library time hlibrary
        rw [(has_library hm hsource hlibrary).time?] at hout
        cases hout
        exact hlt
      · have hadvance : Worker.advance b m s (.weighs (some src)) = (.loads, s) := by
          simp only [Worker.advance, hout, if_neg hlt]
        -- This is the only way to load without having built: the two times must be enough.
        refine goes_still hkept hm hadvance rfl (by simp) ?_
        -- What is in the place of the library is a file, and no older than the source.
        unfold Disk.time? at hout
        split at hout
        next q node hnode =>
            obtain ⟨rfl, hthere⟩ := node?_file hm isEnding_library hnode
            cases node with
            | directory time =>
                have hclear := hkept.clear m hm
                have hdirectory := Disk.isDirectoryAt_of_node? hthere
                rw [show b.file m libraryEnding = b.library m from rfl, hclear] at hdirectory
                cases hdirectory
            | file library time =>
                cases hout
                obtain ⟨text, htext, hbuilt⟩ := hkept.fresh m hm _ _ _ _ hsource.file?
                  (Disk.file?_eq_some_iff.2 hthere) (Nat.le_of_not_lt hlt)
                cases htext
                exact ⟨library, time, Disk.has_of_nodeAt hnode, hbuilt⟩
        next => cases hout

theorem goes_names (hfits : Fits IsBuilt b s.disk m .names) : Goes IsBuilt b m s .names := by
  have htemporary : Temporary b m (s.temporary (b.base m) libraryExtension).2 :=
    ⟨_, isTemporary_ending s.process s.serial (.inl rfl) (.inr rfl), rfl⟩
  exact goes_still hkept hm rfl rfl (by simp) ⟨htemporary, hfits⟩

theorem goes_builds (htool : Honest IsBuilt b.toolchain) {temporary : Path}
    (hfits : Fits IsBuilt b s.disk m (.builds temporary)) :
    Goes IsBuilt b m s (.builds temporary) := by
  obtain ⟨htemporary, ⟨time, hsource⟩, -⟩ := hfits
  have halters := htool.touches ⟨b.source m, temporary, m.linkArgs⟩ s
  cases hbuild : b.toolchain ⟨b.source m, temporary, m.linkArgs⟩ s with
  | mk s' result =>
      rw [hbuild] at halters
      cases result with
      -- Whatever the toolchain has left is under the temporary name.
      | error e =>
          have hadvance : Worker.advance b m s (.builds temporary) =
              (.discards temporary e, s') := by
            simp only [Worker.advance, hbuild]
          exact goes_temporary hkept hm htemporary hadvance halters (by simp) htemporary
      | ok done =>
          have hadvance : Worker.advance b m s (.builds temporary) = (.installs temporary, s') := by
            simp only [Worker.advance, hbuild]
          obtain ⟨library, time', hlibrary, hbuilt, hclock⟩ := htool.builds _ s s' m.source hbuild
            (Disk.read_eq_ok_iff.2 ⟨time, hsource⟩)
          refine goes_temporary hkept hm htemporary hadvance halters (by simp) ⟨htemporary, time,
            library, time', ?_, Disk.has_of_nodeAt hlibrary, hbuilt, ?_⟩
          · obtain ⟨e, he, rfl⟩ := htemporary
            exact hsource.alters halters fun heq => not_aside_source hm (.inr ⟨e, he, heq⟩)
          · -- The library was written after all that was there, the source included.
            exact Nat.le_trans (Nat.le_of_lt (hkept.timely.of_file? hsource.file?)) hclock

theorem goes_discards {temporary : Path} {e : BuildError}
    (hfits : Fits IsBuilt b s.disk m (.discards temporary e)) :
    Goes IsBuilt b m s (.discards temporary e) :=
  goes_temporary hkept hm hfits rfl (s.disk.alters_remove temporary).of_nowhere (by simp) trivial

/-- A library that has been built can be moved into place. -/
theorem goes_installs {temporary : Path}
    (hfits : Fits IsBuilt b s.disk m (.installs temporary)) :
    Goes IsBuilt b m s (.installs temporary) := by
  obtain ⟨⟨e, he, rfl⟩, time, library, time', hsource, hdraft, hbuilt, hle⟩ := hfits
  -- Nothing is in the way: there is no directory, and the name is shorter than the one in use.
  obtain ⟨disk, hrename⟩ := rename_file hm he.toIsEnding isEnding_library he.shorter.2 hdraft
    (hkept.clear m hm)
  have hadvance : Worker.advance b m s (.installs (b.file m e)) = (.records, { s with disk }) := by
    have hrename' : s.disk.rename (b.file m e) (b.library m) = (disk, .ok ()) := hrename
    simp only [Worker.advance, Site.change, hrename']
  have halters := s.disk.alters_rename (b.file m e) (b.file m libraryEnding)
  rw [hrename] at halters
  have hsource' : disk.Has (b.source m) (.text m.source) time := by
    refine hsource.alters halters ?_
    rintro (heq | heq)
    · exact not_aside_source hm (.inr ⟨e, he, heq⟩)
    · exact absurd (file_inj hm hm isEnding_source isEnding_library heq).2 (by decide)
  have hlibrary : disk.Has (b.library m) library time' :=
    Disk.has_of_nodeAt (Disk.nodeAt_of_rename hrename hdraft)
  refine goes_of_advance hadvance ⟨halters.mono ?_ ?_, ⟨library, time', hlibrary, hbuilt⟩, ?_,
    fun _ => Disk.read_eq_ok_iff.2 ⟨time, hsource'⟩, fun _ _ => .inl ?_⟩
  · rintro q (rfl | rfl)
    · exact .inr ⟨e, he.toIsEnding, rfl⟩
    · exact .inr ⟨_, isEnding_library, rfl⟩
  · rintro q ⟨⟩
  · intro source time₁ library₂ time₂ hsource₁ hlibrary₂ _
    have heq := hsource'.file?.symm.trans hsource₁
    have heq₂ := hlibrary.file?.symm.trans hlibrary₂
    cases heq
    cases heq₂
    exact ⟨m.source, rfl, hbuilt⟩
  · exact ⟨_, time, library, time', hsource'.file?, hlibrary.file?, hle⟩

theorem goes_records (hfits : Fits IsBuilt b s.disk m .records) :
    Goes IsBuilt b m s .records := by
  have halters : Disk.Alters (Spare b s.disk) (Spare b s.disk) s.disk
      (b.recordTime m s).disk := by
    unfold Builder.recordTime
    split
    next log hlog =>
        refine (s.disk.alters_append log (Builder.timingLine m)).mono ?_ ?_
        · rintro q rfl
          exact hkept.logs log hlog
        · rintro q ⟨⟩
    next => exact Disk.Alters.refl _ _ _
  obtain ⟨library, time, hlibrary, hbuilt⟩ := hfits
  exact goes_spare hkept hm rfl halters (by simp) ⟨library, time,
    hlibrary.alters halters fun hspare => hspare m hm _ isEnding_library rfl, hbuilt⟩

theorem goes_loads (hload : b.LoadsQuietly) : Goes IsBuilt b m s .loads :=
  goes_spare hkept hm rfl
    ((hload (b.library m) s).mono (fun _ => Outside.spare) fun _ => Outside.spare) (by simp) trivial

/-- Whatever phase a worker is in, its turn is as it should be. -/
theorem goes (htool : Honest IsBuilt b.toolchain) (hload : b.LoadsQuietly) {phase : Worker.Phase}
    (hfits : Fits IsBuilt b s.disk m phase) : Goes IsBuilt b m s phase := by
  cases phase with
  | waits => exact goes_waits hkept hm
  | climbs wanted outer inner => exact goes_climbs hkept hm hfits
  | probes wanted fault p inner => exact goes_probes hkept hm hfits
  | descends wanted inner => exact goes_descends hkept hm hfits
  | drafts => exact goes_drafts hkept hm
  | writes temporary => exact goes_writes hkept hm hfits
  | compares temporary => exact goes_compares hkept hm hfits
  | settles temporary same => exact goes_settles hkept hm hfits
  | examines => exact goes_examines hkept hm hfits
  | weighs time => exact goes_weighs hkept hm hfits
  | names => exact goes_names hkept hm hfits
  | builds temporary => exact goes_builds hkept hm htool hfits
  | discards temporary e => exact goes_discards hkept hm hfits
  | installs temporary => exact goes_installs hkept hm hfits
  | records => exact goes_records hkept hm hfits
  | loads => exact goes_loads hkept hm hload
  | done built => exact goes_still hkept hm rfl rfl (by simp) trivial

end Phases
end Module
end OnDemand
