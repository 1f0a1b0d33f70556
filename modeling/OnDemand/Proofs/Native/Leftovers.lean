import OnDemand.Proofs.Native.Temporaries
import OnDemand.Trial.Tools

/-!
# What failures leave

A text that cannot be staged, or a module that cannot be built and loaded, leaves no temporary file,
unless one could not be moved to where it belongs: that one stays.  Apart from it there is nothing
new but what calls that succeed leave too, which are the source, the library and the log of times.
-/

namespace OnDemand

open Plugin

/-! ## Staging -/

namespace Site

variable {τ : Type} {target : Path} {content : Text} {s s' : Site τ} {e : BuildError}

/-- The temporary name of a text that is staged. -/
def draftName (s : Site τ) (target : Path) : Path := (s.temporary target "tmp".toList).2

theorem place_draftName_ne (s : Site τ) (target : Path) (d : Disk) :
    d.place (s.draftName target) ≠ d.place target :=
  d.place_append_ne target (makesName_draft s.process s.serial)

theorem draftName_ne (s : Site τ) (target : Path) : s.draftName target ≠ target :=
  fun h => s.place_draftName_ne target s.disk (congrArg s.disk.place h)

/-- How staging goes, by what it comes to. -/
inductive Stages (target : Path) (content : Text) (s s' : Site τ) :
    Except BuildError Bool → Prop
  | unprepared {dir : Path} {message : Text} : Path.parent? target = some dir →
    Disk.Alters Disk.Nowhere (OnWayTo s.disk target) s.disk s'.disk →
      Stages target content s s' (.error (.io dir message))
  | unwritten {message : Text} :
    Disk.Alters Disk.Nowhere (OnWayTo s.disk target) s.disk s'.disk →
      Stages target content s s' (.error (.io (s.draftName target) message))
  | discards :
    Disk.Alters (· = s.disk.place (s.draftName target)) (OnWayTo s.disk target) s.disk s'.disk →
      s'.disk.file? (s.disk.place (s.draftName target)) = none →
        Stages target content s s' (.ok false)
  | publishes :
    Disk.Alters (Disk.Between (s.disk.place (s.draftName target)) (s.disk.place target))
        (OnWayTo s.disk target) s.disk s'.disk →
      s'.disk.file? (s.disk.place (s.draftName target)) = none →
        Stages target content s s' (.ok true)
  | refused {time : Nat} {message : Text} :
    Disk.Alters (· = s.disk.place (s.draftName target)) (OnWayTo s.disk target) s.disk s'.disk →
      s'.disk.Has (s.draftName target) (.text content) time →
        Stages target content s s' (.error (.io target message))

/-- How staging ends once the temporary file has been written. -/
theorem stages_of_drafted {s₁ : Site τ} {time : Nat}
    (halters : Disk.Alters (· = s.disk.place (s.draftName target)) (OnWayTo s.disk target) s.disk
      s₁.disk)
    (hdraft : s₁.disk.Has (s.draftName target) (.text content) time) (same : Bool) :
    Stages target content s (s₁.settle (s.draftName target) target same).1
      (s₁.settle (s.draftName target) target same).2 := by
  cases same with
  | true =>
      rcases s₁.discard_cases (s.draftName target) with
        ⟨message, -, hnone⟩ | ⟨disk, hok, hremoved, hgone⟩
      · -- The temporary file is there, so that it can be removed.
        exact absurd hdraft (hnone _ _)
      · rw [halters.place_eq] at hremoved hgone
        simp only [settle, if_pos, hok]
        exact .discards (halters.trans hremoved.of_nowhere) hgone
  | false =>
      rcases s₁.publish_cases (s.place_draftName_ne target s₁.disk) with
        ⟨message, herror⟩ | ⟨disk, hok, hmoved, hgone, -⟩
      · simp only [settle, Bool.false_eq_true, if_false, herror]
        exact .refused halters hdraft
      · rw [halters.place_eq, halters.place_eq] at hmoved
        rw [halters.place_eq] at hgone
        simp only [settle, Bool.false_eq_true, if_false, hok]
        exact .publishes ((halters.mono (fun _ => .inl) fun _ => id).trans hmoved.of_nowhere) hgone

theorem stages (target : Path) (content : Text) (s : Site τ) :
    Stages target content s (s.stage target content).1 (s.stage target content).2 := by
  obtain ⟨disk, hway, hok | ⟨dir, message, hdir, herror⟩⟩ := s.prepare_cases target
  · -- Making directories does not use up a number: the name is the one that `s` would give.
    have hname : ({ s with disk } : Site τ).temporary target "tmp".toList =
        ({ s with disk, serial := s.serial + 1 }, s.draftName target) := rfl
    rcases draft_cases { s with disk, serial := s.serial + 1 } (s.draftName target) content with
      ⟨message, herror⟩ | ⟨disk₁, time, hdrafted, hwritten, hdraft⟩
    · simp only [stage, hok, hname, herror]
      exact .unwritten hway
    · dsimp only at hwritten
      rw [hway.place_eq] at hwritten
      have halters : Disk.Alters (· = s.disk.place (s.draftName target)) (OnWayTo s.disk target)
          s.disk disk₁ :=
        (hway.mono (fun _ => False.elim) fun _ => id).trans hwritten.of_nowhere
      simp only [stage, hok, hname, hdrafted]
      exact stages_of_drafted halters hdraft _
  · simp only [stage, herror]
    exact .unprepared hdir hway

end Site

/-- What a text leaves that cannot be staged. -/
structure Unstaged {τ : Type} (target : Path) (content : Text) (s s' : Site τ) (e : BuildError) :
    Prop where
  /-- Directories are made that lead to the target, and no file is touched but the temporary one. -/
  alters : Disk.Alters (· = s.disk.place (s.draftName target)) (Site.OnWayTo s.disk target) s.disk
    s'.disk
  /-- The target stays as it was. -/
  unchanged : s'.disk.file? (s.disk.place target) = s.disk.file? (s.disk.place target)
  /-- There is no temporary file that was not there before, unless the error is about the target. -/
  clean : (∀ message, e ≠ .io target message) →
    s'.disk.file? (s.disk.place (s.draftName target)) =
      s.disk.file? (s.disk.place (s.draftName target))
  /-- If it is, the temporary file has been written, and stays. -/
  stuck : ∀ message, e = .io target message →
    ∃ time, s'.disk.Has (s.draftName target) (.text content) time

namespace Site

variable {τ : Type} {target : Path} {content : Text} {s s' : Site τ} {e : BuildError}

theorem unstaged (h : s.stage target content = (s', .error e)) :
    Unstaged target content s s' e := by
  have hstages := s.stages target content
  rw [h] at hstages
  have hne := Ne.symm (s.place_draftName_ne target s.disk)
  cases hstages with
  | unprepared hdir hway =>
      refine ⟨hway.mono (fun _ => False.elim) fun _ => id, hway.file _ id,
        fun _ => hway.file _ id, ?_⟩
      rintro message ⟨⟩
      exact absurd rfl (Path.parent?_ne hdir)
  | unwritten hway =>
      refine ⟨hway.mono (fun _ => False.elim) fun _ => id, hway.file _ id,
        fun _ => hway.file _ id, ?_⟩
      intro message hmessage
      exact absurd (BuildError.io.inj hmessage).1 (s.draftName_ne target)
  | refused halters hdraft =>
      exact ⟨halters, halters.file _ hne, fun hother => absurd rfl (hother _),
        fun _ _ => ⟨_, hdraft⟩⟩

/-- Where a text has been staged, the temporary file is gone. -/
theorem staged {changed : Bool} (h : s.stage target content = (s', .ok changed)) :
    Disk.Alters (Disk.Between (s.disk.place (s.draftName target)) (s.disk.place target))
      (OnWayTo s.disk target) s.disk s'.disk ∧
    s'.disk.file? (s.disk.place (s.draftName target)) = none := by
  have hstages := s.stages target content
  rw [h] at hstages
  cases hstages with
  | discards halters hgone => exact ⟨halters.mono (fun _ => .inl) fun _ => id, hgone⟩
  | publishes halters hgone => exact ⟨halters, hgone⟩

end Site

/-! ## Building -/

namespace Builder

variable {τ : Type} {b : Builder τ} {m : GeneratedModule} {s s' s₁ s₂ : Site τ} {e : BuildError}
  {output : Path} {result : Except BuildError Unit}

/-- Tools that keep to what they are for. -/
structure Contained (b : Builder τ) : Prop where
  /-- The toolchain creates nothing but its output. -/
  touches : ∀ job s, Disk.Alters (· = s.disk.place job.output) (· = s.disk.place job.output) s.disk
    (b.toolchain job s).1.disk
  /-- An output that a failing toolchain has created can be removed. -/
  removable : ∀ job s s' e file, b.toolchain job s = (s', .error e) →
    s'.disk.file? (s.disk.place job.output) = some file →
      s.disk.file? (s.disk.place job.output) = some file ∨ (s'.disk.remove job.output).2 = .ok ()
  /-- The loader only reads. -/
  reads : ∀ p s, Disk.Alters Disk.Nowhere Disk.Nowhere s.disk (b.loader p s).1.disk

/-- The toolchain works for a call that is made at the site `s`. -/
def Works (b : Builder τ) (m : GeneratedModule) (s : Site τ) (output : Path) (s' : Site τ)
    (result : Except BuildError Unit) : Prop :=
  ∃ s₁ changed, s.stage (b.source m) m.source = (s₁, .ok changed) ∧
    s₁.disk.needsRebuild (b.source m) (b.library m) = true ∧
    output = (s₁.temporary (b.base m) libraryExtension).2 ∧
    b.toolchain ⟨b.source m, output, m.linkArgs⟩ (s₁.temporary (b.base m) libraryExtension).1 =
      (s', result)

/-- How a call fails. -/
inductive Fails (b : Builder τ) (m : GeneratedModule) (s s' : Site τ) : BuildError → Prop
  | staging {e : BuildError} : s.stage (b.source m) m.source = (s', .error e) → Fails b m s s' e
  | toolchain {e : BuildError} {output : Path} {s₁ : Site τ} :
    b.Works m s output s₁ (.error e) → s'.disk = (s₁.disk.remove output).1 → Fails b m s s' e
  | moving {output : Path} {s₁ : Site τ} {fault : Fault} :
    b.Works m s output s₁ (.ok ()) →
      s₁.disk.rename output (b.library m) = (s'.disk, .error fault) →
        Fails b m s s' (.io (b.library m) fault.message)
  | loading {output : Path} {s₁ s₂ : Site τ} {e : LoadError} :
    b.Works m s output s₁ (.ok ()) →
      s₁.disk.rename output (b.library m) = (s₂.disk, .ok ()) →
        s' = (b.loader (b.library m) (b.recordTime m s₂)).1 → Fails b m s s' (.load e)
  | loadingOld {s₁ : Site τ} {changed : Bool} {e : LoadError} :
    s.stage (b.source m) m.source = (s₁, .ok changed) →
      s₁.disk.needsRebuild (b.source m) (b.library m) = false →
        s' = (b.loader (b.library m) s₁).1 → Fails b m s s' (.load e)

theorem Works.not_staging (h : b.Works m s output s₁ result) :
    s.stage (b.source m) m.source ≠ (s₂, .error e) := by
  obtain ⟨s₃, changed, hstage, -⟩ := h
  rw [hstage]
  simp

theorem Works.needsRebuild (h : b.Works m s output s₁ result) {changed : Bool}
    (hstage : s.stage (b.source m) m.source = (s₂, .ok changed)) :
    s₂.disk.needsRebuild (b.source m) (b.library m) ≠ false := by
  obtain ⟨s₃, changed', hstage', hneeds, -⟩ := h
  cases hstage.symm.trans hstage'
  simp [hneeds]

theorem Works.unique (h : b.Works m s output s₁ result) {output' : Path}
    {result' : Except BuildError Unit} (h' : b.Works m s output' s₂ result') :
    output = output' ∧ s₁ = s₂ ∧ result = result' := by
  obtain ⟨s₃, changed, hstage, -, rfl, hbuild⟩ := h
  obtain ⟨s₄, changed', hstage', -, rfl, hbuild'⟩ := h'
  cases hstage.symm.trans hstage'
  cases hbuild.symm.trans hbuild'
  exact ⟨rfl, rfl, rfl⟩

theorem load_error {built : Built} (h : b.load m s = (s', built))
    (herror : built.result = .error e) :
    s' = (b.loader (b.library m) s).1 ∧ ∃ e', e = .load e' := by
  cases h
  dsimp only at herror
  split at herror
  next => cases herror
  next e' hresult => exact ⟨rfl, e', (Except.error.inj herror).symm⟩

theorem fails {built : Built} (h : b.buildAndLoad m s = (s', built))
    (herror : built.result = .error e) : Fails b m s s' e := by
  cases hstage : s.stage (b.source m) m.source with
  | mk s₁ result =>
      cases result with
      -- The source could not be staged.
      | error e' =>
          simp only [buildAndLoad, generate, hstage] at h
          cases h
          cases herror
          exact .staging hstage
      | ok changed =>
          cases hneeds : s₁.disk.needsRebuild (b.source m) (b.library m) with
          -- The library is up to date, so only loading it can have failed.
          | false =>
              simp only [buildAndLoad, generate, hstage, refresh, hneeds, Bool.false_eq_true,
                if_false] at h
              obtain ⟨hload, e', rfl⟩ := load_error h herror
              exact .loadingOld hstage hneeds hload
          | true =>
              cases hbuild : b.toolchain
                  ⟨b.source m, (s₁.temporary (b.base m) libraryExtension).2, m.linkArgs⟩
                  (s₁.temporary (b.base m) libraryExtension).1 with
              | mk s₂ result =>
                  have hworks : b.Works m s _ s₂ result :=
                    ⟨s₁, changed, hstage, hneeds, rfl, hbuild⟩
                  cases result with
                  | error e' =>
                      simp only [buildAndLoad, generate, hstage, refresh, hneeds, build, hbuild,
                        if_true] at h
                      cases h
                      cases herror
                      exact .toolchain hworks rfl
                  | ok done =>
                      cases hrename : s₂.disk.rename
                          (s₁.temporary (b.base m) libraryExtension).2 (b.library m) with
                      | mk disk result =>
                          cases result with
                          | error fault =>
                              simp only [buildAndLoad, generate, hstage, refresh, hneeds, build,
                                hbuild, Site.change, hrename, if_true] at h
                              cases h
                              cases herror
                              exact .moving hworks hrename
                          | ok done =>
                              simp only [buildAndLoad, generate, hstage, refresh, hneeds, build,
                                hbuild, Site.change, hrename, if_true] at h
                              obtain ⟨hload, e', rfl⟩ := load_error h herror
                              have hrename' : s₂.disk.rename _ (b.library m) =
                                  (({ s₂ with disk } : Site τ).disk, .ok done) := hrename
                              exact .loading hworks hrename' hload

/-! The steps that a call has taken say how it fails. -/

theorem Fails.of_staging (h : Fails b m s s' e) {e' : BuildError}
    (hstage : s.stage (b.source m) m.source = (s₁, .error e')) : s' = s₁ ∧ e = e' := by
  cases h with
  | staging hstage' =>
      cases hstage.symm.trans hstage'
      exact ⟨rfl, rfl⟩
  | toolchain hworks => exact absurd hstage hworks.not_staging
  | moving hworks => exact absurd hstage hworks.not_staging
  | loading hworks => exact absurd hstage hworks.not_staging
  | loadingOld hstage' => cases hstage.symm.trans hstage'

theorem Fails.of_error (h : Fails b m s s' e) {e' : BuildError}
    (hworks : b.Works m s output s₁ (.error e')) :
    e = e' ∧ s'.disk = (s₁.disk.remove output).1 := by
  cases h with
  | staging hstage => exact absurd hstage hworks.not_staging
  | toolchain hworks' hdisk =>
      obtain ⟨rfl, rfl, heq⟩ := hworks.unique hworks'
      cases heq
      exact ⟨rfl, hdisk⟩
  | moving hworks' => cases (hworks.unique hworks').2.2
  | loading hworks' => cases (hworks.unique hworks').2.2
  | loadingOld hstage hneeds => exact absurd hneeds (hworks.needsRebuild hstage)

theorem Fails.of_refused (h : Fails b m s s' e) {d : Disk} {fault : Fault}
    (hworks : b.Works m s output s₁ (.ok ()))
    (hrename : s₁.disk.rename output (b.library m) = (d, .error fault)) :
    s'.disk = s₁.disk ∧ e = .io (b.library m) fault.message := by
  cases h with
  | staging hstage => exact absurd hstage hworks.not_staging
  | toolchain hworks' => cases (hworks.unique hworks').2.2
  | moving hworks' hrename' =>
      obtain ⟨rfl, rfl, -⟩ := hworks.unique hworks'
      cases hrename.symm.trans hrename'
      exact ⟨Disk.rename_error hrename, rfl⟩
  | loading hworks' hrename' =>
      obtain ⟨rfl, rfl, -⟩ := hworks.unique hworks'
      cases hrename.symm.trans hrename'
  | loadingOld hstage hneeds => exact absurd hneeds (hworks.needsRebuild hstage)

/-! ## Places -/

theorem draftName_source (s : Site τ) (b : Builder τ) (m : GeneratedModule) :
    s.draftName (b.source m) =
      b.file m (sourceEnding ++ Site.ending s.process s.serial "tmp".toList) := by
  simp [Site.draftName, Site.temporary, source, file, Path.withEnding, Site.ending]

theorem isTemporary_draft (process serial : Nat) :
    IsTemporary (sourceEnding ++ Site.ending process serial "tmp".toList) := by
  have htemporary := isTemporary_ending process serial (.inr rfl) (.inl rfl)
  simpa [Site.ending] using htemporary

theorem isTemporary_output (process serial : Nat) :
    IsTemporary (Site.ending process serial libraryExtension) :=
  isTemporary_ending process serial (.inl rfl) (.inr rfl)

theorem place_file_ne {d : Disk} {e e' : Text} (he : MakesName e) (he' : MakesName e')
    (hne : e ≠ e') : d.place (b.file m e) ≠ d.place (b.file m e') :=
  fun h => hne (d.ending_inj (b.base m) he he' h)

theorem source_ne_library (d : Disk) : d.place (b.source m) ≠ d.place (b.library m) :=
  place_file_ne makesName_source makesName_library (by decide)

/-- A temporary file is neither the source nor the library. -/
theorem place_temporary_ne {d : Disk} {e : Text} (he : IsTemporary e) :
    d.place (b.file m e) ≠ d.place (b.source m) ∧ d.place (b.file m e) ≠ d.place (b.library m) :=
  ⟨place_file_ne he.makesName makesName_source he.ne_source,
    place_file_ne he.makesName makesName_library he.ne_library⟩

theorem Works.exists_output (h : b.Works m s output s₁ result) :
    ∃ e, IsTemporary e ∧ output = b.file m e := by
  obtain ⟨s₂, changed, -, -, rfl, -⟩ := h
  exact ⟨_, isTemporary_output s₂.process s₂.serial, rfl⟩

/-! ## What is left -/

/-- Where calls that succeed leave something too. -/
def Proper (b : Builder τ) (m : GeneratedModule) (d : Disk) (q : Place) : Prop :=
  q = d.place (b.source m) ∨ q = d.place (b.library m) ∨
    ∃ log, b.settings.timingLog = some log ∧ q = d.place log

/-- All files were there before, or are where they belong. -/
def Tidy (b : Builder τ) (m : GeneratedModule) (s : Site τ) (d : Disk) : Prop :=
  ∀ q file, d.file? q = some file → s.disk.file? q = some file ∨ b.Proper m s.disk q

/-- Where there is a temporary file that cannot be moved to where it belongs. -/
inductive Stuck (b : Builder τ) (m : GeneratedModule) (s s' : Site τ) : Place → Prop
  | draft {message : Text} :
    s.stage (b.source m) m.source = (s', .error (.io (b.source m) message)) →
      Stuck b m s s' (s.disk.place (s.draftName (b.source m)))
  | output {output : Path} {s₁ : Site τ} {fault : Fault} : b.Works m s output s₁ (.ok ()) →
      s₁.disk.rename output (b.library m) = (s'.disk, .error fault) →
        Stuck b m s s' (s.disk.place output)

section Tidy

variable {d d' : Disk} {files directories : Place → Prop}

theorem tidy_start (b : Builder τ) (m : GeneratedModule) (s : Site τ) : b.Tidy m s s.disk :=
  fun _ _ => .inl

theorem Tidy.alters (h : b.Tidy m s d) (halters : Disk.Alters files directories d d')
    (hfiles : ∀ q file, files q → d'.file? q = some file →
      d.file? q = some file ∨ b.Proper m s.disk q) : b.Tidy m s d' := by
  intro q file hq
  by_cases htouched : files q
  · rcases hfiles q file htouched hq with hbefore | hproper
    · exact h q file hbefore
    · exact .inr hproper
  · rw [halters.file q htouched] at hq
    exact h q file hq

/-- A call that has staged its source is tidy. -/
theorem tidy_of_staged {changed : Bool}
    (h : s.stage (b.source m) m.source = (s₁, .ok changed)) : b.Tidy m s s₁.disk := by
  obtain ⟨halters, hgone⟩ := Site.staged h
  refine (tidy_start b m s).alters halters ?_
  rintro q file (rfl | rfl) hq
  · rw [hgone] at hq
    cases hq
  · exact .inr (.inl rfl)

/-- The toolchain has touched its output and nothing else, from a tidy disk on. -/
theorem Works.alters (hb : b.Contained) (h : b.Works m s output s₁ result) :
    ∃ s₂ : Site τ, b.Tidy m s s₂.disk ∧
      Disk.Alters (Disk.Between (s.disk.place (s.draftName (b.source m)))
        (s.disk.place (b.source m))) (Site.OnWayTo s.disk (b.source m)) s.disk s₂.disk ∧
      Disk.Alters (· = s.disk.place output) (· = s.disk.place output) s₂.disk s₁.disk ∧
      ∀ e file, result = .error e → s₁.disk.file? (s.disk.place output) = some file →
        s₂.disk.file? (s.disk.place output) = some file ∨ (s₁.disk.remove output).2 = .ok () := by
  obtain ⟨s₂, changed, hstage, -, -, hbuild⟩ := h
  have hway := (Site.staged hstage).1
  have htouches := hb.touches ⟨b.source m, output, m.linkArgs⟩
    (s₂.temporary (b.base m) libraryExtension).1
  rw [hbuild] at htouches
  have hplace : (s₂.temporary (b.base m) libraryExtension).1.disk.place output =
      s.disk.place output := hway.place_eq output
  dsimp only at htouches
  rw [hplace] at htouches
  refine ⟨s₂, tidy_of_staged hstage, hway, htouches, ?_⟩
  rintro e file rfl hfile
  have hremovable := hb.removable ⟨b.source m, output, m.linkArgs⟩ _ _ _ file hbuild
  dsimp only at hremovable
  rw [hplace] at hremovable
  exact hremovable hfile

/-- Where a toolchain has failed, what it has created is removed. -/
theorem Works.tidy_removed (hb : b.Contained) (h : b.Works m s output s₁ (.error e)) :
    b.Tidy m s (s₁.disk.remove output).1 := by
  obtain ⟨s₂, htidy, hway, htouches, hremovable⟩ := h.alters hb
  have hremoved := s₁.disk.alters_remove output
  rw [htouches.place_eq, hway.place_eq] at hremoved
  refine htidy.alters (htouches.trans hremoved.of_nowhere) ?_
  rintro q file rfl hq
  cases hremove : s₁.disk.remove output with
  | mk d result =>
      rw [hremove] at hq
      cases result with
      | ok done =>
          have hgone := Disk.file?_of_remove hremove
          rw [htouches.place_eq, hway.place_eq] at hgone
          rw [hgone] at hq
          cases hq
      | error fault =>
          have hsame := Disk.remove_error hremove
          rw [hsame] at hq
          rcases hremovable e file rfl hq with hbefore | hok
          · exact .inl hbefore
          · rw [hremove] at hok
            cases hok

/-- Where a library has been moved into place, nothing is left of its temporary file. -/
theorem Works.tidy_moved (hb : b.Contained) (h : b.Works m s output s₁ (.ok ()))
    (hrename : s₁.disk.rename output (b.library m) = (d, .ok ())) : b.Tidy m s d := by
  obtain ⟨s₂, htidy, hway, htouches, -⟩ := h.alters hb
  obtain ⟨e, he, rfl⟩ := h.exists_output
  have hrenamed := s₁.disk.alters_rename (b.file m e) (b.library m)
  have hgone := Disk.file?_of_rename hrename (place_temporary_ne he).2
  rw [hrename, htouches.place_eq, htouches.place_eq, hway.place_eq, hway.place_eq] at hrenamed
  rw [htouches.place_eq, hway.place_eq] at hgone
  refine htidy.alters ((htouches.mono (fun _ => .inl) fun _ => id).trans hrenamed.of_nowhere) ?_
  rintro q file (rfl | rfl) hq
  · rw [hgone] at hq
    cases hq
  · exact .inr (.inr (.inl rfl))

/-- Where a toolchain has failed, the library is as it was. -/
theorem Works.library_removed (hb : b.Contained) (h : b.Works m s output s₁ (.error e)) :
    (s₁.disk.remove output).1.file? (s.disk.place (b.library m)) =
      s.disk.file? (s.disk.place (b.library m)) ∧
    ((s₁.disk.remove output).1.isDirectoryAt (s.disk.place (b.library m)) = true →
      s.disk.isDirectoryAt (s.disk.place (b.library m)) = true ∨
        Site.OnWayTo s.disk (b.source m) (s.disk.place (b.library m))) := by
  obtain ⟨s₂, -, hway, htouches, -⟩ := h.alters hb
  obtain ⟨ending, hending, rfl⟩ := h.exists_output
  have hne := Ne.symm (place_temporary_ne (b := b) (m := m) (d := s.disk) hending).2
  have hdraft := (place_temporary_ne (b := b) (m := m) (d := s.disk)
    (isTemporary_draft s.process s.serial)).2
  have hremoved := s₁.disk.alters_remove (b.file m ending)
  rw [htouches.place_eq, hway.place_eq] at hremoved
  have halters := htouches.trans hremoved.of_nowhere
  constructor
  · -- Neither the output nor the draft is at the place of the library.
    rw [halters.file _ hne, hway.file]
    rintro (heq | heq)
    · rw [draftName_source] at heq
      exact hdraft heq.symm
    · exact source_ne_library s.disk heq.symm
  · intro hdirectory
    rcases halters.made _ hdirectory with hbefore | heq
    · exact hway.made _ hbefore
    · exact absurd heq hne

theorem Tidy.recordTime (h : b.Tidy m s s₁.disk) (hhere : s₁.disk.here = s.disk.here) :
    b.Tidy m s (b.recordTime m s₁).disk := by
  unfold Builder.recordTime
  split
  next log hlog =>
      have happended := s₁.disk.alters_append log (timingLine m)
      rw [Disk.place_of_here hhere] at happended
      refine h.alters happended ?_
      rintro q file rfl -
      exact .inr (.inr (.inr ⟨log, hlog, rfl⟩))
  next => exact h

end Tidy

/-- What a module leaves that cannot be built and loaded. -/
structure Unbuilt (b : Builder τ) (m : GeneratedModule) (s s' : Site τ) (e : BuildError) :
    Prop where
  /-- Each file was there before, or is where it belongs, or could not be moved there. -/
  files : ∀ q file, s'.disk.file? q = some file →
    s.disk.file? q = some file ∨ b.Proper m s.disk q ∨ b.Stuck m s s' q
  /-- Temporary files are neither the source nor the library. -/
  apart : ∀ p, p = s.draftName (b.source m) ∨ (∃ s₁ result, b.Works m s p s₁ result) →
    s.disk.place p ≠ s.disk.place (b.source m) ∧ s.disk.place p ≠ s.disk.place (b.library m)
  /-- A source that cannot be staged is as it was. -/
  unstaged : ∀ s₁ e', s.stage (b.source m) m.source = (s₁, .error e') →
    s' = s₁ ∧ e = e' ∧ Unstaged (b.source m) m.source s s' e
  /-- If the toolchain fails, the library is as it was. -/
  library : ∀ output s₁ e', b.Works m s output s₁ (.error e') → e = e' ∧
    s'.disk.file? (s.disk.place (b.library m)) = s.disk.file? (s.disk.place (b.library m)) ∧
    (s'.disk.isDirectoryAt (s.disk.place (b.library m)) = true →
      s.disk.isDirectoryAt (s.disk.place (b.library m)) = true ∨
        Site.OnWayTo s.disk (b.source m) (s.disk.place (b.library m)))
  /-- What the toolchain has built stays under its temporary name, if it cannot be moved. -/
  moved : ∀ output s₁ d fault, b.Works m s output s₁ (.ok ()) →
    s₁.disk.rename output (b.library m) = (d, .error fault) →
      s'.disk = s₁.disk ∧ e = .io (b.library m) fault.message

theorem Fails.files (hb : b.Contained) (h : Fails b m s s' e) {q : Place} {file : Content × Nat}
    (hq : s'.disk.file? q = some file) :
    s.disk.file? q = some file ∨ b.Proper m s.disk q ∨ b.Stuck m s s' q := by
  have htidy : b.Tidy m s s'.disk →
      s.disk.file? q = some file ∨ b.Proper m s.disk q ∨ b.Stuck m s s' q :=
    fun htidy => (htidy q file hq).imp_right .inl
  cases h with
  | staging hstage =>
      have hunstaged := Site.unstaged hstage
      by_cases hdraft : q = s.disk.place (s.draftName (b.source m))
      · subst hdraft
        -- The draft stays only where moving it has been refused.
        by_cases hrefused : ∃ message, e = .io (b.source m) message
        · obtain ⟨message, rfl⟩ := hrefused
          exact .inr (.inr (.draft hstage))
        · rw [hunstaged.clean fun message hmessage => hrefused ⟨message, hmessage⟩] at hq
          exact .inl hq
      · rw [hunstaged.alters.file q hdraft] at hq
        exact .inl hq
  | toolchain hworks hdisk =>
      refine htidy ?_
      rw [hdisk]
      exact hworks.tidy_removed hb
  | @moving output s₁ fault hworks hrename =>
      obtain ⟨s₂, htidy₂, hway, htouches, -⟩ := hworks.alters hb
      have hsame := Disk.rename_error hrename
      -- The toolchain has done its work; its output stays, since moving it has been refused.
      by_cases houtput : q = s.disk.place output
      · subst houtput
        exact .inr (.inr (.output hworks hrename))
      · rw [hsame, htouches.file q houtput] at hq
        exact (htidy₂ q file hq).imp_right .inl
  | @loading output s₁ s₂ e hworks hrename hloaded =>
      obtain ⟨s₃, -, hway, htouches, -⟩ := hworks.alters hb
      have hrenamed := s₁.disk.alters_rename output (b.library m)
      rw [hrename] at hrenamed
      have hhere := hrenamed.here.trans (htouches.here.trans hway.here)
      subst hloaded
      exact htidy (((hworks.tidy_moved hb hrename).recordTime hhere).alters (hb.reads _ _)
        fun _ _ => False.elim)
  | loadingOld hstage _ hloaded =>
      subst hloaded
      exact htidy ((tidy_of_staged hstage).alters (hb.reads _ _) fun _ _ => False.elim)

theorem unbuilt (hb : b.Contained) {built : Built} (h : b.buildAndLoad m s = (s', built))
    (herror : built.result = .error e) : Unbuilt b m s s' e := by
  have hfails := fails h herror
  refine ⟨fun q file hq => hfails.files hb hq, ?_, ?_, ?_, ?_⟩
  · rintro p (rfl | ⟨s₁, result, hworks⟩)
    · rw [draftName_source]
      exact place_temporary_ne (isTemporary_draft _ _)
    · obtain ⟨ending, hending, rfl⟩ := hworks.exists_output
      exact place_temporary_ne hending
  · intro s₁ e' hstage
    obtain ⟨rfl, rfl⟩ := hfails.of_staging hstage
    exact ⟨rfl, rfl, Site.unstaged hstage⟩
  · intro output s₁ e' hworks
    obtain ⟨rfl, hdisk⟩ := hfails.of_error hworks
    rw [hdisk]
    exact ⟨rfl, hworks.library_removed hb⟩
  · intro output s₁ d fault hworks hrename
    exact hfails.of_refused hworks hrename

/-! ## Calls -/

/--
Whatever fails, be it that a text is staged or that a module is built and loaded, for an operation
(`Builder.compile`) or for a context (`Builder.compileContext`): the only temporary files that are
left are those that could not be moved to where they belong.
-/
theorem failures_leave_only_stuck (b : Builder τ) (hb : b.Contained) (s : Site τ) :
    (∀ target content s' e, s.stage target content = (s', .error e) →
      Unstaged target content s s' e) ∧
    ∀ order s' built e, b.produce order s = (s', built) → built.result = .error e →
      (∃ refusal, order = .error refusal ∧ s' = s) ∨
        ∃ m, order = .ok m ∧ Unbuilt b m s s' e := by
  refine ⟨fun target content s' e h => Site.unstaged h, ?_⟩
  intro order s' built e h herror
  cases order with
  | error refusal =>
      cases h
      exact .inl ⟨refusal, rfl, rfl⟩
  | ok m => exact .inr ⟨m, rfl, unbuilt hb h herror⟩

section Trials

open Trial

/-- A builder with these tools, in the directory `p`. -/
def workshop (toolchain : Toolchain Memory) : Builder Memory where
  settings := { home := [] }
  plugins := "p".toList
  toolchain
  loader := reading .diligent

/-- A toolchain that fails when it has begun to write its output. -/
def breaking : Toolchain Memory := fun job s =>
  ({ s with disk := (s.disk.write job.output (.text [])).1 }, .error (.toolchain "killed".toList))

theorem contained_breaking : (workshop breaking).Contained where
  touches := fun job s => (s.disk.alters_write job.output (.text [])).of_nowhere
  removable := by
    intro job s s' e file hbuild hfile
    cases hwrite : s.disk.write job.output (.text []) with
    | mk disk result =>
        have hsite := congrArg Prod.fst hbuild
        have hdisk : s'.disk = disk :=
          (congrArg Site.disk hsite).symm.trans (congrArg Prod.fst hwrite)
        cases result with
        | error fault =>
            rw [hdisk, Disk.write_error hwrite] at hfile
            exact .inl hfile
        | ok done =>
            rw [hdisk]
            exact .inr (Disk.remove_of_has (Disk.has_of_nodeAt (Disk.nodeAt_of_write hwrite)))
  reads := by
    intro p s
    have hdisk : ((workshop breaking).loader p s).1.disk = s.disk := disk_reading .diligent p s
    rw [hdisk]
    exact Disk.Alters.refl _ _ _

/-- Directories stand where a text is to be staged, and where the library of a module belongs. -/
def occupied : Site Memory where
  disk := {
    nodes := [["t"], ["p"], ["p", "algos"], ["p", "algos", "f"], ["p", "algos", "f", "().so"]].map
      fun names => (names.map String.toList, .directory 0)
    clock := 1
    here := [] }
  process := 7
  memory := {}

theorem failures_leave_only_stuck_breaking : (workshop breaking).Contained ∧
    (occupied.stage "t".toList "x".toList).2 =
      .error (.io "t".toList Fault.isDirectory.message) ∧
    Unstaged "t".toList "x".toList occupied (occupied.stage "t".toList "x".toList).1
      (.io "t".toList Fault.isDirectory.message) ∧
    ((workshop breaking).compile "f".toList [] occupied).2.result =
      .error (.toolchain "killed".toList) ∧
    ((workshop breaking).compile "f".toList [] occupied).1.disk.filesBelow ".".toList =
      ["./p/algos/f/().rs".toList] ∧
    ∃ m, GeneratedModule.ofAlgorithm "f".toList [] = .ok m ∧ Unbuilt (workshop breaking) m occupied
      ((workshop breaking).compile "f".toList [] occupied).1 (.toolchain "killed".toList) := by
  have hall := failures_leave_only_stuck (workshop breaking) contained_breaking occupied
  have hstage : (occupied.stage "t".toList "x".toList).2 =
      .error (.io "t".toList Fault.isDirectory.message) := by decide +kernel
  have hcompile : ((workshop breaking).compile "f".toList [] occupied).2.result =
      .error (.toolchain "killed".toList) := by decide +kernel
  refine ⟨contained_breaking, hstage, hall.1 _ _ _ _ (Prod.ext rfl hstage), hcompile,
    by decide +kernel, ?_⟩
  rcases hall.2 (GeneratedModule.ofAlgorithm "f".toList []) _ _ _ rfl hcompile with
    ⟨refusal, hrefusal, -⟩ | hbuilt
  · cases hrefusal
  · exact hbuilt

/-- What cannot be moved to where it belongs is left under its temporary name. -/
theorem refused_moves_leave_files :
    (occupied.stage "t".toList "x".toList).2 = .error (.io "t".toList Fault.isDirectory.message) ∧
    (occupied.stage "t".toList "x".toList).1.disk.filesBelow ".".toList =
      ["./t.7.0.tmp".toList] ∧
    ((workshop (copying [])).compile "f".toList [] occupied).2.result =
      .error (.io "p/algos/f/().so".toList Fault.isDirectory.message) ∧
    "./p/algos/f/().7.1.so".toList ∈
      ((workshop (copying [])).compile "f".toList [] occupied).1.disk.filesBelow ".".toList := by
  decide +kernel

end Trials

end Builder
end OnDemand
