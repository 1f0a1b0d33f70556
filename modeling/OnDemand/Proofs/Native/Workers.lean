import Mathlib.Logic.Function.Iterate
import Mathlib.Logic.Relation
import OnDemand.Native.Builder
import OnDemand.Proofs.Disk.Effects
import OnDemand.Proofs.Plugin.Seats

/-!
# Workers

Building and loading a module is a sequence of steps, each of which touches the disk once, and
between which other workers take theirs.  A worker takes the lock of its module's place first and
keeps it until it is done.  One worker by itself does what `Builder.buildAndLoad` does; a plant is
any number of workers at one site.
-/

namespace OnDemand

namespace Worker

/-- Where a worker stands. -/
inductive Phase where
  /-- About to take the lock. -/
  | waits
  /--
  About to make the first of the directories `outer`, which lie further and further out; those in
  `inner` come after it.  It is all for the directory `wanted`.
  -/
  | climbs (wanted : Path) (outer inner : List Path)
  /-- The directory `p` could not be made; about to see whether there is one. -/
  | probes (wanted : Path) (fault : Fault) (p : Path) (inner : List Path)
  /-- About to make the directories `inner`. -/
  | descends (wanted : Path) (inner : List Path)
  /-- About to choose a temporary name for the source. -/
  | drafts
  /-- About to write the source under the temporary name. -/
  | writes (temporary : Path)
  /-- About to see whether the source is there already. -/
  | compares (temporary : Path)
  /-- About to remove the temporary file, or to move it into place. -/
  | settles (temporary : Path) (same : Bool)
  /-- About to see when the source was changed. -/
  | examines
  /-- About to see when the library was changed. -/
  | weighs (time : Option Nat)
  /-- The module has to be built; about to choose a temporary name for the library. -/
  | names
  /-- The toolchain is at work. -/
  | builds (temporary : Path)
  /-- The toolchain has failed; about to remove what it has left. -/
  | discards (temporary : Path) (e : BuildError)
  /-- About to move the library into place. -/
  | installs (temporary : Path)
  /-- About to record the build. -/
  | records
  /-- About to load the library. -/
  | loads
  | done (built : Built)

/-- Whether the worker holds the lock. -/
def Phase.holds : Phase → Bool
  | .waits | .done _ => false
  | _ => true

end Worker

/-- A worker, who builds and loads a module. -/
structure Worker where
  module : GeneratedModule
  phase : Worker.Phase := .waits

namespace Worker

variable {τ : Type}

/-- What the lock of a module goes by: the components of its base path. -/
def lock (b : Builder τ) (m : GeneratedModule) : List Text := Path.components (b.base m)

/-- The phase after which nothing comes, with an error. -/
def failed (e : BuildError) : Phase := .done { result := .error e }

/-- The next phase of a worker, and the site after the step. -/
def advance (b : Builder τ) (m : GeneratedModule) (s : Site τ) : Phase → Phase × Site τ
  | .waits =>
    match Path.parent? (b.source m) with
    | some dir => (.climbs dir (Disk.ancestors dir) [], s)
    | none => (.drafts, s)
  | .climbs wanted [] inner => (.descends wanted inner, s)
  | .climbs wanted (p :: outer) inner =>
    match s.disk.makeDirectory p with
    | (disk, .ok ()) => (.descends wanted inner, { s with disk })
    | (disk, .error .notFound) => (.climbs wanted outer (p :: inner), { s with disk })
    | (disk, .error fault) => (.probes wanted fault p inner, { s with disk })
  | .probes wanted fault p inner =>
    if s.disk.isDirectory p then (.descends wanted inner, s)
    else (failed (.io wanted fault.message), s)
  | .descends _ [] => (.drafts, s)
  | .descends wanted (p :: inner) =>
    match s.disk.makeDirectory p with
    | (disk, .ok ()) => (.descends wanted inner, { s with disk })
    | (disk, .error fault) => (.probes wanted fault p inner, { s with disk })
  | .drafts =>
    let (s, temporary) := s.temporary (b.source m) "tmp".toList
    (.writes temporary, s)
  | .writes temporary =>
    match s.draft temporary m.source with
    | (s, .ok ()) => (.compares temporary, s)
    | (s, .error e) => (failed e, s)
  | .compares temporary => (.settles temporary (s.disk.holds (b.source m) m.source), s)
  | .settles temporary same =>
    match s.settle temporary (b.source m) same with
    | (s, .ok _) => (.examines, s)
    | (s, .error e) => (failed e, s)
  | .examines => (.weighs (s.disk.time? (b.source m)), s)
  | .weighs time =>
    match time, s.disk.time? (b.library m) with
    | some src, some out => if out < src then (.names, s) else (.loads, s)
    | _, _ => (.names, s)
  | .names =>
    let (s, temporary) := s.temporary (b.base m) Plugin.libraryExtension
    (.builds temporary, s)
  | .builds temporary =>
    match b.toolchain ⟨b.source m, temporary, m.linkArgs⟩ s with
    | (s, .ok ()) => (.installs temporary, s)
    | (s, .error e) => (.discards temporary e, s)
  | .discards temporary e => (failed e, { s with disk := (s.disk.remove temporary).1 })
  | .installs temporary =>
    match s.change (b.library m) fun d => d.rename temporary (b.library m) with
    | (s, .ok ()) => (.records, s)
    | (s, .error e) => (failed e, s)
  | .records => (.loads, b.recordTime m s)
  | .loads =>
    let (s, built) := b.load m s
    (.done built, s)
  | .done built => (.done built, s)

/-! ## A worker by itself -/

section Alone

-- What a worker does next is opened in nearly every proof below.
attribute [local simp] advance

variable {b : Builder τ} {m : GeneratedModule}

/-- A worker by itself comes from one phase to another in some number of steps. -/
def Comes (b : Builder τ) (m : GeneratedModule) (x y : Phase × Site τ) : Prop :=
  ∃ n, (fun x => advance b m x.2 x.1)^[n] x = y

theorem Comes.refl (x : Phase × Site τ) : Comes b m x x := ⟨0, rfl⟩

theorem Comes.trans {x y z : Phase × Site τ} (h : Comes b m x y) (h' : Comes b m y z) :
    Comes b m x z := by
  rcases h with ⟨n, rfl⟩
  rcases h' with ⟨n', rfl⟩
  exact ⟨n' + n, Function.iterate_add_apply _ n' n x⟩

theorem Comes.head {p : Phase} {s : Site τ} {y z : Phase × Site τ} (h : advance b m s p = y)
    (h' : Comes b m y z) : Comes b m (p, s) z :=
  Comes.trans ⟨1, h⟩ h'

/-- Where something leads that may fail, which a worker does at one site after another. -/
def outcome (p : Phase) : Site τ × Except BuildError Unit → Phase × Site τ
  | (s, .ok ()) => (p, s)
  | (s, .error e) => (failed e, s)

theorem outcome_ok (p : Phase) (s : Site τ) : outcome p (s, .ok ()) = (p, s) := rfl

theorem outcome_error (p : Phase) (s : Site τ) (e : BuildError) :
    outcome p (s, .error e) = (failed e, s) :=
  rfl

theorem comes_probes (wanted : Path) (fault : Fault) (p : Path) (inner : List Path) (s : Site τ) :
    Comes b m (.probes wanted fault p inner, s)
      (outcome (.descends wanted inner) (s.change wanted fun d =>
        (d, if d.isDirectory p then .ok () else .error fault))) := by
  refine Comes.head ?_ (Comes.refl _)
  cases hp : s.disk.isDirectory p with
  | true => simp [Site.change, outcome, hp]
  | false => simp [Site.change, outcome, hp]

theorem comes_descends (wanted p : Path) (inner : List Path) (s : Site τ) :
    Comes b m (.descends wanted (p :: inner), s)
      (outcome (.descends wanted inner) (s.change wanted fun d => d.ensureDirectory p)) := by
  cases hmake : s.disk.makeDirectory p with
  | mk disk result =>
      cases result with
      | error fault =>
          have hensure : (s.change wanted fun d => d.ensureDirectory p) =
              ({ s with disk } : Site τ).change wanted fun d =>
                (d, if d.isDirectory p then .ok () else .error fault) := by
            simp only [Site.change, Disk.ensureDirectory, hmake]
          rw [hensure]
          refine Comes.head ?_ (comes_probes wanted fault p inner _)
          simp only [advance, hmake]
      | ok done =>
          have hensure : (s.change wanted fun d => d.ensureDirectory p) =
              ({ s with disk }, .ok ()) := by
            simp only [Site.change, Disk.ensureDirectory, hmake]
          rw [hensure]
          refine Comes.head ?_ (Comes.refl _)
          simp only [advance, hmake, outcome]

/-- On the way out directories are put aside, and they are made on the way back. -/
theorem comes_climbs (wanted : Path) (outer inner : List Path) (s : Site τ) :
    Comes b m (.climbs wanted outer inner, s)
      (outcome (.descends wanted inner) (s.change wanted fun d => d.makeUpwards outer)) := by
  induction outer generalizing inner s with
  | nil => exact Comes.head rfl (Comes.refl _)
  | cons p outer ih =>
      cases hmake : s.disk.makeDirectory p with
      | mk disk result =>
          cases result with
          -- The directory could be made: there is nothing left to climb.
          | ok done =>
              have hchange : (s.change wanted fun d => d.makeUpwards (p :: outer)) =
                  ({ s with disk }, .ok ()) := by
                simp only [Site.change, Disk.makeUpwards, hmake]
              rw [hchange]
              refine Comes.head ?_ (Comes.refl _)
              simp only [advance, hmake, outcome]
          | error fault =>
              by_cases hfault : fault = .notFound
              · -- The directory above is missing as well. It is made first, and this one on the way
                -- back.
                subst hfault
                refine Comes.head (y := (.climbs wanted outer (p :: inner), { s with disk })) ?_ ?_
                · simp only [advance, hmake]
                · refine Comes.trans (ih (p :: inner) { s with disk }) ?_
                  cases hup : disk.makeUpwards outer with
                  | mk disk' result' =>
                      cases result' with
                      | error fault' =>
                          simp only [Site.change, Disk.makeUpwards, hmake, hup, outcome_error]
                          exact Comes.refl _
                      | ok done' =>
                          have hchange : (s.change wanted fun d => d.makeUpwards (p :: outer)) =
                              ({ s with disk := disk' } : Site τ).change wanted fun d =>
                                d.ensureDirectory p := by
                            simp only [Site.change, Disk.makeUpwards, hmake, hup]
                          rw [hchange]
                          simp only [Site.change, hup, outcome_ok]
                          exact comes_descends wanted p inner { s with disk := disk' }
              · -- With any other fault, all that counts is whether a directory is there.
                have hchange : (s.change wanted fun d => d.makeUpwards (p :: outer)) =
                    ({ s with disk } : Site τ).change wanted fun d =>
                      (d, if d.isDirectory p then .ok () else .error fault) := by
                  cases fault with
                  | notFound => exact absurd rfl hfault
                  | _ => simp only [Site.change, Disk.makeUpwards, hmake]
                rw [hchange]
                refine Comes.head ?_ (comes_probes wanted fault p inner _)
                cases fault with
                | notFound => exact absurd rfl hfault
                | _ => simp only [advance, hmake]

theorem comes_prepare (s : Site τ) :
    Comes b m (.waits, s) (outcome .drafts (s.prepare (b.source m))) := by
  cases hparent : Path.parent? (b.source m) with
  | none =>
      refine Comes.head ?_ (Comes.refl _)
      simp only [advance, Site.prepare, hparent, outcome]
  | some dir =>
      refine Comes.head (y := (.climbs dir (Disk.ancestors dir) [], s)) ?_ ?_
      · simp only [advance, hparent]
      · refine Comes.trans (comes_climbs dir (Disk.ancestors dir) [] s) ?_
        have hprepare : s.prepare (b.source m) =
            s.change dir fun d => d.makeUpwards (Disk.ancestors dir) := by
          simp only [Site.prepare, hparent, Disk.makeDirectories]
        rw [hprepare]
        rcases (s.change dir fun d => d.makeUpwards (Disk.ancestors dir)) with ⟨s', e | done⟩
        · exact Comes.refl _
        · exact Comes.head rfl (Comes.refl _)

/-- An outcome without what comes of it. -/
def plain {α : Type} (r : Site τ × Except BuildError α) : Site τ × Except BuildError Unit :=
  (r.1, r.2.map fun _ => ())

/-- What is written is settled at once. -/
def written (b : Builder τ) (m : GeneratedModule) (s : Site τ) : Site τ × Except BuildError Bool :=
  let (s, temporary) := s.temporary (b.source m) "tmp".toList
  match s.draft temporary m.source with
  | (s, .error e) => (s, .error e)
  | (s, .ok ()) => s.settle temporary (b.source m) (s.disk.holds (b.source m) m.source)

theorem comes_written (s : Site τ) :
    Comes b m (.drafts, s) (outcome .examines (plain (written b m s))) := by
  cases htemporary : s.temporary (b.source m) "tmp".toList with
  | mk s₁ temporary =>
      refine Comes.head (y := (.writes temporary, s₁)) ?_ ?_
      · simp only [advance, htemporary]
      · cases hdraft : s₁.draft temporary m.source with
        | mk s₂ result =>
            cases result with
            | error e =>
                refine Comes.head ?_ (Comes.refl _)
                simp only [advance, written, htemporary, hdraft]
                rfl
            -- The draft is compared with the target before it is settled.
            | ok done =>
                refine Comes.head (y := (.compares temporary, s₂)) ?_ (Comes.head rfl ?_)
                · simp only [advance, hdraft]
                · have hwritten : written b m s = s₂.settle temporary (b.source m)
                      (s₂.disk.holds (b.source m) m.source) := by
                    simp only [written, htemporary, hdraft]
                  rw [hwritten]
                  cases hsettle : s₂.settle temporary (b.source m)
                    (s₂.disk.holds (b.source m) m.source) with
                  | mk s₃ result =>
                      refine Comes.head ?_ (Comes.refl _)
                      cases result with
                      | error e =>
                          simp only [advance, hsettle]
                          rfl
                      | ok same =>
                          simp only [advance, hsettle]
                          rfl

theorem comes_generate (s : Site τ) :
    Comes b m (.waits, s) (outcome .examines (plain (b.generate m s))) := by
  refine Comes.trans (comes_prepare s) ?_
  cases hprepare : s.prepare (b.source m) with
  | mk s₁ result =>
      cases result with
      | error e =>
          simp only [Builder.generate, Site.stage, hprepare]
          exact Comes.refl _
      | ok done =>
          have hgenerate : plain (b.generate m s) = plain (written b m s₁) := by
            have hstage : s.stage (b.source m) m.source = written b m s₁ := by
              unfold Site.stage
              rw [hprepare]
              rfl
            rw [Builder.generate, hstage]
            rcases written b m s₁ with ⟨s₂, e | same⟩
            · rfl
            · rfl
          rw [hgenerate]
          exact comes_written s₁

theorem comes_build (s : Site τ) : Comes b m (.names, s) (outcome .loads (b.build m s)) := by
  cases htemporary : s.temporary (b.base m) Plugin.libraryExtension with
  | mk s₁ temporary =>
      refine Comes.head (y := (.builds temporary, s₁)) ?_ ?_
      · simp only [advance, htemporary]
      · cases htool : b.toolchain ⟨b.source m, temporary, m.linkArgs⟩ s₁ with
        | mk s₂ result =>
            cases result with
            -- The worker discards what a toolchain that has failed leaves.
            | error e =>
                refine Comes.head (y := (.discards temporary e, s₂)) ?_
                  (Comes.head rfl ?_)
                · simp only [advance, htool]
                · simp only [Builder.build, htemporary, htool, outcome_error]
                  exact Comes.refl _
            | ok done =>
                refine Comes.head (y := (.installs temporary, s₂)) ?_ ?_
                · simp only [advance, htool]
                · -- The output is moved to where the library belongs, and the time is recorded
                  -- then.
                  cases hchange : s₂.change (b.library m) fun d =>
                    d.rename temporary (b.library m) with
                  | mk s₃ result =>
                      cases result with
                      | error e =>
                          refine Comes.head ?_ (Comes.refl _)
                          simp only [advance, hchange, Builder.build, htemporary, htool,
                            outcome_error]
                      | ok done =>
                          refine Comes.head (y := (.records, s₃)) ?_ (Comes.head rfl ?_)
                          · simp only [advance, hchange]
                          · simp only [Builder.build, htemporary, htool, hchange, outcome_ok]
                            exact Comes.refl _

/-- The two times tell whether the module has to be built. -/
theorem advance_weighs (s : Site τ) :
    advance b m s (.weighs (s.disk.time? (b.source m))) =
      if s.disk.needsRebuild (b.source m) (b.library m) then (.names, s) else (.loads, s) := by
  cases hsource : s.disk.time? (b.source m) with
  | none => simp only [advance, Disk.needsRebuild, hsource, if_pos]
  | some src =>
      cases hlibrary : s.disk.time? (b.library m) with
      | none => simp only [advance, Disk.needsRebuild, hsource, hlibrary, if_pos]
      | some out => simp only [advance, Disk.needsRebuild, hsource, hlibrary, decide_eq_true_eq]

theorem comes_refresh (s : Site τ) :
    Comes b m (.examines, s) (outcome .loads (b.refresh m s)) := by
  refine Comes.head rfl ?_
  have hweighs := advance_weighs (b := b) (m := m) s
  unfold Builder.refresh
  split
  next hneeds =>
      rw [if_pos hneeds] at hweighs
      exact Comes.head hweighs (comes_build s)
  next hneeds =>
      rw [if_neg hneeds] at hweighs
      exact Comes.head hweighs (Comes.refl _)

/-- A worker by itself builds and loads its module. -/
theorem comes_buildAndLoad (s : Site τ) :
    Comes b m (.waits, s) (.done (b.buildAndLoad m s).2, (b.buildAndLoad m s).1) := by
  refine Comes.trans (comes_generate s) ?_
  unfold Builder.buildAndLoad
  rcases b.generate m s with ⟨s₁, e | source⟩
  · exact Comes.refl _
  · refine Comes.trans (comes_refresh s₁) ?_
    dsimp only
    rcases b.refresh m s₁ with ⟨s₂, e | done⟩
    · exact Comes.refl _
    · exact Comes.head rfl (Comes.refl _)

end Alone
end Worker
end OnDemand
