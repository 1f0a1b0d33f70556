import OnDemand.Proofs.Native.Turns
import OnDemand.Proofs.Positions
import OnDemand.Trial.Session

/-!
# Loaded modules are fresh

Whatever happens at a plant, one invariant is kept (`Plant.Sound`): no two workers hold one lock,
and a library that is no older than its source was built from it.  So what is loaded was built from
the source of the module, and a module that has been built once is built again only after its source
has changed.
-/

namespace OnDemand

open Plugin

section Frames

variable {τ : Type} {IsBuilt : Text → Content → Prop} {b : Builder τ} {d d' : Disk}
  {m m' : GeneratedModule} {files directories : Place → Prop}

/-! ## Modules at one place -/

theorem source_congr (h : b.base m = b.base m') : b.source m = b.source m' := by
  rw [Builder.source, h, Builder.source]

theorem library_congr (h : b.base m = b.base m') : b.library m = b.library m' := by
  rw [Builder.library, h, Builder.library]

theorem Warm.congr (h : b.base m = b.base m') : Warm b d m ↔ Warm b d m' := by
  rw [Warm, Warm, source_congr h, library_congr h]

theorem Fresh.congr (h : b.base m = b.base m') : Fresh IsBuilt b d m ↔ Fresh IsBuilt b d m' := by
  rw [Fresh, Fresh, source_congr h, library_congr h]

/-! ## What others do -/

section Others

variable (halters : Disk.Alters files directories d d')
  (hfiles : ∀ e, IsEnding e → ¬files (d.place (b.file m e)))

include halters hfiles

theorem Has.others {e : Text} (he : IsEnding e) {content : Content} {time : Nat}
    (h : d.Has (b.file m e) content time) : d'.Has (b.file m e) content time :=
  h.alters halters (hfiles e he)

theorem Sourced.others (h : Sourced b d m) : Sourced b d' m := by
  obtain ⟨time, hsource⟩ := h
  exact ⟨time, Has.others halters hfiles isEnding_source hsource⟩

theorem Drafted.others {temporary : Path} (h : Drafted b d m temporary) :
    Drafted b d' m temporary := by
  obtain ⟨⟨e, he, rfl⟩, time, hdraft, hnewer⟩ := h
  refine ⟨⟨e, he, rfl⟩, time, Has.others halters hfiles he.toIsEnding hdraft, ?_⟩
  have hnot : ¬files (d.place (b.library m)) := hfiles _ isEnding_library
  intro library time' hlibrary
  rw [file?_of_alters halters hnot] at hlibrary
  exact hnewer library time' hlibrary

omit halters hfiles in
/-- Where there is a draft, the source can be read that is there. -/
theorem Drafted.holds_iff (hm : m.Placed) {temporary : Path} (h : Drafted b d m temporary) :
    d.holds (b.source m) m.source = true ↔
      ∃ time, d.file? (d.place (b.source m)) = some (.text m.source, time) := by
  obtain ⟨⟨e, he, rfl⟩, time, hdraft, -⟩ := h
  rw [Disk.holds_iff, Disk.read_eq_ok_iff]
  constructor
  · rintro ⟨time', hsource⟩
    exact ⟨time', hsource.file?⟩
  · rintro ⟨time', hsource⟩
    exact ⟨time', nodeAt_sibling hm he.toIsEnding isEnding_source he.shorter.1 hdraft hsource⟩

/-- What is known in a phase stays known while others touch no file of the module. -/
theorem Fits.others (hm : m.Placed) {phase : Worker.Phase} (h : Fits IsBuilt b d m phase) :
    Fits IsBuilt b d' m phase := by
  have hwarm : Warm b d' m ↔ Warm b d m :=
    Warm.alters halters (hfiles _ isEnding_source) (hfiles _ isEnding_library)
  cases phase with
  | waits => trivial
  | climbs wanted outer inner => exact h
  | probes wanted fault p inner => exact h
  | descends wanted inner => exact h
  | drafts => trivial
  | writes temporary => exact h
  | compares temporary => exact Drafted.others halters hfiles h
  | settles temporary same =>
      -- Not to hold a text is kept too: the draft shows that the source could be read.
      obtain ⟨hdraft, hsame⟩ := h
      have hdraft' := Drafted.others halters hfiles hdraft
      have hnot : ¬files (d.place (b.source m)) := hfiles _ isEnding_source
      refine ⟨hdraft', ?_⟩
      rw [hsame, Bool.eq_iff_iff, hdraft.holds_iff hm, hdraft'.holds_iff hm,
        file?_of_alters halters hnot]
  | examines => exact Sourced.others halters hfiles h
  | weighs time =>
      obtain ⟨t, rfl, hsource⟩ := h
      exact ⟨t, rfl, Has.others halters hfiles isEnding_source hsource⟩
  | names => exact ⟨Sourced.others halters hfiles h.1, fun hnow => h.2 (hwarm.1 hnow)⟩
  | builds temporary =>
      exact ⟨h.1, Sourced.others halters hfiles h.2.1, fun hnow => h.2.2 (hwarm.1 hnow)⟩
  | discards temporary e => exact h
  | installs temporary =>
      obtain ⟨⟨e, he, rfl⟩, time, library, time', hsource, hdraft, hbuilt, hle⟩ := h
      exact ⟨⟨e, he, rfl⟩, time, library, time', Has.others halters hfiles isEnding_source hsource,
        Has.others halters hfiles he.toIsEnding hdraft, hbuilt, hle⟩
  | records =>
      obtain ⟨library, time, hlibrary, hbuilt⟩ := h
      exact ⟨library, time, Has.others halters hfiles isEnding_library hlibrary, hbuilt⟩
  | loads =>
      obtain ⟨library, time, hlibrary, hbuilt⟩ := h
      exact ⟨library, time, Has.others halters hfiles isEnding_library hlibrary, hbuilt⟩
  | done built => trivial

end Others

/-- A worker who does not hold its lock relies on nothing. -/
theorem Fits.of_not_holds {phase : Worker.Phase} (h : phase.holds = false) :
    Fits IsBuilt b d m phase := by
  cases phase with
  | waits => trivial
  | done built => trivial
  | _ => cases h

/-- What a toolchain at work does to its output is a turn that leads nowhere. -/
theorem advances_scribble {temporary : Path} (hkept : Kept IsBuilt b d) (hm : m.Placed)
    (hfits : Fits IsBuilt b d m (.builds temporary))
    (halters : Disk.Alters (· = d.place temporary) (· = d.place temporary) d d') :
    Advances IsBuilt b m d d' (.builds temporary) (.builds temporary) := by
  obtain ⟨⟨e, he, rfl⟩, ⟨time, hsource⟩, hcold⟩ := hfits
  have halters' : Disk.Alters (Aside b d m) (Made b d m) d d' := by
    refine halters.mono ?_ ?_
    · rintro q rfl
      exact .inr ⟨e, he, rfl⟩
    · rintro q rfl
      exact .inl (.inr ⟨e, he, rfl⟩)
  refine advances_aside hm halters' (hkept.fresh m hm) (by simp)
    ⟨⟨e, he, rfl⟩, ⟨time, hsource.alters halters' (not_aside_source hm)⟩, fun hwarm => hcold ?_⟩
  exact (Warm.alters halters' (not_aside_source hm) (not_aside_library hm)).1 hwarm

end Frames

/-! ## The invariant -/

namespace Plant

section Invariant

variable {τ : Type} {IsBuilt : Text → Content → Prop} {b : Builder τ} {P P' : Plant τ}

/-- What holds of a plant at all times. -/
structure Sound (IsBuilt : Text → Content → Prop) (b : Builder τ) (P : Plant τ) : Prop where
  kept : Kept IsBuilt b P.site.disk
  placed : ∀ (i : Nat) (w : Worker), P.workers[i]? = some w → w.module.Placed
  fits : ∀ (i : Nat) (w : Worker), P.workers[i]? = some w → Fits IsBuilt b P.site.disk w.module w.phase
  /-- No two workers hold one lock. -/
  apart : ∀ (i j : Nat) (w w' : Worker), P.workers[i]? = some w → P.workers[j]? = some w' →
    w.phase.holds = true → w'.phase.holds = true →
    Worker.lock b w.module = Worker.lock b w'.module → i = j

/-- Nobody but the worker `i` holds the lock of a module. -/
def Alone (b : Builder τ) (P : Plant τ) (i : Nat) (m : GeneratedModule) : Prop :=
  ∀ (j : Nat) (w : Worker), P.workers[j]? = some w → w.phase.holds = true →
    Worker.lock b w.module = Worker.lock b m → j = i

/-- What happens at a plant: it takes an order, somebody moves, or the plant has no part in it. -/
inductive Happens (IsBuilt : Text → Content → Prop) (b : Builder τ) (P : Plant τ) : Plant τ → Prop
  | takes {m : GeneratedModule} : m.Placed → Happens IsBuilt b P (P.take m)
  | moves {i : Nat} {w : Worker} {phase : Worker.Phase} {site : Site τ} :
    P.workers[i]? = some w → P.Alone b i w.module →
      Advances IsBuilt b w.module P.site.disk site.disk w.phase phase →
      Happens IsBuilt b P { site, workers := P.workers.set i { w with phase } }
  | elsewhere {disk : Disk} :
    Disk.Alters (Outside b P.site.disk) (Outside b P.site.disk) P.site.disk disk →
      Happens IsBuilt b P (P.withDisk disk)

theorem alone_of_mayTurn (h : P.Sound IsBuilt b) {i : Nat} {w : Worker}
    (hw : P.workers[i]? = some w) (hturn : P.mayTurn b w = true) : P.Alone b i w.module := by
  intro j w' hw' hholds' hlock
  by_cases hholds : w.phase.holds = true
  · exact h.apart j i w' w hw' hw hholds' hholds hlock
  · -- The worker takes its lock, which nobody has.
    exfalso
    obtain ⟨m, phase⟩ := w
    cases phase with
    | waits =>
        have hall := List.all_eq_true.1 hturn w' (List.mem_of_getElem? hw')
        rw [hholds', decide_eq_true hlock] at hall
        cases hall
    | done built => cases hturn
    | _ => exact hholds rfl

/-- Each step is one of the three. -/
theorem happens_of_step (htool : Honest IsBuilt b.toolchain) (hload : b.LoadsQuietly)
    (h : P.Sound IsBuilt b) (hstep : Step b P P') : Happens IsBuilt b P P' := by
  cases hstep with
  | takes hordinary hm => exact .takes (Order.placed hordinary hm)
  | @turns _ i hturn =>
      unfold turn? at hturn
      split at hturn
      next => cases hturn
      next w hw =>
          split at hturn
          next hmay =>
              cases hturn
              exact .moves hw (alone_of_mayTurn h hw hmay)
                (goes h.kept (h.placed i w hw) htool hload (h.fits i w hw))
          next => cases hturn
  | @scribbles w temporary disk hmem hphase halters =>
      -- The worker of the toolchain moves, and stays in its phase.
      obtain ⟨i, hw⟩ := List.mem_iff_getElem?.1 hmem
      obtain ⟨m, phase⟩ := w
      cases hphase
      have hplant : P.withDisk disk =
          { site := { P.site with disk }, workers := P.workers.set i ⟨m, .builds temporary⟩ } := by
        rw [set_of_getElem? hw]
        rfl
      rw [hplant]
      exact .moves hw (alone_of_mayTurn h hw rfl)
        (advances_scribble h.kept (h.placed i _ hw) (h.fits i _ hw) halters)
  | elsewhere halters => exact .elsewhere halters

/-! ## What each step keeps -/

theorem getElem?_take {m : GeneratedModule} {i : Nat} {w : Worker}
    (h : (P.take m).workers[i]? = some w) : P.workers[i]? = some w ∨ w = { module := m } := by
  rw [take, List.getElem?_append] at h
  split at h
  next => exact .inl h
  next => exact .inr (List.mem_singleton.1 (List.mem_of_getElem? h))

theorem getElem?_take_of_some {m : GeneratedModule} {i : Nat} {w : Worker}
    (h : P.workers[i]? = some w) : (P.take m).workers[i]? = some w := by
  obtain ⟨hlt, -⟩ := List.getElem?_eq_some_iff.1 h
  rw [take, List.getElem?_append_left hlt, h]

theorem Kept.alters {d d' : Disk} {files directories : Place → Prop} (h : Kept IsBuilt b d)
    (halters : Disk.Alters files directories d d')
    (hfresh : ∀ m : GeneratedModule, m.Placed → Fresh IsBuilt b d' m)
    (hclear : ∀ m : GeneratedModule, m.Placed → ¬directories (d.place (b.library m))) :
    Kept IsBuilt b d' where
  timely := halters.timely h.timely
  direct := by
    intro front hfront
    rw [Outside, halters.place_eq, Disk.startOf_of_here halters.here]
    exact h.direct front hfront
  logs := by
    intro log hlog m hm e he
    rw [halters.place_eq, halters.place_eq]
    exact h.logs log hlog m hm e he
  fresh := hfresh
  clear := by
    intro m hm
    rw [halters.place_eq, ← Bool.not_eq_true]
    intro hdirectory
    rcases halters.made _ hdirectory with hbefore | hmade
    · rw [h.clear m hm] at hbefore
      cases hbefore
    · exact hclear m hm hmade

theorem outside_not_file {d : Disk} {m : GeneratedModule} (hm : m.Placed) {e : Text}
    (he : IsEnding e) : ¬Outside b d (d.place (b.file m e)) :=
  fun hout => hout (isBelow_file d b hm he)

theorem Sound.take (h : P.Sound IsBuilt b) {m : GeneratedModule} (hm : m.Placed) :
    (P.take m).Sound IsBuilt b := by
  refine ⟨h.kept, ?_, ?_, ?_⟩
  · intro i w hw
    rcases getElem?_take hw with hw | rfl
    · exact h.placed i w hw
    · exact hm
  · intro i w hw
    rcases getElem?_take hw with hw | rfl
    · exact h.fits i w hw
    · trivial
  · intro i j w w' hw hw' hholds hholds' hlock
    rcases getElem?_take hw with hw | rfl
    · rcases getElem?_take hw' with hw' | rfl
      · exact h.apart i j w w' hw hw' hholds hholds' hlock
      · cases hholds'
    · cases hholds

theorem Sound.moves (h : P.Sound IsBuilt b) {i : Nat} {w : Worker} {phase : Worker.Phase}
    {site : Site τ} (hw : P.workers[i]? = some w) (halone : P.Alone b i w.module)
    (hadvances : Advances IsBuilt b w.module P.site.disk site.disk w.phase phase) :
    Sound IsBuilt b { site, workers := P.workers.set i { w with phase } } := by
  have hm := h.placed i w hw
  refine ⟨Kept.alters h.kept hadvances.alters ?_ ?_, ?_, ?_, ?_⟩
  · -- What a turn says of its own module goes for all modules at the place.
    intro m hm'
    by_cases hbase : b.base m = b.base w.module
    · exact (Fresh.congr hbase).2 hadvances.fresh
    · have hnot : ∀ e, IsEnding e →
          ¬Touched b P.site.disk w.module (P.site.disk.place (b.file m e)) :=
        fun e he => not_touched hm hm' (Ne.symm hbase) he
      exact (h.kept.fresh m hm').alters hadvances.alters (hnot _ isEnding_source)
        (hnot _ isEnding_library)
  · exact fun m hm' => not_made_library h.kept.direct hm hm'
  · intro j w' hw'
    rcases getElem?_set_cases hw' with ⟨-, rfl⟩ | ⟨-, hw'⟩
    · exact hm
    · exact h.placed j w' hw'
  · intro j w' hw'
    rcases getElem?_set_cases hw' with ⟨-, rfl⟩ | ⟨hne, hw'⟩
    · exact hadvances.fits
    · -- Another worker relies on its files only while it holds its lock, which is another one.
      cases hholds : w'.phase.holds with
      | false => exact Fits.of_not_holds hholds
      | true =>
          have hm' := h.placed j w' hw'
          have hbase : b.base w.module ≠ b.base w'.module := fun hbase =>
            hne (halone j w' hw' hholds ((lock_eq_iff hm hm').2 hbase).symm)
          exact Fits.others hadvances.alters (fun e he => not_touched hm hm' hbase he) hm'
            (h.fits j w' hw')
  · intro j k w' w'' hw' hw'' hholds' hholds'' hlock
    rcases getElem?_set_cases hw' with ⟨rfl, rfl⟩ | ⟨hne, hbefore⟩
    · rcases getElem?_set_cases hw'' with ⟨rfl, rfl⟩ | ⟨hne', hbefore'⟩
      · rfl
      · exact absurd (halone k w'' hbefore' hholds'' hlock.symm) hne'
    · rcases getElem?_set_cases hw'' with ⟨rfl, rfl⟩ | ⟨hne', hbefore'⟩
      · exact halone j w' hbefore hholds' hlock
      · exact h.apart j k w' w'' hbefore hbefore' hholds' hholds'' hlock

theorem Sound.elsewhere (h : P.Sound IsBuilt b) {disk : Disk}
    (halters : Disk.Alters (Outside b P.site.disk) (Outside b P.site.disk) P.site.disk disk) :
    (P.withDisk disk).Sound IsBuilt b := by
  refine ⟨Kept.alters h.kept halters ?_ ?_, h.placed, ?_, h.apart⟩
  · exact fun m hm => (h.kept.fresh m hm).alters halters (outside_not_file hm isEnding_source)
      (outside_not_file hm isEnding_library)
  · exact fun m hm => outside_not_file hm isEnding_library
  · intro i w hw
    have hm := h.placed i w hw
    exact Fits.others halters (fun e he => outside_not_file hm he) hm (h.fits i w hw)

/-- Whatever happens, the plant is sound afterwards. -/
theorem Happens.sound (h : P.Sound IsBuilt b) (hhappens : Happens IsBuilt b P P') :
    P'.Sound IsBuilt b := by
  cases hhappens with
  | takes hm => exact h.take hm
  | moves hw halone hadvances => exact h.moves hw halone hadvances
  | elsewhere halters => exact h.elsewhere halters

/-! ## What a build that has succeeded is good for -/

/-- The library of a module is no older than its source, or about to be. -/
def Warmed (b : Builder τ) (P : Plant τ) (m : GeneratedModule) : Prop :=
  Warm b P.site.disk m ∨ ∃ (i : Nat) (w : Worker) (temporary : Path),
    P.workers[i]? = some w ∧ b.base w.module = b.base m ∧ w.phase = .installs temporary

/-- It remains so as long as the source stays. -/
theorem Happens.warmed (h : P.Sound IsBuilt b) {m : GeneratedModule} (hm : m.Placed)
    (hhappens : Happens IsBuilt b P P')
    (hread : P'.site.disk.read (b.source m) = P.site.disk.read (b.source m))
    (hwarmed : P.Warmed b m) : P'.Warmed b m := by
  cases hhappens with
  | takes hm' =>
      rcases hwarmed with hwarm | ⟨i, w, temporary, hw, hbase, hphase⟩
      · exact .inl hwarm
      · exact .inr ⟨i, w, temporary, getElem?_take_of_some hw, hbase, hphase⟩
  | @moves i w phase site hw halone hadvances =>
      -- The worker itself is at the place, or it is another one.
      have hself : b.base w.module = b.base m →
          (Warm b P.site.disk m ∨ ∃ temporary, w.phase = .installs temporary) →
          Warmed b { site, workers := P.workers.set i { w with phase } } m := by
        intro hbase hready
        rw [← source_congr hbase] at hread
        rw [← Warm.congr hbase] at hready
        rcases hadvances.warm hread hready with hwarm | ⟨temporary, rfl⟩
        · exact .inl ((Warm.congr hbase).1 hwarm)
        · refine .inr ⟨i, { w with phase := .installs temporary }, temporary, ?_, hbase, rfl⟩
          obtain ⟨hlt, -⟩ := List.getElem?_eq_some_iff.1 hw
          exact List.getElem?_set_self hlt
      rcases hwarmed with hwarm | ⟨j, w', temporary, hw', hbase, hphase⟩
      · by_cases hbase : b.base w.module = b.base m
        · exact hself hbase (.inl hwarm)
        · have hm' := h.placed i w hw
          exact .inl ((Warm.alters hadvances.alters (not_touched hm' hm hbase isEnding_source)
            (not_touched hm' hm hbase isEnding_library)).2 hwarm)
      · by_cases hij : j = i
        · subst hij
          rw [hw] at hw'
          cases hw'
          exact hself hbase (.inr ⟨temporary, hphase⟩)
        · refine .inr ⟨j, w', temporary, ?_, hbase, hphase⟩
          exact (List.getElem?_set_ne (Ne.symm hij)).trans hw'
  | elsewhere halters =>
      rcases hwarmed with hwarm | hinstalls
      · exact .inl ((Warm.alters halters (outside_not_file hm isEnding_source)
          (outside_not_file hm isEnding_library)).2 hwarm)
      · exact .inr hinstalls

/-- Where a library is no older than its source, or about to be, no toolchain is at work. -/
theorem Warmed.not_builds (h : P.Sound IsBuilt b) {m : GeneratedModule} (hwarmed : P.Warmed b m)
    {j : Nat} {w : Worker} (hw : P.workers[j]? = some w) (hbase : b.base w.module = b.base m)
    (temporary : Path) : w.phase ≠ .builds temporary := by
  intro hphase
  rcases hwarmed with hwarm | ⟨i, w', temporary', hw', hbase', hphase'⟩
  · have hfits := h.fits j w hw
    rw [hphase] at hfits
    exact hfits.2.2 ((Warm.congr hbase).2 hwarm)
  · have hlock : Worker.lock b w'.module = Worker.lock b w.module :=
      (lock_eq_iff (h.placed i w' hw') (h.placed j w hw)).2 (hbase'.trans hbase.symm)
    have hij := h.apart i j w' w hw' hw (by rw [hphase']; rfl) (by rw [hphase]; rfl) hlock
    subst hij
    rw [hw'] at hw
    cases hw
    rw [hphase] at hphase'
    cases hphase'

/-- A source stays that all workers at the place have. -/
theorem Happens.settled (h : P.Sound IsBuilt b) {m : GeneratedModule} (hm : m.Placed)
    (hhappens : Happens IsBuilt b P P')
    (hsame : ∀ w ∈ P.workers, b.base w.module = b.base m → w.module.source = m.source)
    (hread : P.site.disk.read (b.source m) = .ok m.source) :
    P'.site.disk.read (b.source m) = .ok m.source := by
  cases hhappens with
  | takes hm' => exact hread
  | @moves i w phase site hw halone hadvances =>
      by_cases hbase : b.base w.module = b.base m
      · have hsource := hsame w (List.mem_of_getElem? hw) hbase
        rw [← source_congr hbase, ← hsource] at hread ⊢
        exact hadvances.settled hread
      · obtain ⟨time, hsource⟩ := Disk.read_eq_ok_iff.1 hread
        exact Disk.read_eq_ok_iff.2 ⟨time, hsource.alters hadvances.alters
          (not_touched (h.placed i w hw) hm hbase isEnding_source)⟩
  | elsewhere halters =>
      obtain ⟨time, hsource⟩ := Disk.read_eq_ok_iff.1 hread
      exact Disk.read_eq_ok_iff.2
        ⟨time, hsource.alters halters (outside_not_file hm isEnding_source)⟩

/-! ## Runs -/

/-- A plant at the beginning: nobody is there, and there is nothing in the plugin directory. -/
structure Opens (b : Builder τ) (P : Plant τ) : Prop where
  nobody : P.workers = []
  timely : P.site.disk.Timely
  empty : b.IsEmpty P.site.disk

theorem Opens.sound (h : P.Opens b) (hlogs : b.LogsApart P.site.disk)
    (hdirect : b.IsDirect P.site.disk) : P.Sound IsBuilt b := by
  have hnone : ∀ (i : Nat) (w : Worker), P.workers[i]? ≠ some w := by
    intro i w hw
    rw [h.nobody] at hw
    cases hw
  refine ⟨⟨h.timely, hdirect, hlogs, ?_, ?_⟩, ?_, ?_, ?_⟩
  · intro m hm source time library time' hsource
    have hempty := h.empty _ (isBelow_file _ b hm isEnding_source)
    rw [Disk.file?_eq_some_iff, show b.source m = b.file m sourceEnding from rfl, hempty] at hsource
    cases hsource
  · intro m hm
    obtain ⟨name, names, heq⟩ := isBelow_file P.site.disk b hm isEnding_library
    exact Disk.not_isDirectoryAt_of_node? (h.empty _ ⟨name, names, heq⟩) (by
      rw [show b.library m = b.file m libraryEnding from rfl, heq]
      simp)
  · exact fun i w hw => absurd hw (hnone i w)
  · exact fun i w hw => absurd hw (hnone i w)
  · exact fun i j w w' hw => absurd hw (hnone i w)

theorem Runs.sound (htool : Honest IsBuilt b.toolchain) (hload : b.LoadsQuietly)
    (h : P.Sound IsBuilt b) (hrun : Runs b P P') : P'.Sound IsBuilt b := by
  induction hrun with
  | refl => exact h
  | tail hrun hstep ih => exact Happens.sound ih (happens_of_step htool hload ih hstep)

/-- A run in which the source of a module is not changed. -/
def RunsKeeping (b : Builder τ) (m : GeneratedModule) : Plant τ → Plant τ → Prop :=
  Relation.ReflTransGen fun P P' =>
    Step b P P' ∧ P'.site.disk.read (b.source m) = P.site.disk.read (b.source m)

theorem RunsKeeping.warmed (htool : Honest IsBuilt b.toolchain) (hload : b.LoadsQuietly)
    {m : GeneratedModule} (hm : m.Placed) (h : P.Sound IsBuilt b) (hwarmed : P.Warmed b m)
    (hrun : RunsKeeping b m P P') : P'.Sound IsBuilt b ∧ P'.Warmed b m := by
  -- Both are carried along, since only a sound plant keeps what is warm.
  induction hrun with
  | refl => exact ⟨h, hwarmed⟩
  | tail hrun hstep ih =>
      obtain ⟨hsound, hwarmed'⟩ := ih
      have hhappens := happens_of_step htool hload hsound hstep.1
      exact ⟨hhappens.sound hsound, hhappens.warmed hsound hm hstep.2 hwarmed'⟩

/-- A turn leaves everybody the module that they were taken on for. -/
theorem modules_of_turn? {τ : Type} {b : Builder τ} {i : Nat} {P P' : Plant τ}
    (h : P.turn? b i = some P') :
    P'.workers.map Worker.module = P.workers.map Worker.module := by
  unfold turn? at h
  split at h
  next => cases h
  next w hw =>
      split at h
      next =>
          cases h
          rw [List.map_set]
          refine set_of_getElem? ?_
          rw [List.getElem?_map, hw]
          rfl
      next => cases h

/-- Workers stay, and so do the modules that they were taken on for. -/
theorem Step.modules (hstep : Step b P P') {m : GeneratedModule}
    (hm : m ∈ P.workers.map Worker.module) : m ∈ P'.workers.map Worker.module := by
  cases hstep with
  | takes hordinary hmodule =>
      rw [take, List.map_append]
      exact List.mem_append_left _ hm
  | turns hturn =>
      rw [modules_of_turn? hturn]
      exact hm
  | scribbles hmem hphase halters => exact hm
  | elsewhere halters => exact hm

/-- If all workers at the place want the same source, then it is not changed. -/
theorem Runs.keeping (htool : Honest IsBuilt b.toolchain) (hload : b.LoadsQuietly)
    {m : GeneratedModule} (hm : m.Placed) (h : P.Sound IsBuilt b)
    (hread : P.site.disk.read (b.source m) = .ok m.source) (hrun : Runs b P P')
    (hsame : ∀ w ∈ P'.workers, b.base w.module = b.base m → w.module.source = m.source) :
    RunsKeeping b m P P' ∧ P'.site.disk.read (b.source m) = .ok m.source := by
  induction hrun with
  | refl => exact ⟨.refl, hread⟩
  | @tail Q Q' hrun hstep ih =>
      -- The workers at the end are known, and those who were there before are among them.
      have hbefore : ∀ w ∈ Q.workers, b.base w.module = b.base m → w.module.source = m.source := by
        intro w hw hbase
        obtain ⟨w', hw', hmodule⟩ := List.mem_map.1 (hstep.modules (List.mem_map_of_mem hw))
        rw [← hmodule] at hbase ⊢
        exact hsame w' hw' hbase
      obtain ⟨hkeeping, hread'⟩ := ih hbefore
      have hsound := Runs.sound htool hload h hrun
      have hnow := (happens_of_step htool hload hsound hstep).settled hsound hm hbefore hread'
      exact ⟨hkeeping.tail ⟨hstep, hnow.trans hread'.symm⟩, hnow⟩

/-- The toolchain succeeds in building a module. -/
def Succeeds (b : Builder τ) (m : GeneratedModule) (P P' : Plant τ) : Prop :=
  ∃ i temporary, P.workers[i]? = some ⟨m, .builds temporary⟩ ∧
    (b.toolchain ⟨b.source m, temporary, m.linkArgs⟩ P.site).2 = .ok () ∧ P.turn? b i = some P'

/-- What has been built is about to be moved into place. -/
theorem Succeeds.warmed {m : GeneratedModule} (h : Succeeds b m P P')
    (hsound : P'.Sound IsBuilt b) :
    P'.Warmed b m ∧ P'.site.disk.read (b.source m) = .ok m.source := by
  obtain ⟨i, temporary, hw, hok, hturn⟩ := h
  obtain ⟨hlt, -⟩ := List.getElem?_eq_some_iff.1 hw
  have hnow : P'.workers[i]? = some ⟨m, .installs temporary⟩ := by
    cases hbuild : b.toolchain ⟨b.source m, temporary, m.linkArgs⟩ P.site with
    | mk site result =>
        rw [hbuild] at hok
        dsimp only at hok
        subst hok
        simp only [turn?, hw, mayTurn, Worker.advance, hbuild, if_pos] at hturn
        cases hturn
        exact List.getElem?_set_self hlt
  obtain ⟨-, time, library, time', hsource, -⟩ := hsound.fits i _ hnow
  exact ⟨.inr ⟨i, _, temporary, hnow, rfl, rfl⟩, Disk.read_eq_ok_iff.2 ⟨time, hsource⟩⟩

/--
No two builds for one place overlap; what is loaded was built from the source of the module; and
once a build has succeeded, the toolchain is not at work for that place as long as the content of the
source stays, which it does if all who work there want the same source.
-/
theorem fresh_and_built_once {P₀ : Plant τ} (htool : Honest IsBuilt b.toolchain)
    (hload : b.LoadsQuietly) (hopens : P₀.Opens b) (hlogs : b.LogsApart P₀.site.disk)
    (hdirect : b.IsDirect P₀.site.disk) (hrun : Runs b P₀ P) :
    (∀ (i j : Nat) (w w' : Worker), P.workers[i]? = some w → P.workers[j]? = some w' →
      w.phase.holds = true → w'.phase.holds = true → b.base w.module = b.base w'.module → i = j) ∧
    (∀ w ∈ P.workers, w.phase = .loads →
      ∃ library time, P.site.disk.Has (b.library w.module) library time ∧
        IsBuilt w.module.source library) ∧
    (∀ m P₁ P₂, Succeeds b m P P₁ → RunsKeeping b m P₁ P₂ →
      ∀ w ∈ P₂.workers, b.base w.module = b.base m → ∀ temporary, w.phase ≠ .builds temporary) ∧
    (∀ m P₁ P₂, Succeeds b m P P₁ → Runs b P₁ P₂ →
      (∀ w ∈ P₂.workers, b.base w.module = b.base m → w.module.source = m.source) →
      ∀ w ∈ P₂.workers, b.base w.module = b.base m → ∀ temporary, w.phase ≠ .builds temporary) := by
  have hsound : P.Sound IsBuilt b := Runs.sound htool hload (hopens.sound hlogs hdirect) hrun
  have hsuccess : ∀ {m P₁}, Succeeds b m P P₁ → m.Placed ∧ P₁.Sound IsBuilt b := by
    intro m P₁ hsucceeds
    obtain ⟨i, temporary, hw, -, hturn⟩ := hsucceeds
    exact ⟨hsound.placed i _ hw,
      (happens_of_step htool hload hsound (.turns hturn)).sound hsound⟩
  have hkeeping : ∀ m P₁ P₂, Succeeds b m P P₁ → RunsKeeping b m P₁ P₂ →
      ∀ w ∈ P₂.workers, b.base w.module = b.base m →
        ∀ temporary, w.phase ≠ .builds temporary := by
    intro m P₁ P₂ hsucceeds hkeeping w hw hbase temporary
    obtain ⟨hm, hsound₁⟩ := hsuccess hsucceeds
    obtain ⟨hsound₂, hwarmed⟩ :=
      hkeeping.warmed htool hload hm hsound₁ (hsucceeds.warmed hsound₁).1
    obtain ⟨j, hj⟩ := List.mem_iff_getElem?.1 hw
    exact hwarmed.not_builds hsound₂ hj hbase temporary
  refine ⟨?_, ?_, hkeeping, ?_⟩
  · intro i j w w' hw hw' hholds hholds' hbase
    exact hsound.apart i j w w' hw hw' hholds hholds'
      ((lock_eq_iff (hsound.placed i w hw) (hsound.placed j w' hw')).2 hbase)
  · intro w hw hphase
    obtain ⟨i, hi⟩ := List.mem_iff_getElem?.1 hw
    have hfits := hsound.fits i w hi
    rw [hphase] at hfits
    exact hfits
  · intro m P₁ P₂ hsucceeds hrun₂ hsame
    obtain ⟨hm, hsound₁⟩ := hsuccess hsucceeds
    exact hkeeping m P₁ P₂ hsucceeds
      (hrun₂.keeping htool hload hm hsound₁ (hsucceeds.warmed hsound₁).2 hsame).1

end Invariant

/-! ## Trials -/

section Trials

open Trial

/-- What copying makes of a source. -/
def IsCopy (source : Text) (library : Content) : Prop := library = .text source

/-- The toolchain that copies is honest. -/
theorem honest_copying (refusals : List Trial.Refusal) : Honest IsCopy (copying refusals) := by
  constructor
  · intro job s
    unfold copying
    dsimp only
    split
    next => exact Disk.Alters.refl _ _ _
    next source hread =>
        split
        next => exact Disk.Alters.refl _ _ _
        next =>
            have halters : Disk.Alters (· = s.disk.place job.output) (· = s.disk.place job.output)
                s.disk (s.disk.copy job.source job.output).1 := by
              unfold Disk.copy
              split
              next => exact Disk.Alters.refl _ _ _
              next => exact Disk.Alters.refl _ _ _
              next => exact (s.disk.alters_write _ _).of_nowhere
            unfold Site.change
            dsimp only
            split
            next heq =>
                rw [heq] at halters
                exact halters
            next heq =>
                rw [heq] at halters
                exact halters
  · intro job s s' source hbuild hread
    obtain ⟨time, hsource⟩ := Disk.read_eq_ok_iff.1 hread
    have hcopy : s.disk.copy job.source job.output = s.disk.write job.output (.text source) := by
      rw [Disk.copy, hsource]
    unfold copying at hbuild
    dsimp only at hbuild
    rw [hread] at hbuild
    dsimp only at hbuild
    split at hbuild
    next => cases hbuild
    next =>
        unfold Site.change at hbuild
        dsimp only at hbuild
        rw [hcopy] at hbuild
        cases hwrite : s.disk.write job.output (.text source) with
        | mk disk result =>
            rw [hwrite] at hbuild
            cases result with
            | error fault => cases hbuild
            | ok done =>
                cases hbuild
                exact ⟨.text source, s.disk.clock, Disk.nodeAt_of_write hwrite, rfl, Nat.le_refl _⟩

/-- A builder with the tools for trials. -/
def trialBuilder (timingLog : Option Path) (plugins : Path) : Builder Memory where
  settings := { timingLog, home := [] }
  plugins
  toolchain := copying []
  loader := reading .diligent

theorem loadsQuietly_trialBuilder (timingLog : Option Path) (plugins : Path) :
    (trialBuilder timingLog plugins).LoadsQuietly := by
  intro p s
  have hdisk : ((trialBuilder timingLog plugins).loader p s).1.disk = s.disk :=
    disk_reading .diligent p s
  rw [hdisk]
  exact Disk.Alters.refl _ _ _

/-- An empty directory to work in. -/
def trialStart : Plant Memory := { site := emptySite 0 1 }

/-- The plant after turns of the workers with these numbers. -/
def turns {τ : Type} (b : Builder τ) : List Nat → Plant τ → Option (Plant τ)
  | [], P => some P
  | i :: is, P => (P.turn? b i).bind (turns b is)

theorem runs_of_turns {τ : Type} {b : Builder τ} {is : List Nat} {P P' : Plant τ}
    (h : turns b is P = some P') : Runs b P P' := by
  induction is generalizing P with
  | nil =>
      cases h
      exact .refl
  | cons i is ih =>
      obtain ⟨Q, hturn, hturns⟩ := Option.bind_eq_some_iff.1 h
      exact .head (.turns hturn) (ih hturns)

theorem modules_of_turns {τ : Type} {b : Builder τ} {is : List Nat} {P P' : Plant τ}
    (h : turns b is P = some P') :
    P'.workers.map Worker.module = P.workers.map Worker.module := by
  induction is generalizing P with
  | nil =>
      cases h
      rfl
  | cons i is ih =>
      obtain ⟨Q, hturn, hturns⟩ := Option.bind_eq_some_iff.1 h
      exact (ih hturns).trans (modules_of_turn? hturn)

/-- An operation without operands. -/
def trialOrder : Order := .operation "f".toList []

/-- Two workers take the same order, and then they take turns. -/
def trial (b : Builder Memory) (is : List Nat) : Option (Plant Memory) :=
  match trialOrder.module with
  | .ok m => turns b is ((trialStart.take m).take m)
  | .error _ => none

/-- What is in the trials, once the workers have taken their turns. -/
theorem runs_of_trial {b : Builder Memory} {is : List Nat} {P : Plant Memory}
    (h : trial b is = some P) :
    Runs b trialStart P ∧ ∃ m, ∀ w ∈ P.workers, w.module = m := by
  unfold trial at h
  split at h
  next m hm =>
      have hordinary : trialOrder.Ordinary := ⟨by decide, by decide, by decide⟩
      have hrun := runs_of_turns h
      refine ⟨.head (.takes hordinary hm) (.head (.takes hordinary hm) hrun), m, ?_⟩
      intro w hw
      have hmem := List.mem_map_of_mem (f := Worker.module) hw
      rw [modules_of_turns h] at hmem
      simpa [take, trialStart] using hmem
  next => cases h

theorem opens_trialStart {b : Builder Memory}
    (hempty : ∀ entry ∈ trialStart.site.disk.nodes,
      ¬trialStart.site.disk.place b.plugins <+: entry.1) : trialStart.Opens b where
  nobody := rfl
  timely := by
    intro q node hnode
    have hall : ∀ entry ∈ trialStart.site.disk.nodes,
        entry.2.time < trialStart.site.disk.clock := by decide +kernel
    exact hall _ (Table.mem_of_get? hnode)
  empty := by
    rintro q ⟨name, names, rfl⟩
    refine Option.eq_none_iff_forall_ne_some.2 fun node hnode => ?_
    exact hempty _ (Table.mem_of_get? hnode) (List.prefix_append _ _)

/-- Whether a worker is about to load. -/
def isLoading (w : Worker) : Bool :=
  match w.phase with
  | .loads => true
  | _ => false

theorem loads_of_isLoading {w : Worker} (h : isLoading w = true) : w.phase = .loads := by
  unfold isLoading at h
  split at h
  next heq => exact heq
  next => cases h

/-- The output of the toolchain that is at work for a worker. -/
def output? (w : Worker) : Option Path :=
  match w.phase with
  | .builds temporary => some temporary
  | _ => none

theorem builds_of_output? {w : Worker} {temporary : Path} (h : output? w = some temporary) :
    w.phase = .builds temporary := by
  unfold output? at h
  split at h
  next heq =>
      cases h
      exact heq
  next => cases h

/-- Whether the toolchain that is at work for the first worker is about to succeed. -/
def isSucceeding (b : Builder Memory) (P : Plant Memory) : Bool :=
  P.workers[0]?.any fun w => (output? w).any fun temporary =>
    (b.toolchain ⟨b.source w.module, temporary, w.module.linkArgs⟩ P.site).2.isOk

theorem succeeds_of_isSucceeding {b : Builder Memory} {P P' : Plant Memory}
    (h : isSucceeding b P = true) (hturn : P.turn? b 0 = some P') :
    ∃ w ∈ P.workers, Succeeds b w.module P P' := by
  obtain ⟨w, hw, h⟩ := (Option.any_eq_true _ _).1 h
  obtain ⟨temporary, houtput, hok⟩ := (Option.any_eq_true _ _).1 h
  refine ⟨w, List.mem_of_getElem? hw, 0, temporary, ?_, ?_, hturn⟩
  · rw [hw, ← builds_of_output? houtput]
  · generalize (b.toolchain ⟨b.source w.module, temporary, w.module.linkArgs⟩ P.site).2 = result at hok
    cases result with
    | ok done => rfl
    | error e => cases hok

/--
The first worker builds the module and the second one takes its turns after that: what becomes of
the two, if a check of the plant at the end says so.
-/
theorem succeeds_of_trial {b : Builder Memory} {is js : List Nat} {check : Plant Memory → Bool}
    (h : ((trial b is).any fun P =>
      isSucceeding b P && (turns b (0 :: js) P).any check) = true) :
    ∃ P P₁ P₂ m, Runs b trialStart P ∧ Succeeds b m P P₁ ∧ Runs b P₁ P₂ ∧
      (∀ w ∈ P₂.workers, w.module = m) ∧ check P₂ = true := by
  obtain ⟨P, hP, h⟩ := (Option.any_eq_true _ _).1 h
  obtain ⟨hsucceeding, h⟩ := Bool.and_eq_true_iff.1 h
  obtain ⟨P₂, hP₂, hcheck⟩ := (Option.any_eq_true _ _).1 h
  obtain ⟨hrun, m, hm⟩ := runs_of_trial hP
  obtain ⟨P₁, hturn, hturns⟩ := Option.bind_eq_some_iff.1 hP₂
  obtain ⟨w, hw, hsucceeds⟩ := succeeds_of_isSucceeding hsucceeding hturn
  rw [hm w hw] at hsucceeds
  refine ⟨P, P₁, P₂, m, hrun, hsucceeds, runs_of_turns hturns, ?_, hcheck⟩
  intro w' hw'
  have hmem := List.mem_map_of_mem (f := Worker.module) hw'
  rw [modules_of_turns hP₂] at hmem
  obtain ⟨w'', hw'', hmodule⟩ := List.mem_map.1 hmem
  rw [← hmodule, hm w'' hw'']

/--
Two workers ask for one operation.  Once the build of the first one has succeeded, the second one
only loads.
-/
theorem fresh_and_built_once_in_trial :
    ∃ (P P₁ P₂ : Plant Memory) (m : GeneratedModule),
      Runs (trialBuilder none "p".toList) trialStart P ∧
      Succeeds (trialBuilder none "p".toList) m P P₁ ∧
      Runs (trialBuilder none "p".toList) P₁ P₂ ∧
      (∀ w ∈ P₂.workers, w.module = m ∧ ∀ temporary, w.phase ≠ .builds temporary) ∧
      ∃ w ∈ P₂.workers, w.phase = .loads ∧
        ∃ library time, P₂.site.disk.Has ((trialBuilder none "p".toList).library m) library time ∧
          library = .text m.source := by
  have htarget : trialStart.site.disk.target "p".toList =
      .ok (.absent ["tmp".toList, "work".toList] "p".toList false) := by decide +kernel
  have hopens : trialStart.Opens (trialBuilder none "p".toList) :=
    opens_trialStart (by decide +kernel)
  have hdirect : (trialBuilder none "p".toList).IsDirect trialStart.site.disk :=
    isDirect_of_target hopens.empty htarget
  have hlogs : (trialBuilder none "p".toList).LogsApart trialStart.site.disk := by
    rintro log ⟨⟩
  have hcheck : ((trial (trialBuilder none "p".toList) (List.replicate 14 0)).any fun P =>
      isSucceeding (trialBuilder none "p".toList) P &&
        (turns (trialBuilder none "p".toList)
          (0 :: (List.replicate 3 0 ++ List.replicate 10 1)) P).any
          fun P₂ => P₂.workers.any isLoading) = true := by decide +kernel
  obtain ⟨P, P₁, P₂, m, hrun, hsucceeds, hrun₂, hm, hloading⟩ := succeeds_of_trial hcheck
  obtain ⟨w, hw, hw'⟩ := List.any_eq_true.1 hloading
  have hphase := loads_of_isLoading hw'
  have hall : Runs (trialBuilder none "p".toList) trialStart P₂ := by
    obtain ⟨i, temporary, -, -, hturn⟩ := hsucceeds
    exact hrun.trans (.head (.turns hturn) hrun₂)
  have hbuilt := (fresh_and_built_once (honest_copying []) (loadsQuietly_trialBuilder none _) hopens
    hlogs hdirect hrun).2.2.2 m P₁ P₂ hsucceeds hrun₂ fun w hw _ => by rw [hm w hw]
  have hfresh := (fresh_and_built_once (honest_copying []) (loadsQuietly_trialBuilder none _) hopens
    hlogs hdirect hall).2.1 w hw hphase
  rw [hm w hw] at hfresh
  exact ⟨P, P₁, P₂, m, hrun, hsucceeds, hrun₂,
    fun w hw => ⟨hm w hw, hbuilt w hw (by rw [hm w hw])⟩, w, hw, hphase, hfresh⟩

/-- A builder whose log of times is where the library of the trials belongs. -/
def carelessBuilder : Builder Memory := trialBuilder (some "p/algos/f/().so".toList) "p".toList

/-- A builder whose plugin directory is reached by way of the library of the trials. -/
def roundaboutBuilder : Builder Memory := trialBuilder none "p/algos/f/().so/../../..".toList

/--
Neither the assumption about the log of times nor the one about the path of the plugin directory can
be left out: a library is loaded that has grown a line since it was built, and a module is built
again although the build has succeeded before and the source is the same.
-/
theorem stale_or_built_again :
    (carelessBuilder.LoadsQuietly ∧ Honest IsCopy carelessBuilder.toolchain ∧
      trialStart.Opens carelessBuilder ∧ carelessBuilder.IsDirect trialStart.site.disk ∧
      ∃ P, Runs carelessBuilder trialStart P ∧ ∃ w ∈ P.workers, w.phase = .loads ∧
        ∀ library time, P.site.disk.Has (carelessBuilder.library w.module) library time →
          ¬IsCopy w.module.source library) ∧
    (roundaboutBuilder.LoadsQuietly ∧ Honest IsCopy roundaboutBuilder.toolchain ∧
      trialStart.Opens roundaboutBuilder ∧ roundaboutBuilder.LogsApart trialStart.site.disk ∧
      ∃ P P₁ P₂ m, Runs roundaboutBuilder trialStart P ∧ Succeeds roundaboutBuilder m P P₁ ∧
        Runs roundaboutBuilder P₁ P₂ ∧ (∀ w ∈ P₂.workers, w.module = m) ∧
        ∃ w ∈ P₂.workers, ∃ temporary, w.phase = .builds temporary) := by
  refine ⟨⟨loadsQuietly_trialBuilder _ _, honest_copying [], opens_trialStart (by decide +kernel),
    ?_, ?_⟩, ⟨loadsQuietly_trialBuilder _ _, honest_copying [], opens_trialStart (by decide +kernel),
    ?_, ?_⟩⟩
  · have htarget : trialStart.site.disk.target "p".toList =
        .ok (.absent ["tmp".toList, "work".toList] "p".toList false) := by decide +kernel
    exact isDirect_of_target (opens_trialStart (by decide +kernel)).empty htarget
  · have hcheck : ((trial carelessBuilder (List.replicate 17 0)).any fun P => P.workers.any fun w =>
        isLoading w &&
          !P.site.disk.holds (carelessBuilder.library w.module) w.module.source) = true := by
      decide +kernel
    obtain ⟨P, hP, h⟩ := (Option.any_eq_true _ _).1 hcheck
    obtain ⟨w, hw, h⟩ := List.any_eq_true.1 h
    obtain ⟨hloading, hholds⟩ := Bool.and_eq_true_iff.1 h
    refine ⟨P, (runs_of_trial hP).1, w, hw, loads_of_isLoading hloading, ?_⟩
    rintro library time hhas rfl
    rw [Disk.holds_iff.2 (Disk.read_eq_ok_iff.2 ⟨time, hhas⟩)] at hholds
    cases hholds
  · rintro log ⟨⟩
  · have hcheck : ((trial roundaboutBuilder (List.replicate 31 0)).any fun P =>
        isSucceeding roundaboutBuilder P &&
          (turns roundaboutBuilder (0 :: (List.replicate 1 0 ++ List.replicate 11 1)) P).any
            fun P₂ => P₂.workers.any fun w => (output? w).isSome) = true := by decide +kernel
    obtain ⟨P, P₁, P₂, m, hrun, hsucceeds, hrun₂, hm, hbuilding⟩ := succeeds_of_trial hcheck
    obtain ⟨w, hw, hw'⟩ := List.any_eq_true.1 hbuilding
    obtain ⟨temporary, houtput⟩ := Option.isSome_iff_exists.1 hw'
    exact ⟨P, P₁, P₂, m, hrun, hsucceeds, hrun₂, hm, w, hw, temporary,
      builds_of_output? houtput⟩

end Trials

end Plant
end OnDemand
