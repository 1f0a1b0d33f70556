import OnDemand.Proofs.Native.Workers

/-!
# Plants

A plant is a site with the workers at it.  It takes orders, its workers take turns, a toolchain at
work may write to its output, and things happen outside of the plugin directory.  The second half of
this module says where the files of a module are: below the plugin directory, apart from the files
of all other modules, and out of the way of all directories.
-/

namespace OnDemand

open Plugin

/-! ## Orders -/

/-- What is asked for. -/
inductive Order where
  | operation (name : Text) (signature : Signature)
  | context (text : Text)

namespace Order

/-- The module that is built for an order. -/
def module : Order → Except GenerationError GeneratedModule
  | .operation name signature => GeneratedModule.ofAlgorithm name signature
  | .context text => GeneratedModule.ofContext text

/-- An order whose operation, if it is for one, has an ordinary name. -/
def Ordinary : Order → Prop
  | .operation name _ => IsOrdinary name
  | .context _ => True

end Order

/-! ## Assumptions -/

section Assumptions

variable {τ : Type}

/--
A toolchain that touches its output at most, and that leaves a library there when it succeeds, which
it has built from what the source holds.
-/
structure Honest (IsBuilt : Text → Content → Prop) (toolchain : Toolchain τ) : Prop where
  touches : ∀ job s, Disk.Alters (· = s.disk.place job.output) (· = s.disk.place job.output) s.disk
    (toolchain job s).1.disk
  builds : ∀ job s s' source, toolchain job s = (s', .ok ()) →
    s.disk.read job.source = .ok source →
    ∃ library time, s'.disk.nodeAt job.output =
        .ok (s.disk.place job.output, .file library time) ∧
      IsBuilt source library ∧ s.disk.clock ≤ time

/-- What lies outside of the plugin directory, which may be touched by anybody. -/
def Outside (b : Builder τ) (d : Disk) (q : Place) : Prop := ¬Disk.IsBelow (d.place b.plugins) q

/-- A loader that touches nothing in the plugin directory. -/
def Builder.LoadsQuietly (b : Builder τ) : Prop :=
  ∀ p s, Disk.Alters (Outside b s.disk) (Outside b s.disk) s.disk (b.loader p s).1.disk

/-- The path of the plugin directory does not lead through what is in the directory. -/
def Builder.IsDirect (b : Builder τ) (d : Disk) : Prop :=
  ∀ front, front <+: Path.steps b.plugins →
    Outside b d (front.foldl Disk.follow (d.startOf b.plugins))

/-- There is nothing in the plugin directory. -/
def Builder.IsEmpty (b : Builder τ) (d : Disk) : Prop :=
  ∀ q, Disk.IsBelow (d.place b.plugins) q → d.node? q = none

/--
If the path of the plugin directory leads anywhere while there is nothing in the directory, it does
not lead through what will be in it.
-/
theorem isDirect_of_target {b : Builder τ} {d : Disk} {t : Disk.Target} (hempty : b.IsEmpty d)
    (h : d.target b.plugins = .ok t) : b.IsDirect d := by
  intro front hfront hbelow
  by_cases hall : front = Path.steps b.plugins
  · subst hall
    obtain ⟨name, names, heq⟩ := hbelow
    have hnil := List.self_eq_append_right.1 heq
    cases hnil
  · have hdirectory := Disk.walk_through (Disk.target_eq_ok h).2.2.2 hfront hall
    have hnone := hempty _ hbelow
    obtain ⟨name, names, heq⟩ := hbelow
    rcases Disk.node?_of_isDirectoryAt hdirectory with hnil | ⟨time, hnode⟩
    · rw [hnil] at heq
      simp at heq
    · rw [hnode] at hnone
      cases hnone

end Assumptions

/-! ## Plants -/

/-- A site and the workers at it. -/
structure Plant (τ : Type) where
  site : Site τ
  workers : List Worker := []

namespace Plant

section Steps

variable {τ : Type}

/-- The plant with another worker, for a module that has been asked for. -/
def take (P : Plant τ) (m : GeneratedModule) : Plant τ :=
  { P with workers := P.workers ++ [{ module := m }] }

/-- The plant with another disk. -/
def withDisk (P : Plant τ) (disk : Disk) : Plant τ := { P with site := { P.site with disk } }

/-- Whether a worker can go on: it may take its lock, if it waits for that, and it is not done. -/
def mayTurn (b : Builder τ) (P : Plant τ) (w : Worker) : Bool :=
  match w.phase with
  | .waits => P.workers.all fun other =>
    !(other.phase.holds && decide (Worker.lock b other.module = Worker.lock b w.module))
  | .done _ => false
  | _ => true

/-- The plant after a turn of a worker, if there is that worker and it can go on. -/
def turn? (b : Builder τ) (P : Plant τ) (i : Nat) : Option (Plant τ) :=
  match P.workers[i]? with
  | none => none
  | some w =>
    if P.mayTurn b w then
      let (phase, site) := Worker.advance b w.module P.site w.phase
      some { site, workers := P.workers.set i { w with phase } }
    else none

/-- What happens at a plant. -/
inductive Step (b : Builder τ) : Plant τ → Plant τ → Prop
  | takes {P : Plant τ} {order : Order} {m : GeneratedModule} :
    order.Ordinary → order.module = .ok m → Step b P (P.take m)
  | turns {P P' : Plant τ} {i : Nat} : P.turn? b i = some P' → Step b P P'
  /-- A toolchain at work touches its output. -/
  | scribbles {P : Plant τ} {w : Worker} {temporary : Path} {disk : Disk} :
    w ∈ P.workers → w.phase = .builds temporary →
      Disk.Alters (· = P.site.disk.place temporary) (· = P.site.disk.place temporary)
        P.site.disk disk →
      Step b P (P.withDisk disk)
  /-- Something happens outside of the plugin directory. -/
  | elsewhere {P : Plant τ} {disk : Disk} :
    Disk.Alters (Outside b P.site.disk) (Outside b P.site.disk) P.site.disk disk →
      Step b P (P.withDisk disk)

/-- A run of a plant. -/
def Runs (b : Builder τ) : Plant τ → Plant τ → Prop := Relation.ReflTransGen (Step b)

end Steps

end Plant

/-! ## Endings of temporary files -/

namespace Plugin

/-- An ending of a temporary file, which is longer than the endings of sources and modules. -/
structure IsTemporary (e : Text) : Prop extends IsEnding e where
  long : 3 < e.length

theorem isEnding_source : IsEnding sourceEnding := ⟨rfl, by decide⟩

theorem isEnding_library : IsEnding libraryEnding := ⟨rfl, by decide⟩

theorem IsTemporary.ne_source {e : Text} (h : IsTemporary e) : e ≠ sourceEnding := by
  rintro rfl
  exact absurd h.long (by decide)

theorem IsTemporary.ne_library {e : Text} (h : IsTemporary e) : e ≠ libraryEnding := by
  rintro rfl
  exact absurd h.long (by decide)

theorem IsTemporary.shorter {e : Text} (h : IsTemporary e) :
    Text.byteSize sourceEnding ≤ Text.byteSize e ∧
      Text.byteSize libraryEnding ≤ Text.byteSize e := by
  have hbytes := Nat.le_trans (Nat.le_of_lt h.long) (Text.length_le_byteSize e)
  exact ⟨hbytes, hbytes⟩

/-- What a number is made of may be part of an ending. -/
theorem isFree_ofNat (n : Nat) : (Text.ofNat n).all isFree = true := by
  refine List.all_eq_true.2 fun c hc => ?_
  have hdigit : c.isDigit = true := Nat.isDigit_of_mem_toDigits (by decide) (by decide) hc
  simp only [isFree, isClosing, Bool.and_eq_true, Bool.not_eq_true', Bool.or_eq_false_iff,
    beq_eq_false_iff_ne, bne_iff_ne]
  refine ⟨⟨⟨?_, ?_⟩, ?_⟩, ?_⟩
  all_goals
    rintro rfl
    exact absurd hdigit (by decide)

/-- The endings of temporary names, `front` being what the name has after its base already. -/
theorem isTemporary_ending {front extension : Text} (process serial : Nat)
    (hfront : front = [] ∨ front = sourceEnding)
    (hextension : extension = "tmp".toList ∨ extension = libraryExtension) :
    IsTemporary
      (front ++ '.' :: Text.ofNat process ++ '.' :: Text.ofNat serial ++ '.' :: extension) := by
  have hdot : isFree '.' = true := by decide
  have hfront' : front.all isFree = true := by
    rcases hfront with rfl | rfl
    · rfl
    · decide
  have hextension' : extension.all isFree = true ∧ 2 ≤ extension.length := by
    rcases hextension with rfl | rfl
    · decide
    · decide
  refine ⟨⟨?_, ?_⟩, ?_⟩
  · rcases hfront with rfl | rfl
    · rfl
    · rfl
  · simp only [List.all_append, List.all_cons, hfront', hdot, isFree_ofNat, hextension'.1,
      Bool.and_true]
  · have hlength := hextension'.2
    simp only [List.length_append, List.length_cons]
    omega

end Plugin

/-! ## The files of a module -/

/-- A module that has the place of one that somebody may order. -/
def GeneratedModule.Placed (m : GeneratedModule) : Prop :=
  ∃ way leaf, Seated m.base way leaf ∧ Spelled way leaf

theorem Order.placed {order : Order} {m : GeneratedModule} (hordinary : order.Ordinary)
    (h : order.module = .ok m) : m.Placed := by
  cases order with
  | operation name signature => exact GeneratedModule.seated_of_ofAlgorithm hordinary h
  | context text => exact GeneratedModule.seated_of_ofContext h

/-- The path of a file of a module, by its ending. -/
def Builder.file {τ : Type} (b : Builder τ) (m : GeneratedModule) (e : Text) : Path :=
  Path.withEnding (b.base m) e

section Files

variable {τ : Type} {b : Builder τ} {m m' : GeneratedModule} {d : Disk} {way : List Text}
  {leaf e e' : Text}

/-- The path of a module has the name of the module at its end. -/
theorem base_cut (b : Builder τ) (h : Seated m.base way leaf) :
    ∃ front, b.base m = front ++ '/' :: leaf ∧
      Path.steps front = Path.steps b.plugins ++ way ∧
      Path.isAbsolute (b.base m) = Path.isAbsolute b.plugins := by
  obtain ⟨front, hbase, hnamed, hsteps⟩ := h.front
  have habsolute := hnamed.isAbsolute
  have hempty : front ≠ [] := by
    obtain ⟨c, rest, rfl, -⟩ := hnamed
    simp
  refine ⟨Path.join b.plugins front, ?_, ?_, ?_⟩
  · rw [Builder.base, hbase, Path.join_append _ hempty habsolute]
  · rw [Path.steps_join _ habsolute, hsteps]
  · rw [Builder.base, hbase]
    exact Path.isAbsolute_join _ ((Path.isAbsolute_append hempty _).trans habsolute)

theorem slash_not_mem_file (h : '/' ∉ leaf) (he : IsEnding e) : '/' ∉ leaf ++ e := by
  rw [List.mem_append, not_or]
  exact ⟨h, he.slash_not_mem⟩

theorem steps_file (b : Builder τ) (h : Seated m.base way leaf) (he : IsEnding e) :
    Path.steps (b.file m e) = Path.steps b.plugins ++ (way ++ [leaf ++ e]) ∧
      Path.isAbsolute (b.file m e) = Path.isAbsolute b.plugins := by
  obtain ⟨front, hbase, hsteps, habsolute⟩ := base_cut b h
  have hne : b.base m ≠ [] := by
    rw [hbase]
    simp
  refine ⟨?_, (Path.isAbsolute_append hne e).trans habsolute⟩
  rw [Builder.file, Path.withEnding, hbase, List.append_assoc, List.cons_append,
    Path.steps_append_slash, hsteps,
    Path.steps_of_not_mem (slash_not_mem_file h.flat he) (isName_append_ending h.closed e).1,
    List.append_assoc]

/-- A file of a module lies at the end of the way below the plugin directory. -/
theorem place_file (d : Disk) (b : Builder τ) (h : Seated m.base way leaf) (he : IsEnding e) :
    d.place (b.file m e) = d.place b.plugins ++ (way ++ [leaf ++ e]) := by
  obtain ⟨hsteps, habsolute⟩ := steps_file b h he
  have hdown : "..".toList ∉ way ++ [leaf ++ e] := by
    rw [List.mem_append, List.mem_singleton, not_or]
    exact ⟨h.down, Ne.symm (isName_append_ending h.closed e).2⟩
  rw [Disk.place, hsteps, List.foldl_append, Disk.startOf, habsolute, Disk.foldl_follow hdown]
  rfl

theorem isBelow_file (d : Disk) (b : Builder τ) (hm : m.Placed) (he : IsEnding e) :
    Disk.IsBelow (d.place b.plugins) (d.place (b.file m e)) := by
  obtain ⟨way, leaf, hseated, -⟩ := hm
  rw [place_file d b hseated he]
  exact Disk.isBelow_append (by simp)

/-- A place that is not that of a file of a module. -/
def Spare (b : Builder τ) (d : Disk) (q : Place) : Prop :=
  ∀ m : GeneratedModule, m.Placed → ∀ e, IsEnding e → q ≠ d.place (b.file m e)

/-- All files of modules lie in the plugin directory. -/
theorem Outside.spare {q : Place} (h : Outside b d q) : Spare b d q := by
  rintro m hm e he rfl
  exact h (isBelow_file d b hm he)

/-- The log of times, if there is one, is not at the place of a file of a module. -/
def Builder.LogsApart (b : Builder τ) (d : Disk) : Prop :=
  ∀ log, b.settings.timingLog = some log → Spare b d (d.place log)

/-- Files at one place belong to one module and have one ending. -/
theorem file_inj (hm : m.Placed) (hm' : m'.Placed) (he : IsEnding e) (he' : IsEnding e')
    (h : d.place (b.file m e) = d.place (b.file m' e')) : b.base m = b.base m' ∧ e = e' := by
  obtain ⟨way, leaf, hseated, -⟩ := hm
  obtain ⟨way', leaf', hseated', -⟩ := hm'
  rw [place_file d b hseated he, place_file d b hseated' he'] at h
  obtain ⟨rfl, hname⟩ := List.append_inj' (List.append_cancel_left h) rfl
  obtain ⟨rfl, rfl⟩ := append_ending_inj hseated.closed hseated'.closed he he'
    (List.singleton_inj.1 hname)
  refine ⟨?_, rfl⟩
  rw [Builder.base, hseated.written, ← hseated'.written, Builder.base]

/-- Modules have one lock if and only if they have one place. -/
theorem lock_eq_iff (hm : m.Placed) (hm' : m'.Placed) :
    Worker.lock b m = Worker.lock b m' ↔ b.base m = b.base m' := by
  have hlock : ∀ {m : GeneratedModule} {way : List Text} {leaf : Text}, Seated m.base way leaf →
      Worker.lock b m = Path.components b.plugins ++ (way ++ [leaf]) := by
    intro m way leaf hseated
    obtain ⟨front, hbase, hnamed, hsteps⟩ := hseated.front
    have hname := isName_append_ending hseated.closed []
    rw [List.append_nil] at hname
    have hbegins : Path.BeginsNamed m.base := by
      obtain ⟨c, rest, rfl, hc, hdot⟩ := hnamed
      exact ⟨c, _, hbase, hc, hdot⟩
    rw [Worker.lock, Builder.base, Path.components_join _ hbegins, hbase,
      Path.steps_append_slash, hsteps, Path.steps_of_not_mem hseated.flat hname.1]
  obtain ⟨way, leaf, hseated, -⟩ := hm
  obtain ⟨way', leaf', hseated', -⟩ := hm'
  constructor
  · intro h
    rw [hlock hseated, hlock hseated'] at h
    rw [Builder.base, hseated.written, List.append_cancel_left h, ← hseated'.written, Builder.base]
  · exact fun h => congrArg Path.components h

/-! ## Directories for a module -/

/-- A directory that the path of a module passes through. -/
def OnWay (b : Builder τ) (m : GeneratedModule) (p : Path) : Prop :=
  Path.steps p <+: (Path.steps (b.source m)).dropLast ∧
    Path.isAbsolute p = Path.isAbsolute (b.source m)

theorem onWay_ancestors {dir p : Path} (hdir : Path.parent? (b.source m) = some dir)
    (hp : p ∈ Disk.ancestors dir) : OnWay b m p := by
  obtain ⟨hsteps, habsolute⟩ := Path.steps_parent? hdir
  obtain ⟨hsteps', habsolute'⟩ := Path.steps_of_mem_ancestors hp
  rw [hsteps] at hsteps'
  exact ⟨hsteps', habsolute'.trans habsolute⟩

/-- Such a directory lies outside of the plugin directory, or on the way from there. -/
theorem OnWay.place {p : Path} (hdirect : b.IsDirect d) (hseated : Seated m.base way leaf)
    (h : OnWay b m p) :
    Outside b d (d.place p) ∨ ∃ front, front <+: way ∧ d.place p = d.place b.plugins ++ front := by
  obtain ⟨hsteps, habsolute⟩ := h
  obtain ⟨hsource, habsolute'⟩ := steps_file b hseated isEnding_source
  have hstart : d.startOf p = d.startOf b.plugins := by
    rw [Disk.startOf, habsolute, Disk.startOf]
    exact congrArg (fun absolute : Bool => if absolute then [] else d.here) habsolute'
  have hprefix : Path.steps p <+: Path.steps b.plugins ++ way := by
    have hdropLast : (Path.steps (b.source m)).dropLast = Path.steps b.plugins ++ way := by
      rw [show b.source m = b.file m sourceEnding from rfl, hsource, ← List.append_assoc,
        List.dropLast_concat]
    rw [← hdropLast]
    exact hsteps
  -- The directory is on the way to the plugin directory, or on the way from there.
  rcases List.prefix_or_prefix_of_prefix hprefix (List.prefix_append _ _) with hshort | hlong
  · left
    rw [Disk.place, hstart]
    exact hdirect _ hshort
  · obtain ⟨front, hfront⟩ := hlong
    rw [← hfront] at hprefix
    have hway := (List.prefix_append_right_inj _).1 hprefix
    refine .inr ⟨front, hway, ?_⟩
    rw [Disk.place, ← hfront, List.foldl_append, hstart,
      Disk.foldl_follow fun hmem => hseated.down (hway.subset hmem)]
    rfl

/-- No built module is where another module needs a directory. -/
theorem OnWay.ne_library {p : Path} (hdirect : b.IsDirect d) (hm : m.Placed) (hm' : m'.Placed)
    (h : OnWay b m p) : d.place p ≠ d.place (b.library m') := by
  intro heq
  have hbelow := isBelow_file d b hm' isEnding_library
  obtain ⟨way, leaf, hseated, hspelled⟩ := hm
  obtain ⟨way', leaf', hseated', hspelled'⟩ := hm'
  -- Below the plugin directory it would be a name of a library that goes on as another name does.
  rcases h.place hdirect hseated with houtside | ⟨front, hfront, hplace⟩
  · rw [heq] at houtside
    exact houtside hbelow
  · have hfile := place_file d b hseated' isEnding_library
    rw [show b.file m' libraryEnding = b.library m' from rfl, ← heq, hplace] at hfile
    rw [List.append_cancel_left hfile] at hfront
    exact hspelled'.apart hspelled hfront

/-! ## Siblings among the files of a module -/

/-- The files of a module have their names in one directory. -/
theorem file_cut (b : Builder τ) (hm : m.Placed) :
    ∃ front leaf, Closed leaf ∧ '/' ∉ leaf ∧ ∀ e, b.file m e = front ++ '/' :: (leaf ++ e) := by
  obtain ⟨way, leaf, hseated, -⟩ := hm
  obtain ⟨front, hbase, -, -⟩ := base_cut b hseated
  refine ⟨front, leaf, hseated.closed, hseated.flat, fun e => ?_⟩
  rw [Builder.file, Path.withEnding, hbase, List.append_assoc, List.cons_append]

/-- What the path of a file leads to is there. -/
theorem node?_file {q : Place} {node : Node} (hm : m.Placed) (he : IsEnding e)
    (h : d.nodeAt (b.file m e) = .ok (q, node)) :
    q = d.place (b.file m e) ∧ d.node? q = some node := by
  obtain ⟨front, leaf, hclosed, hflat, hcut⟩ := file_cut b hm
  unfold Disk.nodeAt at h
  split at h
  next => cases h
  next => cases h
  next end' htarget =>
      injection h with h
      injection h with hplace hnode
      subst hplace
      refine ⟨Disk.target_place htarget, ?_⟩
      have hwalk := (Disk.target_eq_ok htarget).2.2.2
      rw [hcut, Text.splitAt_append_self,
        Text.splitAt_of_not_mem (slash_not_mem_file hflat he)] at hwalk
      have hname := isName_append_ending hclosed e
      obtain ⟨node', hnode'⟩ :=
        Option.isSome_iff_exists.1 (Disk.walk_present_of_last hname.1 hname.2 hwalk)
      rw [hnode'] at hnode ⊢
      exact congrArg some hnode

section Siblings

variable {q : Place} {content content' : Content} {time time' : Nat}

theorem null_not_mem_file {front : Text} (he' : IsEnding e')
    (hfile : d.nodeAt (front ++ '/' :: (leaf ++ e)) = .ok (q, .file content time)) :
    '\x00' ∉ leaf ++ e' := by
  have hnull := (Disk.target_eq_ok (Disk.nodeAt_eq_file hfile).1).1
  simp only [List.mem_append, List.mem_cons, not_or] at hnull ⊢
  exact ⟨hnull.2.2.1, he'.null_not_mem⟩

/-- Where the path of one file leads, the path of another one leads that has a shorter ending. -/
theorem nodeAt_sibling (hm : m.Placed) (he : IsEnding e) (he' : IsEnding e')
    (hshorter : Text.byteSize e' ≤ Text.byteSize e)
    (hfile : d.nodeAt (b.file m e) = .ok (q, .file content time))
    (hfile' : d.file? (d.place (b.file m e')) = some (content', time')) :
    d.nodeAt (b.file m e') = .ok (d.place (b.file m e'), .file content' time') := by
  obtain ⟨front, leaf, hclosed, hflat, hcut⟩ := file_cut b hm
  rw [hcut] at hfile
  rw [hcut] at hfile' ⊢
  obtain ⟨directory, htarget⟩ := Disk.target_sibling (slash_not_mem_file hflat he)
    (isName_append_ending hclosed e) (slash_not_mem_file hflat he')
    (isName_append_ending hclosed e') (null_not_mem_file he' hfile)
    (by rw [Text.byteSize_append, Text.byteSize_append]; omega) (Disk.nodeAt_eq_file hfile).1
  rcases htarget with hpresent | habsent
  · have hplace := Disk.target_place hpresent
    rw [Disk.Target.place] at hplace
    rw [hplace] at hpresent
    exact Disk.nodeAt_of_target hpresent hfile'
  · have hplace := Disk.target_place habsent
    rw [Disk.Target.place] at hplace
    have hnone := (Disk.walk_absent (Disk.target_eq_ok habsent).2.2.2).2
    rw [hplace] at hnone
    rw [Disk.file?_eq_some_iff, hnone] at hfile'
    cases hfile'

/-- A file can be moved to the place of another one that has a shorter ending. -/
theorem rename_file (hm : m.Placed) (he : IsEnding e) (he' : IsEnding e')
    (hshorter : Text.byteSize e' ≤ Text.byteSize e)
    (hfile : d.nodeAt (b.file m e) = .ok (q, .file content time))
    (hno : d.isDirectoryAt (d.place (b.file m e')) = false) :
    ∃ d', d.rename (b.file m e) (b.file m e') = (d', .ok ()) := by
  obtain ⟨front, leaf, hclosed, hflat, hcut⟩ := file_cut b hm
  rw [hcut] at hfile hno
  rw [hcut, hcut]
  exact Disk.rename_sibling (slash_not_mem_file hflat he) (isName_append_ending hclosed e)
    (slash_not_mem_file hflat he') (isName_append_ending hclosed e') (null_not_mem_file he' hfile)
    (by rw [Text.byteSize_append, Text.byteSize_append]; omega) hfile hno

end Siblings

end Files
end OnDemand
