import OnDemand.Proofs.Native.Plant
import OnDemand.Proofs.Plugin.Segments

/-!
# The inventory recovers modules

The place of a module tells what the module is: the components below the plugin directory are the
directories of its kind and the segments of its name, which make up the name again unless it had a
slash.  So the inventory of a plugin directory lists each source under the name it was requested by,
and no temporary file (`inventory_recovers`).
-/

namespace OnDemand

open Plugin Reader

/-! ## What a seat tells -/

namespace Plugin

namespace Seated

variable {base : Path} {way : List Text} {leaf e : Text}

theorem beginsNamed (h : Seated base way leaf) : Path.BeginsNamed base := by
  obtain ⟨front, hbase, hnamed, -⟩ := h.front
  rw [hbase]
  exact hnamed.append _

/-- What is written after the base is written after the last name. -/
theorem append_eq (h : Seated base way leaf) (e : Text) :
    base ++ e = Text.joinWith "/".toList (way ++ [leaf ++ e]) := by
  rw [h.written]
  cases way with
  | nil => rfl
  | cons first way =>
      rw [Text.joinWith_append _ (by simp) (by simp), Text.joinWith_append _ (by simp) (by simp),
        List.append_assoc]
      rfl

/-- The names on the way to a file of the module. -/
theorem isOrdinary (h : Seated base way leaf) (he : '/' ∉ e) :
    ∀ name ∈ way ++ [leaf ++ e], IsOrdinary name := by
  obtain ⟨front, -, -, hsteps⟩ := h.front
  intro name hname
  rcases List.mem_append.1 hname with hway | hlast
  · have hstep : name ∈ Path.steps front := hsteps ▸ hway
    have hpiece := List.mem_filter.1 hstep
    refine ⟨Text.not_mem_of_mem_splitAt hpiece.1, by simpa using hpiece.2, ?_⟩
    rintro rfl
    exact h.down hway
  · rw [List.mem_singleton.1 hlast, IsOrdinary, List.mem_append, not_or]
    exact ⟨⟨h.flat, he⟩, isName_append_ending h.closed e⟩

/-- A file of the module lies at the end of the way below the plugin directory. -/
theorem components_eq (h : Seated base way leaf) (he : '/' ∉ e) (plugins : Path) :
    Path.components (Path.withEnding (Path.join plugins base) e) =
      Path.components plugins ++ (way ++ [leaf ++ e]) := by
  rw [Path.withEnding, ← Path.join_append _ h.beginsNamed.ne_nil h.beginsNamed.isAbsolute,
    Path.components_join _ (h.beginsNamed.append e), h.append_eq,
    steps_joinWith_ordinary (h.isOrdinary he)]

end Seated

theorem Located.ofComponents?_algorithm (operation : Text) (front : List Text) (last : Text) :
    Located.ofComponents? (Kind.algorithm.directory :: operation :: front ++ [last]) =
      some ⟨.algorithm, operation, (front ++ [last]).flatten⟩ := by
  cases front with
  | nil => rfl
  | cons segment front => rfl

theorem Located.ofComponents?_context (front : List Text) (last : Text) :
    Located.ofComponents? (Kind.context.directory :: front ++ [last]) =
      some ⟨.context, [], (front ++ [last]).flatten⟩ := by
  have hkinds : Kind.context.directory ≠ Kind.algorithm.directory := by decide
  cases front with
  | nil => simp [ofComponents?]
  | cons segment front =>
      cases front with
      | nil => simp [ofComponents?, hkinds]
      | cons segment' front => simp [ofComponents?, hkinds]

/-- The source of a module is one of what the components of its base tell. -/
theorem located?_seated {base : Path} {way : List Text} {leaf : Text} (h : Seated base way leaf)
    (plugins : Path) {located : Located}
    (hlocated : Located.ofComponents? (way ++ [leaf]) = some located) :
    located? plugins (Path.withEnding (Path.join plugins base) sourceEnding) = some located := by
  have hcomponents := h.components_eq (e := []) List.not_mem_nil plugins
  rw [Path.withEnding, List.append_nil, List.append_nil] at hcomponents
  rw [located?, Path.withEnding, Text.dropSuffix?_append, Option.bind_eq_bind, Option.bind_some,
    Path.componentsBelow?, hcomponents, Text.dropPrefix?_append, Option.bind_eq_bind,
    Option.bind_some, hlocated]

/-! ## Files below directories -/

/-- The files of the module at `base` lie below the directories. -/
structure LiesBelow (directories : List Text) (base : Path) : Prop where
  /-- What stands below the directories, slash by slash. -/
  pieces : ∃ pieces, Text.splitAt '/' base = directories ++ pieces ∧ pieces ≠ [] ∧
    ∀ piece ∈ pieces, piece ≠ [] ∧ piece.length ≤ segmentLength ∧
      piece ≠ ".".toList ∧ piece ≠ "..".toList
  /-- The way to a file leads from the last of the directories to names below it. -/
  files : ∀ (plugins : Path) (e : Text), IsEnding e → ∃ names,
    Path.componentsBelow? (Path.join plugins (Text.joinWith "/".toList directories))
        (Path.withEnding (Path.join plugins base) e) = some names ∧
      names ≠ [] ∧ ∀ name ∈ names, IsOrdinary name

theorem liesBelow_of_seated {directories front : List Text} {last name : Text} {base : Path}
    (h : Seated base (directories ++ front) last) (hname : name ≠ [])
    (hsplit : Text.splitAt '/' base = directories ++ segments name)
    (hdirectories : Path.BeginsNamed (Text.joinWith "/".toList directories)) :
    LiesBelow directories base := by
  have hordinary : ∀ piece ∈ directories ++ front ++ [last], IsOrdinary piece := by
    simpa using h.isOrdinary (e := []) List.not_mem_nil
  have hsegments : segments name = front ++ [last] := by
    have hne : directories ++ front ++ [last] ≠ [] := by simp
    have hwritten := Text.splitAt_joinWith hne fun piece hpiece => (hordinary piece hpiece).1
    have heq := hsplit.symm.trans ((congrArg _ h.written).trans hwritten)
    rw [List.append_assoc] at heq
    exact List.append_cancel_left heq
  refine ⟨⟨segments name, hsplit, by simp [hsegments], ?_⟩, ?_⟩
  · intro piece hpiece
    have hmem : piece ∈ directories ++ front ++ [last] := by
      rw [List.append_assoc, ← hsegments]
      exact List.mem_append_right _ hpiece
    have hproper := (hordinary piece hmem).2
    obtain ⟨hne, hlength⟩ := length_segment hname hpiece
    refine ⟨hne, hlength, ?_, hproper.2⟩
    rintro rfl
    exact absurd hproper.1 (by decide)
  · intro plugins e he
    have hway : ∀ piece ∈ directories, IsOrdinary piece := fun piece hpiece =>
      hordinary piece (by simp [hpiece])
    refine ⟨front ++ [last ++ e], ?_, by simp, ?_⟩
    · rw [Path.componentsBelow?, h.components_eq he.slash_not_mem,
        Path.components_join _ hdirectories, steps_joinWith_ordinary hway, List.append_assoc,
        ← List.append_assoc, Text.dropPrefix?_append]
    · intro piece hpiece
      refine h.isOrdinary he.slash_not_mem piece ?_
      rw [List.append_assoc]
      exact List.mem_append_right _ hpiece

end Plugin

/-! ## Artifacts -/

namespace Artifact

/-- The module at `base` as an artifact. -/
def ofBase (d : Disk) (plugins base : Path) (located : Located) : Artifact :=
  let source := Path.withEnding (Path.join plugins base) sourceEnding
  { located, source,
    built := !d.needsRebuild source (Path.withEnding (Path.join plugins base) libraryEnding) }

/-- The inventory knows the module at `base`. -/
structure Recovered (plugins base : Path) (located : Located) : Prop where
  /-- The path of the source tells which module it is, whatever is on the disk. -/
  found : ∀ d : Disk,
    ofSource? d plugins (Path.withEnding (Path.join plugins base) sourceEnding) =
      some (ofBase d plugins base located)
  /-- Where the source is a file in the plugin directory, the module is listed. -/
  listed : ∀ (d : Disk) (root q : Place) (time time' : Nat) (content : Content),
    d.nodeAt plugins = .ok (root, .directory time) →
    d.nodeAt (Path.withEnding (Path.join plugins base) sourceEnding) =
      .ok (q, .file content time') →
    ofBase d plugins base located ∈ inventory d plugins

theorem mem_inventory {d : Disk} {plugins : Path} {a : Artifact} :
    a ∈ inventory d plugins ↔ ∃ source ∈ d.filesBelow plugins, ofSource? d plugins source = some a := by
  rw [inventory, List.mem_mergeSort, List.mem_filterMap]

theorem source_of_ofSource? {d : Disk} {plugins source : Path} {a : Artifact}
    (h : ofSource? d plugins source = some a) : a.source = source := by
  simp only [ofSource?, Option.bind_eq_bind, Option.bind_eq_some_iff, Option.pure_def,
    Option.some.injEq] at h
  obtain ⟨base, -, located, -, rfl⟩ := h
  rfl

theorem recovered_of_seated {base : Path} {way : List Text} {leaf : Text} (h : Seated base way leaf)
    {located : Located} (hlocated : Located.ofComponents? (way ++ [leaf]) = some located)
    (plugins : Path) : Recovered plugins base located := by
  have hfound : ∀ d : Disk,
      ofSource? d plugins (Path.withEnding (Path.join plugins base) sourceEnding) =
        some (ofBase d plugins base located) := by
    intro d
    rw [ofSource?, located?_seated h plugins hlocated, Path.withEnding, Text.dropSuffix?_append]
    rfl
  refine ⟨hfound, ?_⟩
  intro d root q time time' content hroot hfile
  refine mem_inventory.2 ⟨_, ?_, hfound d⟩
  -- The source has the path under which the walk through the directory comes upon it.
  have hpath : Path.withEnding (Path.join plugins base) sourceEnding =
      Path.join plugins (Text.joinWith "/".toList (way ++ [leaf ++ sourceEnding])) := by
    rw [← h.append_eq, Path.join_append _ h.beginsNamed.ne_nil h.beginsNamed.isAbsolute]
    rfl
  have hnamed := h.beginsNamed.append sourceEnding
  rw [h.append_eq] at hnamed
  rw [hpath] at hfile ⊢
  have hordinary := h.isOrdinary isEnding_source.slash_not_mem
  have hdown : "..".toList ∉ way ++ [leaf ++ sourceEnding] := fun hmem =>
    (hordinary _ hmem).2.2 rfl
  obtain ⟨-, hq, hat⟩ := Disk.nodeAt_eq_file hfile
  rw [hq, Disk.place_join d plugins hnamed.isAbsolute, steps_joinWith_ordinary hordinary,
    Disk.foldl_follow hdown, ← Disk.nodeAt_place hroot] at hat
  exact Disk.mem_filesBelow hroot hat

/-- No temporary file is taken for a source. -/
theorem ofSource?_temporary {τ : Type} (site : Site τ) (base : Path) {extension : Text}
    (h : extension = "tmp".toList ∨ extension = libraryExtension) (d : Disk) (plugins : Path) :
    ofSource? d plugins (site.temporary base extension).2 = none := by
  have hsuffix : Text.dropSuffix? sourceEnding (site.temporary base extension).2 = none := by
    obtain ⟨front, c, hc, hextension⟩ : ∃ front c, 's' ≠ c ∧ extension = front ++ [c] := by
      rcases h with rfl | rfl
      · exact ⟨"tm".toList, 'p', by decide, rfl⟩
      · exact ⟨"s".toList, 'o', by decide, rfl⟩
    have hending : ∀ t : Text, t ++ '.' :: extension = (t ++ '.' :: front) ++ [c] := by
      intro t
      rw [hextension]
      simp
    rw [Site.temporary, Path.withEnding, ← List.append_assoc, hending]
    exact Text.dropSuffix?_of_ne hc ".r".toList _
  rw [ofSource?, hsuffix]
  rfl

end Artifact

theorem slash_not_mem_text {s : Signature} (h : ∀ part ∈ s, '/' ∉ part) : '/' ∉ s.text := by
  intro hmem
  simp only [Signature.text, List.mem_append, List.mem_cons, List.not_mem_nil, or_false] at hmem
  rcases hmem with (hopen | hparts) | hclose
  · exact absurd hopen (by decide)
  · rcases Text.mem_joinWith hparts with hcomma | ⟨part, hpart, hslash⟩
    · revert hcomma
      decide
    · exact h part hpart hslash
  · exact absurd hclose (by decide)

/-! ## What the inventory recovers -/

namespace Artifact

theorem recovered_algorithm {operation : Text} {s : Signature} (hoperation : IsOrdinary operation)
    (hs : ∀ part ∈ s, '/' ∉ part) (plugins : Path) :
    LiesBelow [Kind.algorithm.directory, operation] (algorithmBase operation s.text) ∧
      Recovered plugins (algorithmBase operation s.text) ⟨.algorithm, operation, s.text⟩ := by
  obtain ⟨front, last, hseated, hflatten⟩ := seated_algorithm hoperation s
  refine ⟨?_, recovered_of_seated hseated ?_ plugins⟩
  · exact liesBelow_of_seated hseated (GeneratedModule.text_ne_nil s)
      (splitAt_algorithmBase hoperation s.text)
      (beginsNamed_joinWith (beginsNamed_directory .algorithm) [operation])
  · rw [Located.ofComponents?_algorithm, hflatten, flat_eq_self (slash_not_mem_text hs)]

theorem recovered_context {n : Normalized} {text : Text} (h : normalizeContext text = .ok n)
    (plugins : Path) :
    LiesBelow [Kind.context.directory] (contextBase n.short) ∧
      Recovered plugins (contextBase n.short) ⟨.context, [], n.short⟩ := by
  obtain ⟨hcontext, hshort⟩ := GeneratedModule.normalizeContext_eq_ok h
  have hclosed : Closed n.short := hshort ▸ GeneratedModule.closed_shortName hcontext
  have hplain : IsPlain n.short := hshort ▸ hcontext.isPlain
  have hne : n.short ≠ [] := hshort ▸ GeneratedModule.shortName_ne_nil hcontext
  obtain ⟨front, last, hseated, hflatten⟩ := seated_context hclosed
  refine ⟨?_, recovered_of_seated hseated ?_ plugins⟩
  · exact liesBelow_of_seated hseated hne (splitAt_contextBase n.short)
      (beginsNamed_joinWith (beginsNamed_directory .context) [])
  · rw [Located.ofComponents?_context, hflatten, flat_eq_self hplain.slash_not_mem]

/--
Under any plugin directory the place of a module tells its operation and its signature, if no part of
that has a slash, or its context.  Temporary files are passed over.
-/
theorem inventory_recovers (plugins : Path) :
    (∀ (operation : Text) (s : Signature), IsOrdinary operation → (∀ part ∈ s, '/' ∉ part) →
      LiesBelow [Kind.algorithm.directory, operation] (algorithmBase operation s.text) ∧
        Recovered plugins (algorithmBase operation s.text) ⟨.algorithm, operation, s.text⟩) ∧
    (∀ (text : Text) (n : Normalized), normalizeContext text = .ok n →
      (∀ m, GeneratedModule.ofContext text = .ok m → m.base = contextBase n.short) ∧
        LiesBelow [Kind.context.directory] (contextBase n.short) ∧
        Recovered plugins (contextBase n.short) ⟨.context, [], n.short⟩) ∧
    (∀ (τ : Type) (site : Site τ) (base : Path) (extension : Text),
      extension = "tmp".toList ∨ extension = libraryExtension → ∀ d : Disk,
        ofSource? d plugins (site.temporary base extension).2 = none ∧
          ∀ a ∈ inventory d plugins, a.source ≠ (site.temporary base extension).2) := by
  refine ⟨fun operation s hoperation hs => recovered_algorithm hoperation hs plugins, ?_, ?_⟩
  · intro text n hn
    refine ⟨?_, recovered_context hn plugins⟩
    intro m hm
    obtain ⟨n', hn', hbase⟩ := GeneratedModule.base_of_ofContext hm
    rw [hn] at hn'
    cases hn'
    exact hbase
  · intro τ site base extension hextension d
    have hnone := ofSource?_temporary site base hextension d plugins
    refine ⟨hnone, ?_⟩
    intro a ha heq
    obtain ⟨source, -, hsource⟩ := mem_inventory.1 ha
    rw [← source_of_ofSource? hsource, heq, hnone] at hsource
    cases hsource

/-- A plugin directory with the source of one module. -/
def shelf : Disk where
  nodes := [(["p".toList], .directory 0), (["p".toList, "algos".toList], .directory 0),
    (["p".toList, "algos".toList, "trim".toList], .directory 0),
    (["p".toList, "algos".toList, "trim".toList, "(b).rs".toList], .file (.text []) 1)]
  clock := 2
  here := []

/-- That module is listed, the place of a context is read, and a temporary file is not. -/
theorem shelf_recovered :
    (IsOrdinary "trim".toList ∧ (∀ part ∈ ["b".toList], '/' ∉ part) ∧
      (⟨⟨.algorithm, "trim".toList, "(b)".toList⟩, "p/algos/trim/(b).rs".toList, false⟩ : Artifact) ∈
        inventory shelf "p".toList) ∧
    (∃ n, normalizeContext "context<letterset<char_letters(ab)>, b>".toList = .ok n ∧
      ofSource? shelf "p".toList
          "p/contexts/context<letterset<char_letters>, b>.rs".toList =
        some (ofBase shelf "p".toList (contextBase n.short) ⟨.context, [], n.short⟩)) ∧
    ofSource? shelf "p".toList "p/algos/trim/(b).7.0.so".toList = none := by
  have hordinary : IsOrdinary "trim".toList := by decide
  have hparts : ∀ part ∈ ["b".toList], '/' ∉ part := by decide
  have hall := inventory_recovers "p".toList
  have htrim := (hall.1 _ _ hordinary hparts).2.listed shelf ["p".toList] _ 0 1 (.text []) rfl rfl
  have hn := GeneratedModule.normalizeContext_fullName
    (GeneratedModule.isContext_overLetters (some "ab".toList))
  have hfound := (hall.2.1 _ _ hn).2.2.found shelf
  have htemporary := hall.2.2 Unit { disk := shelf, process := 7, memory := () }
    "p/algos/trim/(b)".toList libraryExtension (.inr rfl) shelf
  refine ⟨⟨hordinary, hparts, htrim⟩, ⟨_, hn, hfound⟩, htemporary.1⟩

end Artifact
end OnDemand
