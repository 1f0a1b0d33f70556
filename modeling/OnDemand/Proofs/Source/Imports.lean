import OnDemand.Proofs.Repetitions
import OnDemand.Proofs.Source.Identifiers

/-!
# What a type imports

Imports are recorded where the identifiers that need them are written, once each and at the place of
the first use.  So the imports of a sheet are read off the nodes of the descriptor, like the
identifiers of its text, and the two agree.
-/

namespace OnDemand

/-! ## The imports of a sheet -/

namespace Mark

/-- The import that the mark asks for. -/
def use? : Mark → Option Text
  | use item => some item
  | _ => none

/-- The late import that the mark asks for. -/
def useLate? : Mark → Option Text
  | useLate item => some item
  | _ => none

/-- The linker argument that the mark asks for. -/
def link? : Mark → Option Text
  | link argument => some argument
  | _ => none

end Mark

namespace Sheet

/-- Mentions the items one after another. -/
def mentionAll (items xs : List Text) : List Text := items.foldl (fun xs x => mention x xs) xs

/-- What is mentioned comes behind what there was, once each and in the order of first mention. -/
theorem mentionAll_eq (items xs : List Text) :
    mentionAll items xs = xs ++ (items.filter (· ∉ xs)).eraseDups := by
  induction items generalizing xs with
  | nil => simp [mentionAll]
  | cons x items ih =>
      have hcons : mentionAll (x :: items) xs = mentionAll items (mention x xs) := rfl
      rw [hcons, ih, mention]
      by_cases h : x ∈ xs
      · rw [if_pos h, List.filter_cons_of_neg (by simp [h])]
      · rw [if_neg h, List.filter_cons_of_pos (by simp [h]), List.eraseDups_cons,
          List.append_assoc, List.singleton_append, List.filter_filter]
        refine congrArg (fun ys => xs ++ x :: List.eraseDups ys) (List.filter_congr fun y _ => ?_)
        by_cases hyx : y = x <;> simp [hyx]

/-- The list has grown at its end only, by items that it did not have. -/
def Grown (xs ys : List Text) : Prop := ∃ more, ys = xs ++ more ∧ more.Nodup ∧ ∀ x ∈ more, x ∉ xs

theorem Grown.refl (xs : List Text) : Grown xs xs := ⟨[], by simp, List.nodup_nil, by simp⟩

theorem Grown.trans {xs ys zs : List Text} (h : Grown xs ys) (h' : Grown ys zs) : Grown xs zs := by
  obtain ⟨more, rfl, hnodup, hnew⟩ := h
  obtain ⟨more', rfl, hnodup', hnew'⟩ := h'
  refine ⟨more ++ more', by simp, ?_, ?_⟩
  · refine List.nodup_append.2 ⟨hnodup, hnodup', ?_⟩
    rintro x hx _ hx' rfl
    exact hnew' x hx' (List.mem_append_right _ hx)
  · intro x hx
    rcases List.mem_append.1 hx with hx | hx
    · exact hnew x hx
    · exact fun hxs => hnew' x hx (List.mem_append_left _ hxs)

theorem grown_mention (x : Text) (xs : List Text) : Grown xs (mention x xs) := by
  unfold mention
  split
  next => exact .refl xs
  next h => exact ⟨[x], rfl, by simp, by simpa using h⟩

/-- What marks ask for, they ask for by those that write nothing. -/
theorem asks_write {s s' : Sheet} {ms : List Mark} (h : s.write ms = (s', none)) :
    s'.uses = mentionAll ((asides ms).filterMap Mark.use?) s.uses ∧
      s'.lateUses = mentionAll ((asides ms).filterMap Mark.useLate?) s.lateUses ∧
      s'.linkArgs = mentionAll ((asides ms).filterMap Mark.link?) s.linkArgs := by
  induction ms generalizing s with
  | nil =>
      cases h
      exact ⟨rfl, rfl, rfl⟩
  | cons m ms ih =>
      rw [write] at h
      cases m with
      | use item => exact ih (s := s.use item) h
      | useLate item => exact ih (s := s.useLate item) h
      | link argument => exact ih (s := s.link argument) h
      | text t =>
          have hrest := ih (s := s.emit t) h
          rw [(s.uses_emit t).1, (s.uses_emit t).2, s.linkArgs_emit t] at hrest
          exact hrest
      | newline => exact ih (s := s.newline) h
      | indent => exact ih (s := s.indent) h
      | dedent => exact ih (s := s.dedent) h
      | refuse what => cases h

/-- Whether the marks are followed to their end or not, imports are only added. -/
theorem grown_write (s : Sheet) (ms : List Mark) :
    Grown s.uses (s.write ms).1.uses ∧ Grown s.lateUses (s.write ms).1.lateUses := by
  induction ms generalizing s with
  | nil => exact ⟨.refl _, .refl _⟩
  | cons m ms ih =>
      rw [write]
      cases m with
      | use item =>
          obtain ⟨huses, hlate⟩ := ih (s.use item)
          exact ⟨(grown_mention item s.uses).trans huses, hlate⟩
      | useLate item =>
          obtain ⟨huses, hlate⟩ := ih (s.useLate item)
          exact ⟨huses, (grown_mention item s.lateUses).trans hlate⟩
      | link argument => exact ih (s.link argument)
      | text t =>
          have hrest := ih (s.emit t)
          rw [(s.uses_emit t).1, (s.uses_emit t).2] at hrest
          exact hrest
      | newline => exact ih s.newline
      | indent => exact ih s.indent
      | dedent => exact ih s.dedent
      | refuse what => exact ⟨.refl _, .refl _⟩

end Sheet

/-! ## The imports of a type -/

namespace Descriptor

open Vocabulary

/-- How what is taken is imported, in the order in which it is taken. -/
def immediate (is : List Import) : List Text := (is.filter (· ≠ tuplesetType)).map Import.path

/-- How what is taken is imported late. -/
def late (is : List Import) : List Text := (is.filter (· = tuplesetType)).map Import.path

/-- The linker arguments that the nodes of the descriptor ask for. -/
def links (d : Descriptor) : List Text := d.preorder.flatMap linksHere

theorem immediate_append (is is' : List Import) :
    immediate (is ++ is') = immediate is ++ immediate is' := by
  rw [immediate, List.filter_append, List.map_append, immediate, immediate]

theorem late_append (is is' : List Import) : late (is ++ is') = late is ++ late is' := by
  rw [late, List.filter_append, List.map_append, late, late]

theorem filterMap_useMark (is : List Import) :
    (is.map useMark).filterMap Mark.use? = immediate is ∧
      (is.map useMark).filterMap Mark.useLate? = late is ∧
      (is.map useMark).filterMap Mark.link? = [] := by
  induction is with
  | nil => exact ⟨rfl, rfl, rfl⟩
  | cons i is ih =>
      obtain ⟨huses, hlate, hlinks⟩ := ih
      rw [List.map_cons, useMark]
      by_cases h : i = tuplesetType
      · rw [if_pos h, immediate, late, List.filter_cons_of_neg (by simpa using h),
          List.filter_cons_of_pos (by simpa using h)]
        exact ⟨huses, congrArg (i.path :: ·) hlate, hlinks⟩
      · rw [if_neg h, immediate, late, List.filter_cons_of_pos (by simpa using h),
          List.filter_cons_of_neg (by simpa using h)]
        exact ⟨congrArg (i.path :: ·) huses, hlate, hlinks⟩

theorem filterMap_link (ts : List Text) :
    (ts.map Mark.link).filterMap Mark.use? = [] ∧ (ts.map Mark.link).filterMap Mark.useLate? = [] ∧
      (ts.map Mark.link).filterMap Mark.link? = ts := by
  induction ts with
  | nil => exact ⟨rfl, rfl, rfl⟩
  | cons t ts ih => exact ⟨ih.1, ih.2.1, congrArg (t :: ·) ih.2.2⟩

/-- The marks of nodes, sorted by what they ask for. -/
theorem filterMap_asidesHere (nodes : List Descriptor) :
    (nodes.flatMap asidesHere).filterMap Mark.use? =
        immediate ((nodes.flatMap identifiersHere).filterMap Identifier.import?) ∧
      (nodes.flatMap asidesHere).filterMap Mark.useLate? =
        late ((nodes.flatMap identifiersHere).filterMap Identifier.import?) ∧
      (nodes.flatMap asidesHere).filterMap Mark.link? = nodes.flatMap linksHere := by
  induction nodes with
  | nil => exact ⟨rfl, rfl, rfl⟩
  | cons d nodes ih =>
      obtain ⟨huses, hlate, hlinks⟩ := ih
      obtain ⟨hmarks, hlateMarks, hmarkLinks⟩ :=
        filterMap_useMark (d.identifiersHere.filterMap Identifier.import?)
      obtain ⟨hlink, hlinkLate, hlinkLinks⟩ := filterMap_link d.linksHere
      simp only [List.flatMap_cons, List.filterMap_append, asidesHere, huses, hlate, hlinks, hmarks,
        hlateMarks, hmarkLinks, hlink, hlinkLate, hlinkLinks, immediate_append, late_append,
        List.append_nil, List.nil_append, and_self]

/-- What visiting a type adds to what a sheet asks for. -/
theorem asks_visit {s s' : Sheet} {d : Descriptor} (h : s.visit d = (s', none)) :
    s'.uses = Sheet.mentionAll (immediate d.taken) s.uses ∧
      s'.lateUses = Sheet.mentionAll (late d.taken) s.lateUses ∧
      s'.linkArgs = Sheet.mentionAll d.links s.linkArgs := by
  have hsupported := (s.visit_eq_none_iff d).1 (congrArg Prod.snd h)
  have hasides : asides d.marks = d.preorder.flatMap asidesHere := by
    rw [← (spells_marks d hsupported).asides]
    exact (List.append_nil _).symm
  obtain ⟨huses, hlate, hlinks⟩ := Sheet.asks_write h
  obtain ⟨huses', hlate', hlinks'⟩ := filterMap_asidesHere d.preorder
  rw [hasides, huses'] at huses
  rw [hasides, hlate'] at hlate
  rw [hasides, hlinks'] at hlinks
  exact ⟨huses, hlate, hlinks⟩

/-- The identifiers of a type that is written on a sheet of its own. -/
theorem identifiers_visit {s : Sheet} {d : Descriptor} (h : ({} : Sheet).visit d = (s, none)) :
    Text.identifiers s.body = d.identifiers.map Identifier.text := by
  have hsupported := (Sheet.visit_eq_none_iff {} d).1 (congrArg Prod.snd h)
  have halike := Sheet.alike_write (s := {}) (fun _ => Text.rests_nil) h []
  have hspelled := (spells_marks d hsupported).spelled
  rw [List.append_nil, List.append_nil] at halike
  rw [halike, identifiers, ← hspelled]
  exact (List.append_nil _).symm

/-! ### Paths of imports -/

/-- What stands behind the last colon of a path. -/
def lastSegment (path : Text) : Text := ((Text.splitAt ':' path).getLast?).getD []

theorem lastSegment_path {i : Import} (h : ':' ∉ i.type) : lastSegment i.path = i.type := by
  have hpath : i.path = i.home ++ ':' :: ([] ++ ':' :: i.type) := by simp [Import.path]
  rw [lastSegment, hpath, Text.splitAt_append_self, Text.splitAt_append_self,
    Text.splitAt_of_not_mem h, ← List.append_assoc, List.getLast?_concat]
  rfl

theorem eq_tuplesetType_of_type :
    ∀ i ∈ Vocabulary.all, i.type = tuplesetType.type → i = tuplesetType := by
  decide +kernel

theorem colon_not_mem_type {i : Import} (h : i ∈ Vocabulary.all) : ':' ∉ i.type := fun hcolon =>
  absurd (List.all_eq_true.1 (all_inIdentifier i h).2 _ hcolon) (by decide)

/-- The path of products is the path of nothing else. -/
theorem eq_tuplesetType_of_path {i : Import} (h : i ∈ Vocabulary.all)
    (hpath : i.path = tuplesetType.path) : i = tuplesetType := by
  have hlast := congrArg lastSegment hpath
  rw [lastSegment_path (colon_not_mem_type h),
    lastSegment_path (colon_not_mem_type (i := tuplesetType) (by simp [Vocabulary.all]))] at hlast
  exact eq_tuplesetType_of_type i h hlast

theorem mem_all_of_lookup {table : List (Text × Import)}
    (htable : table ⊆ letters ++ weightsets ++ automata ++ imported) {name : Text} {i : Import}
    (h : Identifier.known i ∈ (table.lookup name).toList.map Identifier.known) :
    i ∈ Vocabulary.all := by
  rw [List.mem_map] at h
  obtain ⟨j, hj, hji⟩ := h
  cases hji
  rw [Option.mem_toList] at hj
  exact (useMark_of_mem (htable (Text.mem_of_lookup hj))).2

theorem known_not_mem_foreign (i : Import) (ts : List Text) :
    Identifier.known i ∉ ts.map Identifier.foreign := by
  rw [List.mem_map]
  rintro ⟨t, -, ht⟩
  cases ht

theorem mem_all_of_mem_identifiersHere {d : Descriptor} {i : Import}
    (h : Identifier.known i ∈ d.identifiersHere) : i ∈ Vocabulary.all := by
  cases d with
  | tuple sets => cases h
  | genset name generators =>
      rcases List.mem_cons.1 h with h | h
      · cases h
        simp [Vocabulary.all]
      · exact mem_all_of_lookup (fun p hp => by simp [hp]) h
  | weightset name => exact mem_all_of_lookup (fun p hp => by simp [hp]) h
  | automaton name children => exact mem_all_of_lookup (fun p hp => by simp [hp]) h
  | other name =>
      rw [identifiersHere, opaqueIdentifiers] at h
      split at h
      next => exact absurd h (known_not_mem_foreign i _)
      next _ himported =>
          cases List.mem_singleton.1 h
          exact (useMark_of_mem (List.mem_append_right _ (Text.mem_of_lookup himported))).2
      next =>
          rcases List.mem_cons.1 h with h | h
          · cases h
            simp [Vocabulary.all]
          · exact absurd h (known_not_mem_foreign i _)
      next => exact absurd h (known_not_mem_foreign i _)
  | _ =>
      cases List.mem_singleton.1 h
      simp [Vocabulary.all]

theorem mem_taken_iff {d : Descriptor} {i : Import} :
    i ∈ d.taken ↔ Identifier.known i ∈ d.identifiers := by
  rw [taken, List.mem_filterMap]
  constructor
  · rintro ⟨identifier, hmem, himport⟩
    cases identifier with
    | known j =>
        cases himport
        exact hmem
    | foreign t => cases himport
  · exact fun h => ⟨_, h, rfl⟩

theorem mem_all_of_mem_taken {d : Descriptor} {i : Import} (h : i ∈ d.taken) :
    i ∈ Vocabulary.all := by
  rw [mem_taken_iff, identifiers, List.mem_flatMap] at h
  obtain ⟨e, -, hi⟩ := h
  exact mem_all_of_mem_identifiersHere hi

/-- The path of what is taken is among the immediate ones or among the late ones, never both. -/
theorem path_mem_immediate_iff {d : Descriptor} {i : Import} (h : i ∈ d.taken) :
    (i.path ∈ immediate d.taken ↔ i ≠ tuplesetType) ∧
      (i.path ∈ late d.taken ↔ i = tuplesetType) := by
  constructor
  · rw [immediate, List.mem_map]
    constructor
    · rintro ⟨j, hj, hpath⟩ rfl
      rw [List.mem_filter, decide_eq_true_iff] at hj
      exact hj.2 (eq_tuplesetType_of_path (mem_all_of_mem_taken hj.1) hpath)
    · exact fun hi => ⟨i, List.mem_filter.2 ⟨h, decide_eq_true hi⟩, rfl⟩
  · rw [late, List.mem_map]
    constructor
    · rintro ⟨j, hj, hpath⟩
      rw [List.mem_filter, decide_eq_true_iff] at hj
      obtain ⟨-, rfl⟩ := hj
      exact eq_tuplesetType_of_path (mem_all_of_mem_taken h) hpath.symm
    · exact fun hi => ⟨i, List.mem_filter.2 ⟨h, decide_eq_true hi⟩, rfl⟩

theorem exists_taken_of_mem {d : Descriptor} {item : Text}
    (h : item ∈ immediate d.taken ∨ item ∈ late d.taken) : ∃ i ∈ d.taken, i.path = item := by
  rcases h with h | h <;>
  · obtain ⟨i, hi, hpath⟩ := List.mem_map.1 h
    exact ⟨i, (List.mem_filter.1 hi).1, hpath⟩

/-! ### Linker arguments -/

theorem mem_links_iff {d : Descriptor} {argument : Text} :
    argument ∈ d.links ↔
      argument = "-lgmp".toList ∧ Descriptor.weightset "qmp".toList ∈ d.preorder := by
  rw [links, List.mem_flatMap]
  constructor
  · rintro ⟨e, he, hargument⟩
    cases e with
    | weightset name =>
        rw [linksHere] at hargument
        split at hargument
        next hname =>
          subst hname
          exact ⟨List.mem_singleton.1 hargument, he⟩
        next => cases hargument
    | _ => cases hargument
  · rintro ⟨rfl, he⟩
    exact ⟨_, he, by decide⟩

end Descriptor

namespace Sheet

open Descriptor Vocabulary

theorem mentionAll_nil (items : List Text) : mentionAll items [] = items.eraseDups := by
  rw [mentionAll_eq, List.nil_append, List.filter_eq_self.2 (by simp)]

/-- Visits the descriptors one after another, past those that cannot be written. -/
def visitAll (s : Sheet) (ds : List Descriptor) : Sheet := ds.foldl (fun s d => (s.visit d).1) s

theorem grown_visitAll (s : Sheet) (ds : List Descriptor) :
    Grown s.uses (s.visitAll ds).uses ∧ Grown s.lateUses (s.visitAll ds).lateUses := by
  induction ds generalizing s with
  | nil => exact ⟨.refl _, .refl _⟩
  | cons d ds ih =>
      obtain ⟨huses, hlate⟩ := s.grown_write d.marks
      obtain ⟨huses', hlate'⟩ := ih (s.visit d).1
      exact ⟨huses.trans huses', hlate.trans hlate'⟩

/--
A type that is written on a sheet of its own imports just what it takes from the vocabulary, each
once, products late and all else at once, in the order in which its nodes are visited.  The linker
is asked for the one library that a weight set needs.  Types that are written on the same sheet
later add the imports that are not there yet, and take none away.
-/
theorem visit_imports_exactly {s : Sheet} {d : Descriptor}
    (h : ({} : Sheet).visit d = (s, none)) :
    Text.identifiers s.body = d.identifiers.map Identifier.text ∧
    (∀ i ∈ d.taken, i ∈ Vocabulary.all ∧ i.type ∈ Text.identifiers s.body ∧
      (i ≠ tuplesetType → s.uses.count i.path = 1 ∧ s.lateUses.count i.path = 0) ∧
      (i = tuplesetType → s.uses.count i.path = 0 ∧ s.lateUses.count i.path = 1)) ∧
    (∀ item, item ∈ s.uses ∨ item ∈ s.lateUses →
      (∃ i ∈ d.taken, i.path = item ∧ lastSegment item = i.type) ∧
        lastSegment item ∈ Text.identifiers s.body) ∧
    s.uses = (immediate d.taken).eraseDups ∧ s.lateUses = (late d.taken).eraseDups ∧
    (Descriptor.weightset "qmp".toList ∈ d.preorder → s.linkArgs = ["-lgmp".toList]) ∧
    (Descriptor.weightset "qmp".toList ∉ d.preorder → s.linkArgs = []) ∧
    ∀ ds, Grown s.uses (s.visitAll ds).uses ∧ Grown s.lateUses (s.visitAll ds).lateUses := by
  have hbody := identifiers_visit h
  have htaken : ∀ i ∈ d.taken, i.type ∈ Text.identifiers s.body := fun i hi => by
    rw [hbody]
    exact List.mem_map_of_mem (f := Identifier.text) (mem_taken_iff.1 hi)
  obtain ⟨huses, hlate, hlinks⟩ := asks_visit h
  rw [mentionAll_nil] at huses hlate hlinks
  refine ⟨hbody, ?_, ?_, huses, hlate, ?_, ?_, s.grown_visitAll⟩
  · intro i hi
    obtain ⟨himmediate, hlater⟩ := path_mem_immediate_iff hi
    refine ⟨mem_all_of_mem_taken hi, htaken i hi, ?_, ?_⟩
    · intro hne
      rw [huses, hlate]
      exact ⟨List.count_eq_one_of_mem (nodup_eraseDups _) (List.mem_eraseDups.2 (himmediate.2 hne)),
        List.count_eq_zero.2 fun hmem => hne (hlater.1 (List.mem_eraseDups.1 hmem))⟩
    · intro heq
      rw [huses, hlate]
      exact ⟨List.count_eq_zero.2 fun hmem => himmediate.1 (List.mem_eraseDups.1 hmem) heq,
        List.count_eq_one_of_mem (nodup_eraseDups _) (List.mem_eraseDups.2 (hlater.2 heq))⟩
  · intro item hitem
    rw [huses, hlate, List.mem_eraseDups, List.mem_eraseDups] at hitem
    obtain ⟨i, hi, rfl⟩ := exists_taken_of_mem hitem
    rw [lastSegment_path (colon_not_mem_type (mem_all_of_mem_taken hi))]
    exact ⟨⟨i, hi, rfl, rfl⟩, htaken i hi⟩
  · intro hqmp
    rw [hlinks]
    exact eraseDups_of_forall (List.ne_nil_of_mem (mem_links_iff.2 ⟨rfl, hqmp⟩))
      fun argument hargument => (mem_links_iff.1 hargument).1
  · intro hqmp
    have hnone : d.links = [] :=
      List.eq_nil_iff_forall_not_mem.2 fun argument hargument => hqmp (mem_links_iff.1 hargument).2
    rw [hlinks, hnone, List.eraseDups_nil]

/-- A context of products, in which letters and weights come twice. -/
def sampleProducts : Descriptor :=
  .context
    (.tupleset [.letterset (.genset "char_letters".toList none), .oneset,
      .letterset (.genset "string_letters".toList none)])
    (.tupleset [.weightset "z".toList, .weightset "qmp".toList, .weightset "z".toList])

theorem visit_imports_exactly_products :
    (({} : Sheet).visit sampleProducts).2 = none ∧
    (({} : Sheet).visit sampleProducts).1.uses = [
      "vcsn::ctx::Context".toList, "vcsn::labelset::letterset::LetterSet".toList,
      "vcsn::alphabets::setalpha::SetAlphabet".toList, "vcsn::alphabets::chars::CharLetters".toList,
      "vcsn::labelset::oneset::OneSet".toList, "vcsn::alphabets::string::StringLetters".toList,
      "vcsn::weightset::z::Z".toList, "vcsn::weightset::qmp::QMp".toList] ∧
    (({} : Sheet).visit sampleProducts).1.lateUses =
      ["vcsn::labelset::tupleset::TupleSet".toList] ∧
    (({} : Sheet).visit sampleProducts).1.linkArgs = ["-lgmp".toList] := by
  have hvisit : ({} : Sheet).visit sampleProducts =
      ((({} : Sheet).visit sampleProducts).1, none) := by
    decide +kernel
  obtain ⟨-, -, -, huses, hlate, hlinks, -, -⟩ := visit_imports_exactly hvisit
  refine ⟨congrArg Prod.snd hvisit, huses.trans ?_, hlate.trans ?_, hlinks ?_⟩
  · decide +kernel
  · decide +kernel
  · simp [sampleProducts, preorder, preorderOfAll]

end Sheet

end OnDemand
