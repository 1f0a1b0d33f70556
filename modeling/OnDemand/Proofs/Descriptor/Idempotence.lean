import OnDemand.Proofs.Descriptor.TypeNames

/-!
# When normalizing types is idempotent

Normalizing the full name of a type gives that name again, and normalizing the short name gives the
short name, exactly when the type is settled.  Erasing alphabets does not matter to either, so the
condition is the same for both names.
-/

namespace OnDemand
namespace Descriptor

open Reader

/-! ## Erasing and reading again -/

theorem isLabels_erase (d : Descriptor) : d.erase.isLabels = d.isLabels := by
  cases d <;> rfl

theorem isWeights_erase (d : Descriptor) : d.erase.isWeights = d.isWeights := by
  cases d <;> rfl

theorem opensJoined_eraseAll (ds : List Descriptor) :
    opensJoined (eraseAll ds) = opensJoined ds := by
  rcases ds with _ | ⟨d, ds⟩
  · rfl
  · cases d <;> rfl

theorem merges_eraseAll (ds : List Descriptor) : merges (eraseAll ds) = merges ds := by
  rcases ds with _ | ⟨l, _ | ⟨w, ds⟩⟩
  · rfl
  · rfl
  · simp only [eraseAll, merges, isLabels_erase, isWeights_erase]

theorem merged_eraseAll (ds : List Descriptor) : merged (eraseAll ds) = eraseAll (merged ds) := by
  rcases ds with _ | ⟨l, _ | ⟨w, ds⟩⟩
  · rfl
  · rfl
  · simp only [eraseAll, merged, isLabels_erase, isWeights_erase]
    split
    · rfl
    · rfl

mutual

theorem settled_erase (d : Descriptor) : d.erase.settled = d.settled := by
  match d with
  | .tuple ds => simp only [erase, settled, allSettled_eraseAll ds]
  | .automaton name ds =>
      simp only [erase, settled, merges_eraseAll, opensJoined_eraseAll, allSettled_eraseAll ds]
  | .context l w => simp only [erase, settled]
  | .tupleset ds => simp only [erase, settled]
  | .oneset => rfl
  | .genset letters generators => simp only [erase, settled]
  | .letterset g => simp only [erase, settled]
  | .wordset g => simp only [erase, settled]
  | .nullableset l => simp only [erase, settled]
  | .expressionset c i => simp only [erase, settled]
  | .expansionset e => simp only [erase, settled]
  | .weightset name => rfl
  | .polynomialset c => simp only [erase, settled]
  | .other name => rfl

theorem allSettled_eraseAll (ds : List Descriptor) : allSettled (eraseAll ds) = allSettled ds := by
  match ds with
  | [] => rfl
  | d :: ds => simp only [eraseAll, allSettled, settled_erase d, allSettled_eraseAll ds]

end

mutual

theorem reread_erase (d : Descriptor) : d.erase.reread = d.reread.map erase := by
  match d with
  -- Only lists of types are read differently, and what is erased does not matter for that.
  | .tuple ds =>
      simp only [erase, reread, rereadAll_eraseAll ds]
      cases rereadAll ds with
      | none => rfl
      | some es => simp only [Option.map_some, erase]
  | .automaton name ds =>
      simp only [erase, reread, opensJoined_eraseAll, rereadAll_eraseAll ds]
      split
      · cases rereadAll ds with
        | none => rfl
        | some es => simp only [Option.map_some, erase, merged_eraseAll]
      · rfl
  | .context l w => rfl
  | .tupleset ds => rfl
  | .oneset => rfl
  | .genset letters generators => rfl
  | .letterset g => rfl
  | .wordset g => rfl
  | .nullableset l => rfl
  | .expressionset c i => rfl
  | .expansionset e => rfl
  | .weightset name => rfl
  | .polynomialset c => rfl
  | .other name => rfl

theorem rereadAll_eraseAll (ds : List Descriptor) :
    rereadAll (eraseAll ds) = (rereadAll ds).map eraseAll := by
  match ds with
  | [] => rfl
  | d :: ds =>
      simp only [eraseAll, rereadAll, reread_erase d, rereadAll_eraseAll ds]
      cases reread d with
      | none => rfl
      | some e =>
          cases rereadAll ds with
          | none => rfl
          | some es => simp only [Option.map_some, Option.bind_some, eraseAll]

end

/-! ## Normalizing again -/

theorem IsType.ofType_fullName_iff {d e : Descriptor} (h : IsType d) :
    ofType d.fullName = .ok e ↔ d.reread = some e := by
  have hread : Reader.gives (Reader.type d.fullName) = d.reread.map fun e => (e, []) := by
    have hnil := h.rereads [] .nil
    rwa [List.append_nil] at hnil
  rw [ofType, h.quotes_fullName, reported_eq_ok_iff, Reader.wholeType, Reader.finish_eq_ok_iff,
    hread]
  constructor
  · rintro ⟨r, hr, -⟩
    rcases Option.map_eq_some_iff.1 hr with ⟨e', he', heq⟩
    cases heq
    exact he'
  · intro he
    exact ⟨[], by rw [he]; rfl, rfl⟩

theorem normalizeType_eq_ok_iff {text : Text} {n : Normalized} :
    normalizeType text = .ok n ↔
      ofType text = .ok n.descriptor ∧ n = Normalized.of n.descriptor := by
  unfold normalizeType
  cases ofType text with
  | error e =>
      constructor
      · intro h
        cases h
      · rintro ⟨h, -⟩
        cases h
  | ok d =>
      constructor
      · intro h
        cases h
        exact ⟨rfl, rfl⟩
      · rintro ⟨h, hn⟩
        cases h
        rw [hn]
        rfl

theorem IsType.full_idempotent_iff {d : Descriptor} (h : IsType d) :
    (∃ n, normalizeType d.fullName = .ok n ∧ n.full = d.fullName) ↔ d.settled = true := by
  rw [← reread_eq_self_iff]
  constructor
  · rintro ⟨n, hn, hfull⟩
    rcases normalizeType_eq_ok_iff.1 hn with ⟨hread, hnames⟩
    have hname : n.descriptor.fullName = d.fullName := by
      rw [hnames] at hfull
      exact hfull
    have heq : n.descriptor = d := (isType_of_ofType hread).eq_of_fullName_eq h hname
    rw [heq] at hread
    exact h.ofType_fullName_iff.1 hread
  · intro hread
    have hd : ofType d.fullName = .ok d := h.ofType_fullName_iff.2 hread
    exact ⟨.of d, normalizeType_eq_ok_iff.2 ⟨hd, rfl⟩, rfl⟩

theorem IsType.short_idempotent_iff {d : Descriptor} (h : IsType d) :
    (∃ n, normalizeType d.shortName = .ok n ∧ n.short = d.shortName) ↔ d.settled = true := by
  rw [← settled_erase, ← reread_eq_self_iff, ← fullName_erase]
  constructor
  · rintro ⟨n, hn, hshort⟩
    rcases normalizeType_eq_ok_iff.1 hn with ⟨hread, hnames⟩
    have hname : n.descriptor.shortName = d.shortName := by
      rw [hnames, fullName_erase] at hshort
      exact hshort
    have herase : n.descriptor.erase = d.erase :=
      (isType_of_ofType hread).erase_eq_of_shortName_eq h hname
    have hreread : d.erase.reread = some n.descriptor := h.erase.ofType_fullName_iff.1 hread
    -- No alphabet is read from a name without any.
    have hplain : n.descriptor.erase = n.descriptor := by
      rw [reread_erase] at hreread
      rcases Option.map_eq_some_iff.1 hreread with ⟨e, -, he⟩
      rw [← he, erase_erase]
    rw [hreread, ← hplain, herase]
  · intro hread
    have hd : ofType d.erase.fullName = .ok d.erase := h.erase.ofType_fullName_iff.2 hread
    have hshort : d.erase.shortName = d.erase.fullName := by rw [shortName_erase, fullName_erase]
    exact ⟨.of d.erase, normalizeType_eq_ok_iff.2 ⟨hd, rfl⟩, hshort⟩

/--
Normalizing the names of an accepted type again gives the same names exactly when the type is
settled, and it is then the type itself that the full name is read as.
-/
theorem normalizeType_idempotent_iff {text : Text} {n : Normalized}
    (h : normalizeType text = .ok n) :
    ((∃ n', normalizeType n.full = .ok n' ∧ n'.full = n.full) ↔ n.descriptor.settled = true) ∧
      ((∃ n', normalizeType n.short = .ok n' ∧ n'.short = n.short) ↔
        n.descriptor.settled = true) := by
  rcases normalizeType_eq_ok_iff.1 h with ⟨hread, hnames⟩
  have htype : IsType n.descriptor := isType_of_ofType hread
  have hfull : n.full = n.descriptor.fullName := by rw [hnames]; rfl
  have hshort : n.short = n.descriptor.shortName := by rw [hnames]; rfl
  rw [hfull, hshort]
  exact ⟨htype.full_idempotent_iff, htype.short_idempotent_iff⟩

/-- An automaton type over a context, whose names are final. -/
theorem mutable_automaton_idempotent :
    (∃ n, normalizeType "mutable_automaton<context<letterset<char_letters(ab)>, b>>".toList = .ok n ∧
      n.full = "mutable_automaton<context<letterset<char_letters(ab)>, b>>".toList) ∧
    (∃ n, normalizeType "mutable_automaton<context<letterset<char_letters>, b>>".toList = .ok n ∧
      n.short = "mutable_automaton<context<letterset<char_letters>, b>>".toList) := by
  let d : Descriptor :=
    .automaton "mutable_automaton".toList
      [.context (.letterset (.genset "char_letters".toList (some "ab".toList)))
        (.weightset "b".toList)]
  have hfull : d.fullName =
      "mutable_automaton<context<letterset<char_letters(ab)>, b>>".toList := by
    decide
  have hshort : d.shortName = "mutable_automaton<context<letterset<char_letters>, b>>".toList := by
    decide
  have hletters : IsGenset (.genset "char_letters".toList (some "ab".toList)) :=
    .genset (by decide) (by decide) (by decide)
  have hcontext : IsContext (.context
      (.letterset (.genset "char_letters".toList (some "ab".toList))) (.weightset "b".toList)) :=
    .context (.letterset hletters) (.weightset (by decide))
  have htype : IsType d := by
    refine .automaton ⟨by decide, by decide⟩ ?_
    intro e he
    rw [List.mem_singleton] at he
    rw [he]
    exact .context hcontext
  have hsettled : d.settled = true := by decide
  have hread : ofType d.fullName = .ok d :=
    htype.ofType_fullName_iff.2 ((reread_eq_self_iff d).2 hsettled)
  have hnormal : normalizeType d.fullName = .ok (.of d) :=
    normalizeType_eq_ok_iff.2 ⟨hread, rfl⟩
  have h := normalizeType_idempotent_iff hnormal
  have hidempotent := h.1.2 hsettled
  have hidempotent' := h.2.2 hsettled
  have hnames : (Normalized.of d).full = d.fullName ∧ (Normalized.of d).short = d.shortName :=
    ⟨rfl, rfl⟩
  rw [hnames.1, hfull] at hidempotent
  rw [hnames.2, hshort] at hidempotent'
  exact ⟨hidempotent, hidempotent'⟩

/-! ## An automaton type that is not settled -/

/-- A label set and a weight set come out as children of their own only behind a namespace. -/
theorem ofType_lal_char_b :
    ofType "mutable_automaton<vcsn::lal_char, b>".toList =
      .ok (.automaton "mutable_automaton".toList
        [.letterset (.genset "char_letters".toList none), .weightset "b".toList]) := by
  have hquotes : Stripping.quotes "mutable_automaton<vcsn::lal_char, b>".toList =
      "mutable_automaton<vcsn::lal_char, b>".toList := by
    decide
  have hname : (word "mutable_automaton<vcsn::lal_char, b>".toList).value =
        "mutable_automaton".toList ∧
      (word "mutable_automaton<vcsn::lal_char, b>".toList).rest =
        '<' :: "vcsn::lal_char, b>".toList := by
    decide
  have hlabels : (word "vcsn::lal_char, b>".toList).value = "vcsn::lal_char".toList ∧
      (word "vcsn::lal_char, b>".toList).rest = ',' :: " b>".toList := by
    decide
  have hopens : opensContext "vcsn::lal_char".toList = false := by decide
  have hform : Keyword.labelForm? "lal_char".toList =
      some (.lettered .letters "char_letters".toList) := by
    decide
  have hstripped : Keyword.withoutNamespace "vcsn::lal_char".toList = "lal_char".toList := by
    decide
  have hfirst : firstOf "vcsn::lal_char, b>".toList =
      some (.letterset (.genset "char_letters".toList none), ',' :: " b>".toList) := by
    have hnotopens : opensContext (word "vcsn::lal_char, b>".toList).value = false := by
      rw [hlabels.1]
      exact hopens
    rw [firstOf_of_not_opens hnotopens, Reader.gives_type, hlabels.1, hlabels.2,
      gives_typeFrom_labelset (by decide) (by decide), hstripped, gives_labelset_lettered hform,
      gives_alphabet_stops (.comma _)]
    rfl
  have hsecond : gives (types (',' :: " b>".toList)) = some ([.weightset "b".toList], ['>']) := by
    have hlist : ',' :: " b>".toList = further true [.weightset "b".toList] ++ ['>'] := by decide
    have hread : ∀ d ∈ [Descriptor.weightset "b".toList], Rereads d := by
      intro d hd
      rw [List.mem_singleton] at hd
      rw [hd]
      exact (IsType.weightset (.weightset (by decide))).rereads
    rw [hlist, gives_types_append hread]
    rfl
  have hgives : gives (type "mutable_automaton<vcsn::lal_char, b>".toList) =
      some (.automaton "mutable_automaton".toList
        [.letterset (.genset "char_letters".toList none), .weightset "b".toList], []) := by
    rw [Reader.gives_type, hname.1, hname.2, gives_typeFrom_automaton (by decide) (by decide),
      gives_automaton, leaves_open, Option.bind_some]
    rw [← firstOf, hfirst, Option.bind_some, hsecond, Option.bind_some, leaves_close]
    rfl
  rw [ofType, hquotes, reported_eq_ok_iff]
  exact finish_eq_ok_iff.2 ⟨[], hgives, rfl⟩

/--
Its names are not final: the label set and the weight set are read again as the one context of the
automaton type.
-/
theorem lal_char_b_not_idempotent :
    ∃ n, normalizeType "mutable_automaton<vcsn::lal_char, b>".toList = .ok n ∧
      n.full = "mutable_automaton<letterset<char_letters>, b>".toList ∧
      (¬∃ n', normalizeType n.full = .ok n' ∧ n'.full = n.full) ∧
      ¬∃ n', normalizeType n.short = .ok n' ∧ n'.short = n.short := by
  let d : Descriptor :=
    .automaton "mutable_automaton".toList
      [.letterset (.genset "char_letters".toList none), .weightset "b".toList]
  have hread : ofType "mutable_automaton<vcsn::lal_char, b>".toList = .ok d := ofType_lal_char_b
  have htype : IsType d := isType_of_ofType hread
  have hsettled : ¬d.settled = true := by decide
  refine ⟨.of d, normalizeType_eq_ok_iff.2 ⟨hread, rfl⟩, by decide, ?_, ?_⟩
  · intro hidempotent
    exact hsettled (htype.full_idempotent_iff.1 hidempotent)
  · intro hidempotent
    exact hsettled (htype.short_idempotent_iff.1 hidempotent)

end Descriptor
end OnDemand
