import OnDemand.Proofs.Descriptor.Rereading

/-!
# What is read from the name of a type

The type reader, on the name of a type, gives what `reread` says and leaves what follows the name.
The induction is on the grammar of types; for an automaton type, the reading of its first child is
the one place where the children may be grouped otherwise.
-/

namespace OnDemand
namespace Descriptor

open Reader

/-- The type reader gives what `reread` says. -/
def Rereads (d : Descriptor) : Prop :=
  ∀ rest, Stops rest → gives (type (d.fullName ++ rest)) = d.reread.map fun e => (e, rest)

/-! ## Label sets and weight sets -/

theorem IsType.isLabelset {d : Descriptor} (h : IsType d) (hlabels : d.isLabels = true) :
    IsLabelset d := by
  have hparts := h.hasParts
  cases d with
  | letterset g => exact .letterset hparts
  | wordset g => exact .wordset hparts
  | nullableset l => exact .nullableset hparts
  | oneset => exact .oneset
  | tupleset ds =>
      rcases List.exists_cons_of_ne_nil hparts.1 with ⟨d, ds, rfl⟩
      exact .product (.tupleset hparts.2)
  | expressionset c i => exact .expressions (.expressionset hparts)
  | _ => cases hlabels

theorem IsType.isWeightset {d : Descriptor} (h : IsType d) (hweights : d.isWeights = true) :
    IsWeightset d := by
  have hparts := h.hasParts
  cases d with
  | weightset name => exact .weightset hparts
  | polynomialset c => exact .polynomialset hparts
  | tupleset ds =>
      rcases List.exists_cons_of_ne_nil hparts.1 with ⟨d, ds, rfl⟩
      exact .product (.tupleset hparts.2)
  | expressionset c i => exact .expressions (.expressionset hparts)
  | _ => cases hweights

theorem IsLabelset.isLabels {d : Descriptor} (h : IsLabelset d) : d.isLabels = true := by
  cases h with
  | product hd =>
      cases hd
      rfl
  | expressions hd =>
      cases hd
      rfl
  | _ => rfl

theorem IsLabelset.reread_eq {d : Descriptor} (h : IsLabelset d) : d.reread = some d := by
  cases h with
  | product hd =>
      cases hd
      rfl
  | expressions hd =>
      cases hd
      rfl
  | _ => rfl

theorem IsContext.reread_eq {d : Descriptor} (h : IsContext d) : d.reread = some d := by
  cases h
  rfl

theorem IsWeightset.reread_eq {d : Descriptor} (h : IsWeightset d) : d.reread = some d := by
  cases h with
  | product hd =>
      cases hd
      rfl
  | expressions hd =>
      cases hd
      rfl
  | _ => rfl

/-! ## Types whose opener leads to one reading step -/

/-- The type reader hands the name over to the step that reads it back. -/
theorem gives_type_of_readsBack {step : (w : Text) → (s : Text) → Step Descriptor s}
    {d : Descriptor} {w : Text} (h : IsType d) (hopener : d.opener = w) (hword : IsWord w)
    (htype : ∀ s, gives (typeFrom w s) = gives (step w s)) (hd : ReadsBack step d) {rest : Text}
    (hrest : Stops rest) : gives (type (d.fullName ++ rest)) = some (d, rest) := by
  have hvalue : (word (d.fullName ++ rest)).value = w := by
    rw [h.word_append (by rwa [hopener]) hrest, hopener]
  have hread := hd rest hrest
  rw [hvalue] at hread
  rw [Reader.gives_type, hvalue, htype]
  exact hread

theorem gives_typeFrom_isTerminal {w : Text} (h : Keyword.isTerminal w = true) (s : Text) :
    gives (typeFrom w s) = gives (Reader.weightset w s) := by
  have hall : ∀ w ∈ Keyword.terminals,
      w ≠ [] ∧ Keyword.withoutNamespace w = w ∧ Keyword.Opening.ofWord w = .terminal := by
    decide
  rcases hall w (List.contains_iff_mem.1 h) with ⟨hne, hname, hopening⟩
  have hread := gives_typeFrom_terminal hne (by rwa [hname]) s
  rwa [hname] at hread

/-- Behind a label set word, a type is read as a label set. -/
theorem gives_typeFrom_isLabelset {w : Text} (h : Keyword.isLabelset w = true) (s : Text) :
    gives (typeFrom w s) = gives (Reader.labelset w s) := by
  have hall : ∀ p ∈ Keyword.labelsets,
      Keyword.withoutNamespace p.1 = p.1 ∧
        (Keyword.Opening.ofWord p.1 = .labelset ∨
          (Keyword.Opening.ofWord p.1 = .expressions .usual ∧ p.2 = .expressions .usual) ∨
          (Keyword.Opening.ofWord p.1 = .expressions .distributive ∧
            p.2 = .expressions .distributive)) := by
    decide
  -- The two expression set words lead to a step that the label set reader takes as well.
  rcases Option.isSome_iff_exists.1 h with ⟨form, hform⟩
  have hne : w ≠ [] := (namesLabelset_of_isLabelset h).isWord.ne_nil
  rcases hall (w, form) (mem_labelsets hform) with ⟨hname, hopening⟩
  rcases hopening with hopening | ⟨hopening, rfl⟩ | ⟨hopening, rfl⟩
  · have hread := gives_typeFrom_labelset hne (by rwa [hname]) s
    rwa [hname] at hread
  · rw [gives_labelset_expressions hform]
    exact gives_typeFrom_expressions hne (by rwa [hname]) s
  · rw [gives_labelset_expressions hform]
    exact gives_typeFrom_expressions hne (by rwa [hname]) s

theorem gives_typeFrom_polynomialset (s : Text) :
    gives (typeFrom "polynomialset".toList s) =
      gives (Reader.weightset "polynomialset".toList s) := by
  have hform : Keyword.weightForm? "polynomialset".toList = some .polynomials := by decide
  rw [gives_weightset_polynomials hform]
  exact gives_typeFrom_polynomials (by decide) (by decide) s

theorem IsLabelset.gives_type {d : Descriptor} (h : IsLabelset d) {rest : Text}
    (hrest : Stops rest) : gives (type (d.fullName ++ rest)) = some (d, rest) := by
  have hopener : Keyword.isLabelset d.opener = true := h.isLabelset_opener
  exact gives_type_of_readsBack (.labelset h) rfl (namesLabelset_of_isLabelset hopener).isWord
    (gives_typeFrom_isLabelset hopener) h.readsBack hrest

theorem IsWeightset.gives_type {d : Descriptor} (h : IsWeightset d) {rest : Text}
    (hrest : Stops rest) : gives (type (d.fullName ++ rest)) = some (d, rest) := by
  have hback := h.readsBack
  cases h with
  | weightset hname =>
      exact gives_type_of_readsBack (.weightset (.weightset hname)) rfl (isWord_of_isTerminal hname)
        (gives_typeFrom_isTerminal hname) hback hrest
  | polynomialset hc =>
      have hword : IsWord "polynomialset".toList := by decide
      exact gives_type_of_readsBack (.weightset (.polynomialset hc)) rfl hword
        gives_typeFrom_polynomialset hback hrest
  | product hd => exact IsLabelset.gives_type (.product hd) hrest
  | expressions hd => exact IsLabelset.gives_type (.expressions hd) hrest

/-! ## Expansion sets and opaque names -/

theorem gives_type_expansionset {e : Descriptor} (h : IsExpressions e) {rest : Text}
    (hrest : Stops rest) :
    gives (type ((Descriptor.expansionset e).fullName ++ rest)) = some (.expansionset e, rest) := by
  have hword : IsWord "expansionset".toList := by decide
  have hback : ReadsBack (fun _ => Reader.expansionset) (.expansionset e) := by
    refine readsBack_of_applied (p := e.fullName) (by rw [fullName, nameWith]; rfl) hword ?_
    intro rest hrest
    -- The expression set in the brackets is read as a label set would be.
    have hread := (IsLabelset.expressions h).readsBack _ (.close rest)
    cases h with
    | @expressionset c i hc =>
        have hopener : (word ((Descriptor.expressionset c i).fullName ++ '>' :: rest)).value =
            "expressionset".toList :=
          (IsLabelset.expressions (.expressionset hc)).word_append (.close rest)
        have hopening : Keyword.Opening.ofWord "expressionset".toList = .expressions .usual := by
          decide
        have hform : Keyword.labelForm? "expressionset".toList = some (.expressions .usual) := by
          decide
        rw [hopener, gives_labelset_expressions hform] at hread
        rw [gives_expansionset, leaves_open, Option.bind_some, hopener, hopening]
        simp only [hread, Option.bind_some, leaves_close]
  have htype : ∀ s, gives (typeFrom "expansionset".toList s) = gives (Reader.expansionset s) :=
    gives_typeFrom_expansions (by decide) (by decide)
  refine gives_type_of_readsBack (w := "expansionset".toList) (.expansionset h) rfl hword ?_ hback
    hrest
  exact htype

theorem gives_typeFrom_opensOpaque {w : Text} (h : OpensOpaque w) (s : Text) :
    gives (typeFrom w s) = gives (Reader.opaqueName w s) := by
  have hname := h.withoutNamespace
  have hread := gives_typeFrom_opaqueName h.isWord.ne_nil (by rw [hname]; exact h.opening) s
  rwa [hname] at hread

theorem gives_type_space (s : Text) : gives (type (' ' :: s)) = gives (type s) := by
  rw [Reader.gives_type, Reader.gives_type]
  rfl

/-- An opaque name is read as it stands. -/
theorem IsOpaque.gives_type {name : Text} (h : IsOpaque name) {rest : Text} (hrest : Stops rest) :
    gives (type (name ++ rest)) = some (.other name, rest) := by
  induction h with
  | @bare w hw =>
      rcases hw.isWord.word_append hrest.breaksWord with ⟨hvalue, hafter⟩
      rw [Reader.gives_type, hvalue, hafter, gives_typeFrom_opensOpaque hw,
        gives_opaqueName_bare w (hrest.peek_ne (by decide) (by decide))]
  | @applied w p hw hp =>
      have hpeek : peek (p ++ rest) = some '<' := by
        rcases hp with ⟨raw, -, -, rfl⟩
        exact peek_cons rfl _
      rcases hw.isWord.word_append (breaksWord_parameters hp rest) with ⟨hvalue, hafter⟩
      rw [List.append_assoc, Reader.gives_type, hvalue, hafter, gives_typeFrom_opensOpaque hw,
        gives_opaqueName_applied w hpeek, gives_parameters_append hp]
      rfl
  | @constant name _ ih =>
      have hconst : IsWord "const".toList := by decide
      have htext : "const ".toList ++ name ++ rest = "const".toList ++ ' ' :: (name ++ rest) := by
        rw [List.append_assoc]
        rfl
      rcases hconst.word_append (show BreaksWord (' ' :: (name ++ rest)) from rfl) with
        ⟨hvalue, hafter⟩
      rw [htext, Reader.gives_type, hvalue, hafter, gives_typeFrom_const (by decide) (by decide),
        gives_type_space, ih]
      rfl

/-! ## Lists and tuples -/

theorem gives_types_append {ds : List Descriptor} (h : ∀ d ∈ ds, Rereads d) (rest : Text) :
    gives (types (further true ds ++ '>' :: rest)) =
      (rereadAll ds).map fun es => (es, '>' :: rest) := by
  induction ds with
  | nil =>
      rw [rereadAll]
      exact gives_types_none (peek_close_ne rest)
  | cons d ds ih =>
      have hd : Rereads d := h d List.mem_cons_self
      have hrest : Stops (further true ds ++ '>' :: rest) :=
        stops_further_append (.close rest) true ds
      have htext : further true (d :: ds) ++ '>' :: rest =
          ',' :: ' ' :: (d.fullName ++ (further true ds ++ '>' :: rest)) := by
        rw [further_cons, List.append_assoc, List.append_assoc]
        rfl
      rw [htext, gives_types_more (peek_cons rfl _), leaves_comma, Option.bind_some,
        gives_type_space, hd _ hrest, rereadAll]
      -- If one of the types cannot be read again, neither can the list.
      cases d.reread with
      | none => rfl
      | some e =>
          simp only [Option.map_some, Option.bind_some]
          rw [ih fun d' hd' => h d' (List.mem_cons_of_mem d hd')]
          cases rereadAll ds with
          | none => rfl
          | some es => rfl

theorem namesWith_append (d : Descriptor) (ds : List Descriptor) (rest : Text) :
    namesWith true (d :: ds) ++ rest = d.fullName ++ (further true ds ++ rest) := by
  rw [namesWith_cons, List.append_assoc]
  rfl

theorem rereads_tuple {d : Descriptor} {ds : List Descriptor} (h : ∀ e ∈ d :: ds, Rereads e) :
    Rereads (.tuple (d :: ds)) := by
  intro rest hrest
  have hd : Rereads d := h d List.mem_cons_self
  have hds : ∀ e ∈ ds, Rereads e := fun e he => h e (List.mem_cons_of_mem d he)
  have hword : IsWord "std::tuple".toList := by decide
  have hstops : Stops (further true ds ++ '>' :: rest) :=
    stops_further_append (.close rest) true ds
  have hname : (Descriptor.tuple (d :: ds)).fullName ++ rest =
      applied "std::tuple".toList (namesWith true (d :: ds)) ++ rest := by
    rw [fullName, nameWith]
  rcases word_applied hword (namesWith true (d :: ds)) rest with ⟨hvalue, hafter⟩
  rw [hname, Reader.gives_type, hvalue, hafter, gives_typeFrom_tuple (by decide) (by decide),
    gives_tuple, leaves_open, Option.bind_some, namesWith_append, hd _ hstops, reread, rereadAll]
  cases d.reread with
  | none => rfl
  | some e =>
      simp only [Option.map_some, Option.bind_some]
      rw [gives_types_append hds]
      cases rereadAll ds with
      | none => rfl
      | some es =>
          simp only [Option.map_some, Option.bind_some, leaves_close]

/-! ## The first word of a type -/

theorem word_of_startsPlain {s : Text} (h : Stripping.StartsPlain s) :
    (word s).value = if beginsWord s then s.takeWhile inWord else [] := by
  rcases h with ⟨c, t, rfl, hc, -, -⟩
  have hvalue : (word (c :: t)).value = wordOf (Text.trimStart (c :: t)) := rfl
  rw [hvalue, Text.trimStart_cons hc]
  rfl

/-- The reader sees the opener, or no word when the opener cannot begin one. -/
theorem IsType.word_value {d : Descriptor} (h : IsType d) {rest : Text} (hrest : Stops rest) :
    (word (d.fullName ++ rest)).value = if beginsWord d.opener then d.opener else [] := by
  have htake := h.takeWhile_append hrest
  have hne : d.opener ≠ [] := h.hasParts.opener_ne_nil
  have hplain : Stripping.StartsPlain (d.fullName ++ rest) :=
    startsPlain_of_takeWhile (by rwa [htake])
  have hbegins : beginsWord (d.fullName ++ rest) = beginsWord d.opener := by
    rcases List.exists_cons_of_ne_nil hne with ⟨c, w, hw⟩
    have hsplit : d.fullName ++ rest = d.opener ++ (d.fullName ++ rest).dropWhile inWord := by
      rw [← htake]
      exact List.takeWhile_append_dropWhile.symm
    rw [hsplit, hw]
    rfl
  rw [word_of_startsPlain hplain, hbegins, htake]

/-! ## Words that are names of automaton types -/

theorem mem_of_weightForm {w : Text} {form : WeightForm} (h : Keyword.weightForm? w = some form) :
    w ∈ Keyword.terminals ++ Keyword.composites.map Prod.fst := by
  unfold Keyword.weightForm? at h
  split at h
  · rename_i hterminal
    exact List.mem_append_left _ (List.contains_iff_mem.1 hterminal)
  · exact List.mem_append_right _ (List.mem_map_of_mem (Text.mem_of_lookup h))

theorem weightForm_of_isAutomaton {w : Text} (h : Keyword.isAutomaton w = true) :
    Keyword.weightForm? w = none := by
  have hall : ∀ w ∈ Keyword.terminals ++ Keyword.composites.map Prod.fst,
      Keyword.isAutomaton w = false := by
    decide
  cases hform : Keyword.weightForm? w with
  | none => rfl
  | some form =>
      have hnot := hall w (mem_of_weightForm hform)
      rw [h] at hnot
      cases hnot

theorem not_isLabelset_of_isAutomaton {w : Text} (h : Keyword.isAutomaton w = true) :
    Keyword.isLabelset w = false := by
  cases hlabels : Keyword.isLabelset w with
  | false => rfl
  | true =>
      have hnot := (namesLabelset_of_isLabelset hlabels).automaton
      rw [h] at hnot
      cases hnot

theorem splitJoined_eq {w l v : Text} (h : Keyword.splitJoined? w = some (l, v)) :
    l ∈ Keyword.labelsets.map Prod.fst ∧ w = l ++ '_' :: v := by
  unfold Keyword.splitJoined? at h
  rcases List.exists_of_findSome?_eq_some h with ⟨⟨k, form⟩, hmem, hk⟩
  simp only at hk
  split at hk
  · rename_i c r hr
    cases hk
    have hw := Text.dropPrefix?_eq_some_iff.1 hr
    refine ⟨List.mem_map_of_mem hmem, ?_⟩
    simpa using hw
  · cases hk

/-- The second of the words that the name of an automaton type joins is no weight set word. -/
theorem weightForm_of_joined {name l v : Text} (hname : Keyword.isAutomaton name = true)
    (h : Keyword.splitJoined? name = some (l, v)) : Keyword.weightForm? v = none := by
  have hall : ∀ l ∈ Keyword.labelsets.map Prod.fst,
      ∀ v ∈ Keyword.terminals ++ Keyword.composites.map Prod.fst,
        Keyword.isAutomaton (l ++ '_' :: v) = false := by
    decide
  rcases splitJoined_eq h with ⟨hl, rfl⟩
  cases hv : Keyword.weightForm? v with
  | none => rfl
  | some form =>
      have hnot := hall l hl v (mem_of_weightForm hv)
      rw [hname] at hnot
      cases hnot

theorem isAutomaton_withoutNamespace {name : Text} (h : Keyword.isAutomaton name = true) :
    Keyword.isAutomaton (Keyword.withoutNamespace name) = true := by
  rcases Keyword.withoutNamespace_cases name with heq | ⟨rest, rfl, hkeyword, hrest⟩
  · rwa [heq]
  · -- Behind a namespace, the other keywords are no names of automaton types.
    have hlabels : ∀ w ∈ Keyword.labelsets.map Prod.fst,
        Keyword.isAutomaton ("vcsn::".toList ++ w) = false := by
      decide
    have hterminals : ∀ w ∈ Keyword.terminals,
        Keyword.isAutomaton ("vcsn::".toList ++ w) = false := by
      decide
    have hfixed : ∀ w ∈ ["context".toList, "expansionset".toList, "polynomialset".toList],
        Keyword.isAutomaton ("vcsn::".toList ++ w) = false := by
      decide
    have hnot : Keyword.isAutomaton ("vcsn::".toList ++ rest) ≠ false := by
      rw [h]
      decide
    rw [hrest]
    simp only [Keyword.isKeyword, Bool.or_eq_true, beq_iff_eq] at hkeyword
    rcases hkeyword with ((((hk | hk) | hk) | hk) | hk) | hk
    · exact hk
    · rcases Option.isSome_iff_exists.1 hk with ⟨form, hform⟩
      exact absurd (hlabels rest (List.mem_map_of_mem (mem_labelsets hform))) hnot
    · exact absurd (hterminals rest (List.contains_iff_mem.1 hk)) hnot
    · exact absurd (hfixed rest (by rw [hk]; decide)) hnot
    · exact absurd (hfixed rest (by rw [hk]; decide)) hnot
    · exact absurd (hfixed rest (by rw [hk]; decide)) hnot

/-! ## Openers of other types -/

theorem IsOpaque.takeWhile_eq {name : Text} (h : IsOpaque name) :
    name.takeWhile inWord = "const".toList ∨ OpensOpaque (name.takeWhile inWord) := by
  cases h with
  | bare hw =>
      rw [takeWhile_of_all hw.isWord.2]
      exact .inr hw
  | @applied w p hw hp =>
      have hbreaks : BreaksWord p := by simpa using breaksWord_parameters hp []
      rw [hw.takeWhile_append hbreaks]
      exact .inr hw
  | constant _ => exact .inl rfl

/-- A word that opens an opaque name is no weight set word either. -/
theorem OpensOpaque.weightForm {w : Text} (h : OpensOpaque w) : Keyword.weightForm? w = none := by
  have hopens := Keyword.opensNothing_of_opaqueName h.opening
  have hlabels : Keyword.isLabelset w = false := by simpa using hopens.labelset
  have hcomposites : ∀ p ∈ Keyword.composites,
      p.1 = "polynomialset".toList ∨ Keyword.isLabelset p.1 = true := by
    decide
  rw [Keyword.weightForm?, if_neg hopens.terminal]
  cases hlookup : Keyword.composites.lookup w with
  | none => rfl
  | some form =>
      rcases hcomposites (w, form) (Text.mem_of_lookup hlookup) with hpolynomials | hlabelset
      · exact absurd hpolynomials hopens.polynomials
      · have hlabelset' : Keyword.isLabelset w = true := hlabelset
        rw [hlabels] at hlabelset'
        cases hlabelset'

theorem HasParts.weightForm_opener {d : Descriptor} (h : HasParts d)
    (hweights : d.isWeights = false) : Keyword.weightForm? d.opener = none := by
  -- None of these words opens a weight set.
  have hfixed : ∀ w ∈ ["context".toList, "std::tuple".toList, "lao".toList, "letterset".toList,
      "wordset".toList, "lan".toList, "expansionset".toList, "const".toList],
      Keyword.weightForm? w = none := by
    decide
  cases d with
  | context l w => exact hfixed "context".toList (by decide)
  | tuple ds => exact hfixed "std::tuple".toList (by decide)
  | oneset => exact hfixed "lao".toList (by decide)
  | letterset g => exact hfixed "letterset".toList (by decide)
  | wordset g => exact hfixed "wordset".toList (by decide)
  | nullableset l => exact hfixed "lan".toList (by decide)
  | expansionset e => exact hfixed "expansionset".toList (by decide)
  | genset letters generators => exact h.elim
  | automaton name ds => exact weightForm_of_isAutomaton h.1.isAutomaton
  | other name =>
      have hopener : (Descriptor.other name).opener = name.takeWhile inWord := rfl
      rw [hopener]
      rcases IsOpaque.takeWhile_eq h with hconst | hopens
      · rw [hconst]
        exact hfixed "const".toList (by decide)
      · exact hopens.weightForm
  | tupleset ds => cases hweights
  | expressionset c i => cases hweights
  | weightset name => cases hweights
  | polynomialset c => cases hweights

/-- Nothing but a weight set is read as one. -/
theorem gives_weightset_none {d : Descriptor} (h : IsType d) (hweights : d.isWeights = false)
    {rest : Text} (hrest : Stops rest) :
    gives (Reader.weightset (word (d.fullName ++ rest)).value (word (d.fullName ++ rest)).rest) =
      none := by
  have hform : Keyword.weightForm? (word (d.fullName ++ rest)).value = none := by
    rw [h.word_value hrest]
    split
    · exact h.hasParts.weightForm_opener hweights
    · decide
  exact gives_weightset_unknown hform _

theorem OpensOpaque.opensContext {w : Text} (h : OpensOpaque w) :
    Reader.opensContext w = false := by
  have hopens := Keyword.opensNothing_of_opaqueName h.opening
  simp only [Reader.opensContext, Bool.or_eq_false_iff, beq_eq_false_iff_ne, ne_eq]
  exact ⟨⟨hopens.context, by simpa using hopens.labelset⟩, by simpa using hopens.joined⟩

/-- Whether the descriptor begins like a context, though it is no automaton type. -/
theorem HasParts.opensContext_opener {d : Descriptor} (h : HasParts d)
    (hlabels : d.isLabels = false) (hcontext : d.family ≠ .context)
    (hautomaton : d.family ≠ .automaton) : Reader.opensContext d.opener = false := by
  -- None of the words that open other types opens a context.
  have hfixed : ∀ w ∈ Keyword.terminals ++ ["std::tuple".toList, "expansionset".toList,
      "polynomialset".toList, "const".toList], Reader.opensContext w = false := by
    decide
  cases d with
  | tuple ds => exact hfixed "std::tuple".toList (by decide)
  | expansionset e => exact hfixed "expansionset".toList (by decide)
  | polynomialset c => exact hfixed "polynomialset".toList (by decide)
  | weightset name =>
      exact hfixed name (List.mem_append_left _ (List.contains_iff_mem.1 h))
  | other name =>
      have hopener : (Descriptor.other name).opener = name.takeWhile inWord := rfl
      rw [hopener]
      rcases IsOpaque.takeWhile_eq h with hconst | hopens
      · rw [hconst]
        exact hfixed "const".toList (by decide)
      · exact hopens.opensContext
  | genset letters generators => exact h.elim
  | context l w => exact absurd rfl hcontext
  | automaton name ds => exact absurd rfl hautomaton
  | tupleset ds => cases hlabels
  | oneset => cases hlabels
  | letterset g => cases hlabels
  | wordset g => cases hlabels
  | nullableset l => cases hlabels
  | expressionset c i => cases hlabels

/-! ## The first child of an automaton type -/

/-- What is read as the first child. -/
def firstOf (s : Text) : Option (Descriptor × Text) :=
  gives (if Reader.opensContext (word s).value then firstContext (word s).value (word s).rest
    else typeFrom (word s).value (word s).rest)

theorem firstOf_of_not_opens {s : Text} (h : Reader.opensContext (word s).value = false) :
    firstOf s = gives (type s) := by
  have hnot : ¬Reader.opensContext (word s).value = true := by simp [h]
  rw [firstOf, if_neg hnot, Reader.gives_type]

theorem firstOf_of_opens {s : Text} (h : Reader.opensContext (word s).value = true) :
    firstOf s =
      (gives (Reader.context (word s).value (word s).rest)).or
        (if Keyword.isLabelset (word s).value then
          gives (Reader.labelset (word s).value (word s).rest) else none) := by
  rw [firstOf, if_pos h, gives_firstContext]

theorem firstOf_context {d : Descriptor} (h : IsContext d) {rest : Text} (hrest : Stops rest) :
    firstOf (d.fullName ++ rest) = some (d, rest) := by
  have hopener : d.opener = "context".toList := by
    cases h
    rfl
  have hopens : Reader.opensContext (word (d.fullName ++ rest)).value = true := by
    rw [(IsType.context h).word_value hrest, hopener]
    decide
  rw [firstOf_of_opens hopens, h.readsBack rest hrest]
  rfl

/-- A type that begins like no context is read as a type. -/
theorem firstOf_other {d : Descriptor} (h : IsType d) (hlabels : d.isLabels = false)
    (hcontext : d.family ≠ .context) (hautomaton : d.family ≠ .automaton) {rest : Text}
    (hrest : Stops rest) : firstOf (d.fullName ++ rest) = gives (type (d.fullName ++ rest)) := by
  have hopens : Reader.opensContext (word (d.fullName ++ rest)).value = false := by
    rw [h.word_value hrest]
    split
    · exact h.hasParts.opensContext_opener hlabels hcontext hautomaton
    · decide
  exact firstOf_of_not_opens hopens

/-- The name of an automaton type looks like a context only when it joins two words. -/
theorem opensContext_of_isAutomaton {name : Text} (h : Keyword.isAutomaton name = true) :
    Reader.opensContext name = (Keyword.splitJoined? name).isSome := by
  have hcontext : (name == "context".toList) = false := by
    rw [beq_eq_false_iff_ne]
    rintro rfl
    exact absurd h (by decide)
  rw [Reader.opensContext, hcontext, not_isLabelset_of_isAutomaton h]
  rfl

theorem gives_context_of_joined {name : Text} (h : Keyword.isAutomaton name = true)
    (hjoined : (Keyword.splitJoined? name).isSome = true) (s : Text) :
    gives (Reader.context name s) = none := by
  have hlabels : Keyword.isLabelset name = false := not_isLabelset_of_isAutomaton h
  have hcontext : name ≠ "context".toList := by
    rintro rfl
    exact absurd h (by decide)
  rcases Option.isSome_iff_exists.1 hjoined with ⟨⟨l, v⟩, hsplit⟩
  have hjoin : joined? name = some (l, v) := by
    rw [joined?, hlabels]
    exact hsplit
  rw [gives_context_joined hcontext hjoin]
  simp [gives_weightset_unknown (weightForm_of_joined h hsplit)]

/-- An automaton type whose name joins two words cannot be read in the first place. -/
theorem firstOf_joined {name : Text} {ds : List Descriptor} (h : IsType (.automaton name ds))
    (hbegins : beginsWord name = true) (hjoined : (Keyword.splitJoined? name).isSome = true)
    {rest : Text} (hrest : Stops rest) :
    firstOf ((Descriptor.automaton name ds).fullName ++ rest) = none := by
  have hname : Keyword.isAutomaton name = true := h.hasParts.1.isAutomaton
  have hvalue : (word ((Descriptor.automaton name ds).fullName ++ rest)).value = name := by
    rw [h.word_value hrest]
    exact if_pos hbegins
  have hopens : Reader.opensContext
      (word ((Descriptor.automaton name ds).fullName ++ rest)).value = true := by
    rw [hvalue, opensContext_of_isAutomaton hname]
    exact hjoined
  rw [firstOf_of_opens hopens, hvalue, gives_context_of_joined hname hjoined,
    not_isLabelset_of_isAutomaton hname]
  rfl

theorem firstOf_automaton {name : Text} {ds : List Descriptor} (h : IsType (.automaton name ds))
    (hreads : beginsWord name = false ∨ (Keyword.splitJoined? name).isSome = false)
    {rest : Text} (hrest : Stops rest) :
    firstOf ((Descriptor.automaton name ds).fullName ++ rest) =
      gives (type ((Descriptor.automaton name ds).fullName ++ rest)) := by
  have hopener : (Descriptor.automaton name ds).opener = name := rfl
  have hopens : Reader.opensContext
      (word ((Descriptor.automaton name ds).fullName ++ rest)).value = false := by
    rw [h.word_value hrest, hopener]
    rcases hreads with hbegins | hjoined
    · have hnone : (if beginsWord name then name else []) = [] := if_neg (by simp [hbegins])
      rw [hnone]
      decide
    · split
      · exact (opensContext_of_isAutomaton h.hasParts.1.isAutomaton).trans hjoined
      · decide
  exact firstOf_of_not_opens hopens

theorem firstOf_labelset {d : Descriptor} (h : IsLabelset d) {rest : Text} (hrest : Stops rest) :
    firstOf (d.fullName ++ rest) =
      ((leaves (separator rest)).bind fun r =>
        (gives (Reader.weightset (word r).value (word r).rest)).bind fun q =>
          some (.context d q.1, q.2)).or (some (d, rest)) := by
  have hopener := namesLabelset_of_isLabelset h.isLabelset_opener
  have hvalue : (word (d.fullName ++ rest)).value = d.opener := h.word_append hrest
  have hlabels : Keyword.isLabelset (word (d.fullName ++ rest)).value = true := by
    rw [hvalue]
    exact hopener.isLabelset
  have hopens : Reader.opensContext (word (d.fullName ++ rest)).value = true := by
    rw [Reader.opensContext, hlabels]
    simp
  rw [firstOf_of_opens hopens, if_pos hlabels, gives_context_labelset h h.readsBack hrest,
    h.readsBack rest hrest]

/-- A label set alone, or before anything but a weight set, is read by itself. -/
theorem firstOf_labelset_alone {d : Descriptor} {ds : List Descriptor} (h : IsLabelset d)
    (hds : ∀ e ∈ ds, IsType e) (hmerges : merges (d :: ds) = false) (rest : Text) :
    firstOf (d.fullName ++ (further true ds ++ '>' :: rest)) =
      some (d, further true ds ++ '>' :: rest) := by
  have hstops : Stops (further true ds ++ '>' :: rest) :=
    stops_further_append (.close rest) true ds
  rw [firstOf_labelset h hstops]
  cases ds with
  | nil =>
      rw [show further true [] ++ '>' :: rest = '>' :: rest from rfl, separator_close]
      rfl
  | cons e es =>
      have hweights : e.isWeights = false := by
        have hboth : (d.isLabels && e.isWeights) = false := hmerges
        rwa [h.isLabels, Bool.true_and] at hboth
      have htext : further true (e :: es) ++ '>' :: rest =
          ',' :: ' ' :: (e.fullName ++ (further true es ++ '>' :: rest)) := by
        rw [further_cons, List.append_assoc, List.append_assoc]
        rfl
      have hnone := gives_weightset_none (hds e List.mem_cons_self) hweights
        (stops_further_append (.close rest) true es)
      rw [htext, separator_comma, Option.bind_some, (word_space _).1, (word_space _).2, hnone]
      rfl

/-- A label set before a weight set is read together with it. -/
theorem firstOf_labelset_merged {d e : Descriptor} {es : List Descriptor} (h : IsLabelset d)
    (he : IsWeightset e) (rest : Text) :
    firstOf (d.fullName ++ (further true (e :: es) ++ '>' :: rest)) =
      some (.context d e, further true es ++ '>' :: rest) := by
  have hstops : Stops (further true (e :: es) ++ '>' :: rest) :=
    stops_further_append (.close rest) true (e :: es)
  have htext : further true (e :: es) ++ '>' :: rest =
      ',' :: ' ' :: (e.fullName ++ (further true es ++ '>' :: rest)) := by
    rw [further_cons, List.append_assoc, List.append_assoc]
    rfl
  have hread := he.readsBack _ (stops_further_append (.close rest) true es)
  rw [firstOf_labelset h hstops, htext, separator_comma, Option.bind_some, (word_space _).1,
    (word_space _).2, hread]
  rfl

/-! ## Automaton types -/

/-- What is read as the children. -/
def childrenOf (s : Text) : Option (List Descriptor × Text) :=
  (firstOf s).bind fun p => (gives (types p.2)).bind fun q => some (p.1 :: q.1, q.2)

section Children

variable {d : Descriptor} {ds : List Descriptor}

/-- The children are read one by one once the first is. -/
theorem childrenOf_apart (hds : ∀ e ∈ ds, Rereads e) (hmerges : merges (d :: ds) = false)
    {rest : Text}
    (hfirst : firstOf (d.fullName ++ (further true ds ++ '>' :: rest)) =
      d.reread.map fun e => (e, further true ds ++ '>' :: rest)) :
    childrenOf (d.fullName ++ (further true ds ++ '>' :: rest)) =
      (rereadAll (d :: ds)).map fun es => (merged es, '>' :: rest) := by
  rw [childrenOf, hfirst]
  cases hd : d.reread with
  | none =>
      rw [rereadAll, hd]
      rfl
  | some e =>
      simp only [Option.map_some, Option.bind_some]
      rw [gives_types_append hds]
      cases hes : rereadAll ds with
      | none =>
          rw [rereadAll, hd, Option.bind_some, hes]
          rfl
      | some es =>
          have hall : rereadAll (d :: ds) = some (e :: es) := by
            rw [rereadAll, hd, Option.bind_some, hes]
            rfl
          -- What is read has the kinds of what was there, so it is not merged either.
          have hapart : merges (e :: es) = false := (merges_of_rereadAll hall).trans hmerges
          rw [hall, Option.map_some, Option.map_some, Option.bind_some,
            merged_of_not_merges hapart]

/-- A label set and the weight set after it are read as one child. -/
theorem childrenOf_merged (h : IsLabelset d) (htypes : ∀ e ∈ ds, IsType e)
    (hds : ∀ e ∈ ds, Rereads e) (hmerges : merges (d :: ds) = true) (rest : Text) :
    childrenOf (d.fullName ++ (further true ds ++ '>' :: rest)) =
      (rereadAll (d :: ds)).map fun es => (merged es, '>' :: rest) := by
  cases ds with
  | nil => cases hmerges
  | cons e es =>
      have hboth : (d.isLabels && e.isWeights) = true := hmerges
      have hweights : e.isWeights = true := (Bool.and_eq_true_iff.1 hboth).2
      have he : IsWeightset e := (htypes e List.mem_cons_self).isWeightset hweights
      rw [childrenOf, firstOf_labelset_merged h he, Option.bind_some,
        gives_types_append fun e' he' => hds e' (List.mem_cons_of_mem e he'), rereadAll,
        h.reread_eq, Option.bind_some, rereadAll, he.reread_eq, Option.bind_some]
      cases rereadAll es with
      | none => rfl
      | some es' =>
          simp only [Option.map_some, Option.bind_some, merged, hboth, if_true]

theorem childrenOf_labelset (h : IsLabelset d) (htypes : ∀ e ∈ ds, IsType e)
    (hds : ∀ e ∈ ds, Rereads e) (rest : Text) :
    childrenOf (d.fullName ++ (further true ds ++ '>' :: rest)) =
      (rereadAll (d :: ds)).map fun es => (merged es, '>' :: rest) := by
  cases hmerges : merges (d :: ds) with
  | true => exact childrenOf_merged h htypes hds hmerges rest
  | false =>
      refine childrenOf_apart hds hmerges ?_
      rw [firstOf_labelset_alone h htypes hmerges, h.reread_eq]
      rfl

/-- An automaton type whose name joins the words of a context is not read as a first child. -/
theorem childrenOf_automaton {name : Text} {es : List Descriptor}
    (hd : IsType (.automaton name es)) (hread : Rereads (.automaton name es))
    (hds : ∀ e ∈ ds, Rereads e) (hmerges : merges (.automaton name es :: ds) = false)
    (rest : Text) :
    childrenOf ((Descriptor.automaton name es).fullName ++ (further true ds ++ '>' :: rest)) =
      if opensJoined (.automaton name es :: ds) then none
      else (rereadAll (.automaton name es :: ds)).map fun es => (merged es, '>' :: rest) := by
  have hstops : Stops (further true ds ++ '>' :: rest) :=
    stops_further_append (.close rest) true ds
  cases hjoined : (Keyword.splitJoined? name).isSome with
  | false =>
      have hopens : opensJoined (.automaton name es :: ds) = false := hjoined
      rw [hopens]
      refine childrenOf_apart hds hmerges ?_
      rw [firstOf_automaton hd (.inr hjoined) hstops, hread _ hstops]
  | true =>
      have hopens : opensJoined (.automaton name es :: ds) = true := hjoined
      rw [hopens, if_pos rfl, childrenOf]
      cases hbegins : beginsWord name with
      | true =>
          rw [firstOf_joined hd hbegins hjoined hstops]
          rfl
      | false =>
          -- No word is read, so the name is not taken apart, but it is not read at all.
          have hnone : (Descriptor.automaton name es).reread = none := by
            rw [reread, hbegins]
            rfl
          rw [firstOf_automaton hd (.inl hbegins) hstops, hread _ hstops, hnone]
          rfl

theorem childrenOf_eq (hd : IsType d) (htypes : ∀ e ∈ ds, IsType e) (hread : Rereads d)
    (hds : ∀ e ∈ ds, Rereads e) (rest : Text) :
    childrenOf (d.fullName ++ (further true ds ++ '>' :: rest)) =
      if opensJoined (d :: ds) then none
      else (rereadAll (d :: ds)).map fun es => (merged es, '>' :: rest) := by
  have hstops : Stops (further true ds ++ '>' :: rest) :=
    stops_further_append (.close rest) true ds
  have hparts := hd.hasParts
  cases hlabels : d.isLabels with
  -- A label set may be read together with a weight set behind it.
  | true =>
      have hjoined : opensJoined (d :: ds) = false := by
        cases d with
        | automaton name es => cases hlabels
        | _ => rfl
      rw [hjoined]
      exact childrenOf_labelset (hd.isLabelset hlabels) htypes hds rest
  | false =>
      -- Anything else is a child by itself.
      have hmerges : merges (d :: ds) = false := by
        cases ds with
        | nil => rfl
        | cons e es => simp [merges, hlabels]
      cases d with
      | context l w =>
          refine childrenOf_apart hds hmerges ?_
          exact firstOf_context (.context hparts.1 hparts.2) hstops
      | automaton name es => exact childrenOf_automaton hd hread hds hmerges rest
      | _ =>
          refine childrenOf_apart hds hmerges ?_
          rw [firstOf_other hd hlabels (by simp [family]) (by simp [family]) hstops,
            hread _ hstops]

end Children

/-- A character that stands within words only opens no type. -/
theorem gives_type_wordless {c : Char} (hword : inWord c = true) (hstart : startsWord c = false)
    (t : Text) : gives (type (c :: t)) = none := by
  have hblank : isBlank c = false := isBlank_of_inWord hword
  have hvalue : (word (c :: t)).value = [] ∧ (word (c :: t)).rest = c :: t := by
    simp [word, wordOf, afterWord, Text.trimStart_cons hblank, hstart]
  have hpeek : peek (c :: t) = some c := peek_cons hblank t
  have hbracket : peek (c :: t) ≠ some '[' := by
    rw [hpeek]
    rintro ⟨⟩
    exact absurd hword (by decide)
  have htyped : peek (c :: t) ≠ some '<' := by
    rw [hpeek]
    rintro ⟨⟩
    exact absurd hword (by decide)
  rw [Reader.gives_type, hvalue.1, hvalue.2, gives_typeFrom_unnamed,
    gives_unnamedType_none hbracket htyped]

theorem gives_type_automaton_wordless {name : Text} (h : NamesAutomaton name)
    (hbegins : beginsWord name = false) (t : Text) : gives (type (name ++ t)) = none := by
  rcases List.exists_cons_of_ne_nil h.ne_nil with ⟨c, w, rfl⟩
  have hword : inWord c = true := by
    have hall := List.all_eq_true.1 h.inWord
    exact hall c List.mem_cons_self
  exact gives_type_wordless hword hbegins (w ++ t)

theorem rereads_automaton {name : Text} {d : Descriptor} {ds : List Descriptor}
    (hname : NamesAutomaton name) (htypes : ∀ e ∈ d :: ds, IsType e)
    (h : ∀ e ∈ d :: ds, Rereads e) : Rereads (.automaton name (d :: ds)) := by
  intro rest hrest
  have hfull : (Descriptor.automaton name (d :: ds)).fullName ++ rest =
      applied name (namesWith true (d :: ds)) ++ rest := by
    rw [fullName, nameWith]
  cases hbegins : beginsWord name with
  -- A name that begins no word is not read as that of an automaton type.
  | false =>
      rw [hfull, applied_append, gives_type_automaton_wordless hname hbegins, reread, hbegins]
      rfl
  | true =>
      have hword : IsWord name := ⟨hbegins, hname.inWord⟩
      have hopening : Keyword.Opening.ofWord (Keyword.withoutNamespace name) = .automaton :=
        Keyword.opening_of_isAutomaton (isAutomaton_withoutNamespace hname.isAutomaton)
      have hchildren := childrenOf_eq (htypes d List.mem_cons_self)
        (fun e he => htypes e (List.mem_cons_of_mem d he)) (h d List.mem_cons_self)
        (fun e he => h e (List.mem_cons_of_mem d he)) rest
      rcases word_applied hword (namesWith true (d :: ds)) rest with ⟨hvalue, hafter⟩
      -- What is read in the brackets are the children, of which the first may be a context.
      have hread : gives (type ((Descriptor.automaton name (d :: ds)).fullName ++ rest)) =
          (childrenOf (d.fullName ++ (further true ds ++ '>' :: rest))).bind fun p =>
            (leaves (expect '>' p.2)).bind fun r =>
              some (.automaton (Keyword.withoutNamespace name) p.1, r) := by
        rw [hfull, Reader.gives_type, hvalue, hafter,
          gives_typeFrom_automaton hword.ne_nil hopening, gives_automaton, leaves_open,
          Option.bind_some, namesWith_append]
        simp only [childrenOf, firstOf, Option.bind_assoc, Option.bind_some]
      rw [hread, hchildren, reread, hbegins]
      cases opensJoined (d :: ds) with
      | true => rfl
      | false =>
          cases rereadAll (d :: ds) with
          | none => rfl
          | some es =>
              simp [leaves_close]

/-! ## Every type -/

theorem IsType.rereads {d : Descriptor} (h : IsType d) : Rereads d := by
  induction h with
  | context hd =>
      intro rest hrest
      rw [hd.gives_type hrest, hd.reread_eq]
      rfl
  | labelset hd =>
      intro rest hrest
      rw [hd.gives_type hrest, hd.reread_eq]
      rfl
  | weightset hd =>
      intro rest hrest
      rw [hd.gives_type hrest, hd.reread_eq]
      rfl
  | expansionset he =>
      intro rest hrest
      rw [gives_type_expansionset he hrest]
      rfl
  | tuple _ ih => exact rereads_tuple ih
  | automaton hname hds ih => exact rereads_automaton hname hds ih
  | other hname =>
      intro rest hrest
      rw [fullName, nameWith, hname.gives_type hrest]
      rfl

end Descriptor
end OnDemand
