import OnDemand.Proofs.Descriptor.UniqueNames

/-!
# Types read again from their names

A context reads back from its name, and so do value sets and opaque names.  An automaton type need
not: the comma between its first two children is also the comma of a context, the namespace is taken
off its name once more, and an automaton type that comes first may look like a context in which two
words are joined.  `reread` says what is read from the name of a type, and `settled` says which
types are read as themselves.
-/

namespace OnDemand
namespace Descriptor

/-! ## What is read again -/

/-- Whether the descriptor is a label set. -/
def isLabels : Descriptor → Bool
  | .letterset _ | .wordset _ | .nullableset _ | .oneset | .tupleset _ | .expressionset .. => true
  | _ => false

/-- Whether the descriptor is a weight set. -/
def isWeights : Descriptor → Bool
  | .weightset _ | .polynomialset _ | .tupleset _ | .expressionset .. => true
  | _ => false

/-- Whether the first two children are read as one context. -/
def merges : List Descriptor → Bool
  | l :: w :: _ => l.isLabels && w.isWeights
  | _ => false

/-- The children, the first two as one context if they are read so. -/
def merged : List Descriptor → List Descriptor
  | l :: w :: ds => if l.isLabels && w.isWeights then .context l w :: ds else l :: w :: ds
  | ds => ds

/-- Whether the name of the first child joins a label set word and a weight set word. -/
def opensJoined : List Descriptor → Bool
  | .automaton name _ :: _ => (Keyword.splitJoined? name).isSome
  | _ => false

/-- Whether the name begins as words do. -/
def beginsWord (name : Text) : Bool := name.head?.any startsWord

mutual

/-- What is read from the name of the type, if it can be read. -/
def reread : Descriptor → Option Descriptor
  | .tuple ds => (rereadAll ds).map .tuple
  | .automaton name ds =>
    if beginsWord name && !opensJoined ds then
      (rereadAll ds).map fun es => .automaton (Keyword.withoutNamespace name) (merged es)
    else none
  | d => some d

/-- What is read from the names of the types, if all of them can be read. -/
def rereadAll : List Descriptor → Option (List Descriptor)
  | [] => some []
  | d :: ds => (reread d).bind fun e => (rereadAll ds).map (e :: ·)

end

mutual

/--
Whether the type is read again as itself: in every automaton type of the tree, the name is a word
without the namespace, the first two children are no label set with a weight set, and the first
child is no automaton type whose name joins two words.
-/
def settled : Descriptor → Bool
  | .tuple ds => allSettled ds
  | .automaton name ds =>
    beginsWord name && Keyword.withoutNamespace name == name && !merges ds && !opensJoined ds &&
      allSettled ds
  | _ => true

/-- Whether each of the types is read again as itself. -/
def allSettled : List Descriptor → Bool
  | [] => true
  | d :: ds => d.settled && allSettled ds

end

theorem merged_of_not_merges {ds : List Descriptor} (h : merges ds = false) : merged ds = ds := by
  rcases ds with _ | ⟨l, _ | ⟨w, ds⟩⟩
  · rfl
  · rfl
  · have hboth : (l.isLabels && w.isWeights) = false := h
    rw [merged, hboth]
    rfl

theorem length_merged_lt {ds : List Descriptor} (h : merges ds = true) :
    (merged ds).length < ds.length := by
  rcases ds with _ | ⟨l, _ | ⟨w, ds⟩⟩
  · cases h
  · cases h
  · have hboth : (l.isLabels && w.isWeights) = true := h
    rw [merged, hboth]
    simp

theorem length_of_rereadAll {ds es : List Descriptor} (h : rereadAll ds = some es) :
    es.length = ds.length := by
  induction ds generalizing es with
  | nil =>
      cases h
      rfl
  | cons d ds ih =>
      rcases Option.bind_eq_some_iff.1 h with ⟨e, -, h⟩
      rcases Option.map_eq_some_iff.1 h with ⟨es', hes', rfl⟩
      simp [ih hes']

/-- The children come out as they were only when the first two are not merged. -/
theorem merged_eq_iff {ds es : List Descriptor} (h : rereadAll ds = some es) :
    merged es = ds ↔ es = ds ∧ merges ds = false := by
  constructor
  · intro hmerged
    cases hmerges : merges es with
    | true =>
        -- Merging leaves one child fewer than there were.
        have hlt := length_merged_lt hmerges
        have hlength := length_of_rereadAll h
        rw [hmerged, hlength] at hlt
        exact absurd hlt (Nat.lt_irrefl _)
    | false =>
        rw [merged_of_not_merges hmerges] at hmerged
        subst hmerged
        exact ⟨rfl, hmerges⟩
  · rintro ⟨rfl, hmerges⟩
    exact merged_of_not_merges hmerges

/-- What is read again is a label set, or a weight set, only where one stood. -/
theorem kinds_of_reread {d e : Descriptor} (h : d.reread = some e) :
    e.isLabels = d.isLabels ∧ e.isWeights = d.isWeights := by
  cases d with
  | tuple ds =>
      rcases Option.map_eq_some_iff.1 h with ⟨es, -, rfl⟩
      exact ⟨rfl, rfl⟩
  | automaton name ds =>
      rw [reread] at h
      split at h
      · rcases Option.map_eq_some_iff.1 h with ⟨es, -, rfl⟩
        exact ⟨rfl, rfl⟩
      · cases h
  | _ =>
      cases h
      exact ⟨rfl, rfl⟩

theorem merges_of_rereadAll {ds es : List Descriptor} (h : rereadAll ds = some es) :
    merges es = merges ds := by
  rcases ds with _ | ⟨l, _ | ⟨w, ds⟩⟩
  · cases h
    rfl
  · rcases Option.bind_eq_some_iff.1 h with ⟨l', -, h⟩
    rcases Option.map_eq_some_iff.1 h with ⟨es', hes', rfl⟩
    cases hes'
    rfl
  · -- Only the first two children are looked at.
    rcases Option.bind_eq_some_iff.1 h with ⟨l', hl', h⟩
    rcases Option.map_eq_some_iff.1 h with ⟨es', hes', rfl⟩
    rcases Option.bind_eq_some_iff.1 hes' with ⟨w', hw', hes'⟩
    rcases Option.map_eq_some_iff.1 hes' with ⟨es'', -, rfl⟩
    simp only [merges, (kinds_of_reread hl').1, (kinds_of_reread hw').2]

mutual

theorem reread_eq_self_iff (d : Descriptor) : d.reread = some d ↔ d.settled = true := by
  match d with
  | .tuple ds =>
      have hds := rereadAll_eq_self_iff ds
      rw [reread, settled, ← hds]
      constructor
      · intro h
        rcases Option.map_eq_some_iff.1 h with ⟨es, hes, heq⟩
        cases heq
        exact hes
      · intro h
        rw [h]
        rfl
  | .automaton name ds =>
      have hds := rereadAll_eq_self_iff ds
      -- The name and the first two children, and then each child by itself.
      simp only [reread, settled, Bool.and_eq_true, Bool.not_eq_true', beq_iff_eq, ← hds]
      constructor
      · intro h
        split at h
        · rename_i hopens
          rcases Option.map_eq_some_iff.1 h with ⟨es, hes, heq⟩
          injection heq with hname hchildren
          rcases (merged_eq_iff hes).1 hchildren with ⟨rfl, hmerges⟩
          exact ⟨⟨⟨⟨hopens.1, hname⟩, hmerges⟩, hopens.2⟩, hes⟩
        · cases h
      · rintro ⟨⟨⟨⟨hbegins, hname⟩, hmerges⟩, hjoined⟩, hes⟩
        rw [if_pos ⟨hbegins, hjoined⟩, hes, Option.map_some, hname, merged_of_not_merges hmerges]
  | .context l w => simp [reread, settled]
  | .tupleset ds => simp [reread, settled]
  | .oneset => simp [reread, settled]
  | .genset letters generators => simp [reread, settled]
  | .letterset g => simp [reread, settled]
  | .wordset g => simp [reread, settled]
  | .nullableset l => simp [reread, settled]
  | .expressionset c i => simp [reread, settled]
  | .expansionset e => simp [reread, settled]
  | .weightset name => simp [reread, settled]
  | .polynomialset c => simp [reread, settled]
  | .other name => simp [reread, settled]

theorem rereadAll_eq_self_iff (ds : List Descriptor) :
    rereadAll ds = some ds ↔ allSettled ds = true := by
  match ds with
  | [] => simp [rereadAll, allSettled]
  | d :: ds =>
      have hd := reread_eq_self_iff d
      have hds := rereadAll_eq_self_iff ds
      rw [rereadAll, allSettled, Bool.and_eq_true, ← hd, ← hds]
      constructor
      · intro h
        rcases Option.bind_eq_some_iff.1 h with ⟨e, he, h⟩
        rcases Option.map_eq_some_iff.1 h with ⟨es, hes, heq⟩
        cases heq
        exact ⟨he, hes⟩
      · rintro ⟨he, hes⟩
        rw [he, Option.bind_some, hes]
        rfl

end

end Descriptor
end OnDemand
