import OnDemand.Proofs.Descriptor.ReadBack
import OnDemand.Proofs.Source.Laying

/-!
# Where writing a type stops

A type is written node by node, each before what is in it and from left to right, and three kinds of
nodes have a name that a table must know.  Writing stops at the first node whose name its table does
not know, and reports that name.  The induction is on the descriptor, over what the marks refuse
first; the sheet plays no part in it.

The reader of contexts has tables of its own.  It takes any word for a letter type, so that is what
a context can be refused for.  Its plain weight sets all have a type, and it reads no automaton
types.
-/

namespace OnDemand

/-! ## What marks refuse first -/

theorem Sheet.write_snd (s : Sheet) (ms : List Mark) : (s.write ms).2 = firstRefusal? ms := by
  induction ms generalizing s with
  | nil => rfl
  | cons m ms ih =>
      rw [write]
      -- A mark that is followed changes the sheet, but no sheet changes what is refused.
      cases m with
      | refuse what => rfl
      | _ => exact ih _

theorem findSome?_cons_eq_or {α β : Type} (f : α → Option β) (a : α) (as : List α) :
    (a :: as).findSome? f = (f a).or (as.findSome? f) := by
  rw [List.findSome?_cons]
  cases f a <;> rfl

@[simp] theorem firstRefusal?_cons_use (item : Text) (ms : List Mark) :
    firstRefusal? (.use item :: ms) = firstRefusal? ms := rfl

@[simp] theorem firstRefusal?_cons_useLate (item : Text) (ms : List Mark) :
    firstRefusal? (.useLate item :: ms) = firstRefusal? ms := rfl

theorem firstRefusal?_append (ms ms' : List Mark) :
    firstRefusal? (ms ++ ms') = (firstRefusal? ms).or (firstRefusal? ms') :=
  List.findSome?_append

theorem firstRefusal?_append_of_none {ms' : List Mark} (h : firstRefusal? ms' = none)
    (ms : List Mark) : firstRefusal? (ms ++ ms') = firstRefusal? ms := by
  rw [firstRefusal?_append, h, Option.or_none]

/-- Separators that refuse nothing are passed over. -/
theorem firstRefusal?_intercalate {sep : List Mark} (hsep : firstRefusal? sep = none)
    (mss : List (List Mark)) :
    firstRefusal? (List.intercalate sep mss) = mss.findSome? firstRefusal? := by
  induction mss with
  | nil => rfl
  | cons ms mss ih =>
      cases mss with
      | nil =>
          rw [List.intercalate_singleton, findSome?_cons_eq_or, List.findSome?_nil, Option.or_none]
      | cons ms' mss =>
          rw [List.intercalate_cons_cons, firstRefusal?_append, firstRefusal?_append_of_none hsep,
            ih, findSome?_cons_eq_or firstRefusal? ms]

theorem firstRefusal?_generic (head : Text) (mss : List (List Mark)) :
    firstRefusal? (generic head mss) = mss.findSome? firstRefusal? := by
  have hopening : firstRefusal? (generic head mss) =
      firstRefusal? (List.intercalate [.text ",".toList] (mss.map (.newline :: ·)) ++
        [.dedent, .newline, .text ">".toList]) := rfl
  rw [hopening, firstRefusal?_append_of_none rfl, firstRefusal?_intercalate rfl,
    List.findSome?_map]
  rfl

theorem firstRefusal?_oneLine (head : Text) (ms : List Mark) :
    firstRefusal? (oneLine head ms) = firstRefusal? ms :=
  firstRefusal?_append_of_none rfl ms

theorem firstRefusal?_parenthesized (mss : List (List Mark)) :
    firstRefusal? (parenthesized mss) = mss.findSome? firstRefusal? := by
  have hopening : firstRefusal? (parenthesized mss) =
      firstRefusal? (List.intercalate [.text " ".toList] (mss.map (· ++ [.text ",".toList])) ++
        [.text ")".toList]) := rfl
  have hcomma : firstRefusal? ∘ (· ++ [Mark.text ",".toList]) = firstRefusal? :=
    funext (firstRefusal?_append_of_none rfl)
  rw [hopening, firstRefusal?_append_of_none rfl, firstRefusal?_intercalate rfl,
    List.findSome?_map, hcomma]

/-- A name that the table does not know is refused in front of anything its marks refuse. -/
theorem firstRefusal?_known {kind name : Text} {table : List (Text × Import)}
    {marks : Import → List Mark} {refusal : Option Unsupported}
    (h : ∀ i, firstRefusal? (marks i) = refusal) :
    firstRefusal? (known kind table name marks) =
      (if name ∈ table.map Prod.fst then none else some ⟨kind, name⟩).or refusal := by
  unfold known
  cases hlookup : table.lookup name with
  | some i =>
      rw [if_pos (List.mem_map_of_mem (Text.mem_of_lookup hlookup)), Option.none_or]
      exact h i
  | none =>
      have hunknown : name ∉ table.map Prod.fst := by
        intro hmem
        rcases List.mem_map.1 hmem with ⟨p, hp, rfl⟩
        simpa using List.lookup_eq_none_iff.1 hlookup p hp
      rw [if_neg hunknown, Option.some_or]
      rfl

theorem firstRefusal?_opaqueMarks (name : Text) : firstRefusal? (opaqueMarks name) = none := by
  unfold opaqueMarks
  split <;> rfl

/-! ## The nodes of a descriptor -/

namespace Descriptor

mutual

/-- The nodes of the descriptor, each before those in it, from left to right. -/
def preorder : Descriptor → List Descriptor
  | .context l w => .context l w :: (l.preorder ++ w.preorder)
  | .tupleset sets => .tupleset sets :: preorderOfAll sets
  | .tuple sets => .tuple sets :: preorderOfAll sets
  | .oneset => [.oneset]
  | .genset letters generators => [.genset letters generators]
  | .letterset g => .letterset g :: g.preorder
  | .wordset g => .wordset g :: g.preorder
  | .nullableset l => .nullableset l :: l.preorder
  | .expressionset c i => .expressionset c i :: c.preorder
  | .expansionset e => .expansionset e :: e.preorder
  | .weightset name => [.weightset name]
  | .automaton name children => .automaton name children :: preorderOfAll children
  | .polynomialset c => .polynomialset c :: c.preorder
  | .other name => [.other name]

/-- The nodes of each of the descriptors in turn. -/
def preorderOfAll : List Descriptor → List Descriptor
  | [] => []
  | d :: ds => d.preorder ++ preorderOfAll ds

end

/-- The letter type, the weight set or the automaton type that the node names is in its table. -/
def Supported : Descriptor → Prop
  | .genset letters _ => letters ∈ Vocabulary.letters.map Prod.fst
  | .weightset name => name ∈ Vocabulary.weightsets.map Prod.fst
  | .automaton name _ => name ∈ Vocabulary.automata.map Prod.fst
  | _ => True

instance decidableSupported : (d : Descriptor) → Decidable d.Supported
  | .genset letters _ => inferInstanceAs (Decidable (letters ∈ Vocabulary.letters.map Prod.fst))
  | .weightset name => inferInstanceAs (Decidable (name ∈ Vocabulary.weightsets.map Prod.fst))
  | .automaton name _ => inferInstanceAs (Decidable (name ∈ Vocabulary.automata.map Prod.fst))
  | .context .. | .tupleset _ | .tuple _ | .oneset | .letterset _ | .wordset _ | .nullableset _
  | .expressionset .. | .expansionset _ | .polynomialset _ | .other _ => .isTrue trivial

/-- What the node is reported as where its name is unknown. -/
def named? : Descriptor → Option Unsupported
  | .genset letters _ => some ⟨"letter type".toList, letters⟩
  | .weightset name => some ⟨"weightset".toList, name⟩
  | .automaton name _ => some ⟨"automaton type".toList, name⟩
  | _ => none

/-- The refusal at the node itself, if there is one. -/
def refusal? (d : Descriptor) : Option Unsupported := if d.Supported then none else d.named?

theorem supported_of_named?_eq_none {d : Descriptor} (h : d.named? = none) : d.Supported := by
  cases d with
  | genset => cases h
  | weightset => cases h
  | automaton => cases h
  | _ => trivial

theorem refusal?_eq_none_iff {d : Descriptor} : d.refusal? = none ↔ d.Supported := by
  unfold refusal?
  split
  next h => exact ⟨fun _ => h, fun _ => rfl⟩
  next h => exact ⟨supported_of_named?_eq_none, fun hsupported => absurd hsupported h⟩

theorem refusal?_eq_some_iff {d : Descriptor} {what : Unsupported} :
    d.refusal? = some what ↔ ¬d.Supported ∧ d.named? = some what := by
  unfold refusal?
  split
  next h => simp [h]
  next h => simp [h]

theorem findSome?_refusal?_cons (d : Descriptor) (h : d.named? = none) (ds : List Descriptor) :
    (d :: ds).findSome? refusal? = ds.findSome? refusal? := by
  rw [findSome?_cons_eq_or, refusal?_eq_none_iff.2 (supported_of_named?_eq_none h), Option.none_or]

/-! ## What the marks of a type refuse first -/

theorem findSome?_firstRefusal?_singleton (ms : List Mark) :
    [ms].findSome? firstRefusal? = firstRefusal? ms := by
  rw [findSome?_cons_eq_or, List.findSome?_nil, Option.or_none]

/-- A node around another one, with no name of its own, is refused for what that one is. -/
theorem firstRefusal?_around {d e : Descriptor} (hd : d.named? = none)
    (hpreorder : d.preorder = d :: e.preorder)
    (hmarks : firstRefusal? d.marks = firstRefusal? e.marks)
    (he : firstRefusal? e.marks = e.preorder.findSome? refusal?) :
    firstRefusal? d.marks = d.preorder.findSome? refusal? := by
  rw [hpreorder, findSome?_refusal?_cons d hd, hmarks, he]

mutual

/-- The marks of a descriptor refuse first what its first refused node is refused for. -/
theorem firstRefusal?_marks (d : Descriptor) :
    firstRefusal? d.marks = d.preorder.findSome? refusal? := by
  match d with
  | .context l w =>
      rw [marks, preorder, findSome?_refusal?_cons (.context l w) rfl, firstRefusal?_cons_use,
        firstRefusal?_generic, findSome?_cons_eq_or, findSome?_firstRefusal?_singleton,
        firstRefusal?_marks l, firstRefusal?_marks w, List.findSome?_append]
  | .tupleset sets =>
      rw [marks, preorder, findSome?_refusal?_cons (.tupleset sets) rfl, firstRefusal?_cons_useLate,
        firstRefusal?_oneLine, firstRefusal?_parenthesized, firstRefusal?_marksOfAll sets]
  | .tuple sets =>
      rw [marks, preorder, findSome?_refusal?_cons (.tuple sets) rfl,
        firstRefusal?_parenthesized, firstRefusal?_marksOfAll sets]
  | .oneset => rfl
  | .genset letters generators =>
      rw [marks, preorder, findSome?_cons_eq_or]
      exact firstRefusal?_known fun _ => rfl
  | .letterset g =>
      refine firstRefusal?_around rfl rfl ?_ (firstRefusal?_marks g)
      rw [marks, firstRefusal?_cons_use, firstRefusal?_oneLine]
  | .wordset g =>
      refine firstRefusal?_around rfl rfl ?_ (firstRefusal?_marks g)
      rw [marks, firstRefusal?_cons_use, firstRefusal?_oneLine]
  | .nullableset l =>
      refine firstRefusal?_around rfl rfl ?_ (firstRefusal?_marks l)
      rw [marks, firstRefusal?_cons_use, firstRefusal?_generic, findSome?_firstRefusal?_singleton]
  | .expressionset c i =>
      refine firstRefusal?_around rfl rfl ?_ (firstRefusal?_marks c)
      rw [marks, firstRefusal?_cons_use, firstRefusal?_generic, findSome?_firstRefusal?_singleton]
  | .expansionset e =>
      refine firstRefusal?_around rfl rfl ?_ (firstRefusal?_marks e)
      rw [marks, firstRefusal?_cons_use, firstRefusal?_generic, findSome?_firstRefusal?_singleton]
  | .weightset name =>
      rw [marks, preorder, findSome?_cons_eq_or]
      refine firstRefusal?_known fun i => ?_
      split <;> rfl
  | .automaton name children =>
      rw [marks, preorder, findSome?_cons_eq_or]
      -- The children have their turn only behind a name that is known.
      refine firstRefusal?_known fun i => ?_
      rw [firstRefusal?_cons_use, firstRefusal?_generic, firstRefusal?_marksOfAll children]
  | .polynomialset c =>
      refine firstRefusal?_around rfl rfl ?_ (firstRefusal?_marks c)
      rw [marks, firstRefusal?_cons_use, firstRefusal?_generic, findSome?_firstRefusal?_singleton]
  | .other name =>
      rw [marks, preorder, firstRefusal?_opaqueMarks]
      rfl

theorem firstRefusal?_marksOfAll (ds : List Descriptor) :
    (marksOfAll ds).findSome? firstRefusal? = (preorderOfAll ds).findSome? refusal? := by
  match ds with
  | [] => rfl
  | d :: ds =>
      rw [marksOfAll, preorderOfAll, findSome?_cons_eq_or, List.findSome?_append,
        firstRefusal?_marks d, firstRefusal?_marksOfAll ds]

end

/-! ## The nodes of a context that has been read -/

/-- What a node of a context may be: no automaton type, and a plain weight set of the reader's. -/
def InContext : Descriptor → Prop
  | .weightset name => Keyword.isTerminal name
  | .automaton .. => False
  | _ => True

theorem forall_mem_preorderOfAll {p : Descriptor → Prop} {ds : List Descriptor}
    (h : ∀ d ∈ ds, ∀ e ∈ d.preorder, p e) : ∀ e ∈ preorderOfAll ds, p e := by
  induction ds with
  | nil => exact fun e he => absurd he List.not_mem_nil
  | cons d ds ih =>
      rw [preorderOfAll, List.forall_mem_append]
      exact ⟨h d List.mem_cons_self, ih fun d' hd' => h d' (List.mem_cons_of_mem d hd')⟩

theorem IsGenset.inContext {d : Descriptor} (h : IsGenset d) : ∀ e ∈ d.preorder, e.InContext := by
  cases h with
  | genset => exact List.forall_mem_singleton.2 trivial

mutual

theorem IsLabelset.inContext : ∀ {d : Descriptor}, IsLabelset d → ∀ e ∈ d.preorder, e.InContext
  | _, .letterset hg => List.forall_mem_cons.2 ⟨trivial, hg.inContext⟩
  | _, .wordset hg => List.forall_mem_cons.2 ⟨trivial, hg.inContext⟩
  | _, .nullableset hl => List.forall_mem_cons.2 ⟨trivial, hl.inContext⟩
  | _, .oneset => List.forall_mem_singleton.2 trivial
  | _, .product hd => hd.inContext
  | _, .expressions hd => hd.inContext

theorem IsWeightset.inContext : ∀ {d : Descriptor}, IsWeightset d → ∀ e ∈ d.preorder, e.InContext
  | _, .weightset hname => List.forall_mem_singleton.2 hname
  | _, .polynomialset hc => List.forall_mem_cons.2 ⟨trivial, hc.inContext⟩
  | _, .product hd => hd.inContext
  | _, .expressions hd => hd.inContext

theorem IsMember.inContext : ∀ {d : Descriptor}, IsMember d → ∀ e ∈ d.preorder, e.InContext
  | _, .labelset hd => hd.inContext
  | _, .weightset hd => hd.inContext

theorem IsProduct.inContext : ∀ {d : Descriptor}, IsProduct d → ∀ e ∈ d.preorder, e.InContext
  | _, .tupleset hds =>
    List.forall_mem_cons.2 ⟨trivial, forall_mem_preorderOfAll fun d hd => (hds d hd).inContext⟩

theorem IsExpressions.inContext :
    ∀ {d : Descriptor}, IsExpressions d → ∀ e ∈ d.preorder, e.InContext
  | _, .expressionset hc => List.forall_mem_cons.2 ⟨trivial, hc.inContext⟩

theorem IsContext.inContext : ∀ {d : Descriptor}, IsContext d → ∀ e ∈ d.preorder, e.InContext
  | _, .context hl hw =>
    List.forall_mem_cons.2 ⟨trivial, List.forall_mem_append.2 ⟨hl.inContext, hw.inContext⟩⟩

end

/-- Each plain weight set that the reader knows has a type. -/
theorem mem_weightsets_of_isTerminal {name : Text} (h : Keyword.isTerminal name) :
    name ∈ Vocabulary.weightsets.map Prod.fst := by
  have hall : ∀ w ∈ Keyword.terminals, w ∈ Vocabulary.weightsets.map Prod.fst := by decide
  exact hall name (List.contains_iff_mem.1 h)

theorem mem_letters_iff {letters : Text} :
    letters ∈ Vocabulary.letters.map Prod.fst ↔
      letters = "char_letters".toList ∨ letters = "string_letters".toList := by
  have htable : Vocabulary.letters.map Prod.fst =
      ["char_letters".toList, "string_letters".toList] := rfl
  rw [htable, List.mem_pair]

/-- A node of a context is unsupported only for its letter type. -/
theorem InContext.supported_iff {e : Descriptor} (h : e.InContext) :
    e.Supported ↔ ∀ letters generators, e = .genset letters generators →
      letters = "char_letters".toList ∨ letters = "string_letters".toList := by
  cases e with
  | genset letters generators =>
      constructor
      · rintro hsupported _ _ ⟨⟩
        exact mem_letters_iff.1 hsupported
      · intro hletters
        exact mem_letters_iff.2 (hletters letters generators rfl)
  | weightset name => exact iff_of_true (mem_weightsets_of_isTerminal h) (by rintro _ _ ⟨⟩)
  | automaton name children => exact h.elim
  | _ => exact iff_of_true trivial (by rintro _ _ ⟨⟩)

end Descriptor

/-! ## Where a visit stops -/

namespace Sheet

open Descriptor

theorem visit_snd (s : Sheet) (d : Descriptor) :
    (s.visit d).2 = d.preorder.findSome? refusal? :=
  (s.write_snd d.marks).trans (firstRefusal?_marks d)

theorem visit_eq_none_iff (s : Sheet) (d : Descriptor) :
    (s.visit d).2 = none ↔ ∀ e ∈ d.preorder, e.Supported := by
  rw [visit_snd, List.findSome?_eq_none_iff]
  exact forall₂_congr fun _ _ => refusal?_eq_none_iff

theorem visit_eq_some_iff (s : Sheet) (d : Descriptor) (what : Unsupported) :
    (s.visit d).2 = some what ↔ ∃ before e after, d.preorder = before ++ e :: after ∧
      (∀ x ∈ before, x.Supported) ∧ ¬e.Supported ∧ e.named? = some what := by
  rw [visit_snd, List.findSome?_eq_some_iff]
  simp only [refusal?_eq_none_iff, refusal?_eq_some_iff]
  constructor
  · rintro ⟨before, e, after, hsplit, ⟨hunsupported, hwhat⟩, hbefore⟩
    exact ⟨before, e, after, hsplit, hbefore, hunsupported, hwhat⟩
  · rintro ⟨before, e, after, hsplit, hbefore, hunsupported, hwhat⟩
    exact ⟨before, e, after, hsplit, ⟨hunsupported, hwhat⟩, hbefore⟩

/--
Writing a type succeeds just when all names in it are in the tables, and reports the first that is
not.  In a context that has been read each plain weight set is in its table, so writing its type
succeeds just when the letter types are those of characters and of strings.
-/
theorem visit_stops_at_first_unsupported (s : Sheet) (d : Descriptor) :
    ((s.visit d).2 = none ↔ ∀ e ∈ d.preorder, e.Supported) ∧
    (∀ what, (s.visit d).2 = some what ↔ ∃ before e after, d.preorder = before ++ e :: after ∧
      (∀ x ∈ before, x.Supported) ∧ ¬e.Supported ∧ e.named? = some what) ∧
    ∀ text, Descriptor.ofContext text = .ok d →
      (∀ name, .weightset name ∈ d.preorder → Supported (.weightset name)) ∧
      ((s.visit d).2 = none ↔ ∀ letters generators, .genset letters generators ∈ d.preorder →
        letters = "char_letters".toList ∨ letters = "string_letters".toList) := by
  refine ⟨visit_eq_none_iff s d, visit_eq_some_iff s d, fun text htext => ⟨?_, ?_⟩⟩
  · intro name hname
    have hnode := (isContext_of_ofContext htext).inContext _ hname
    exact mem_weightsets_of_isTerminal hnode
  · have hnodes := (isContext_of_ofContext htext).inContext
    rw [visit_eq_none_iff]
    constructor
    · intro h letters generators hmem
      exact (hnodes _ hmem).supported_iff.1 (h _ hmem) letters generators rfl
    · intro h e he
      refine (hnodes e he).supported_iff.2 ?_
      rintro letters generators rfl
      exact h letters generators he

/-- A context with letters that have no type is read, and writing its type stops at them. -/
theorem visit_stops_at_wideLetters :
    Descriptor.ofContext "context<letterset<wchar_letters>, b>".toList =
      .ok (.context (.letterset (.genset "wchar_letters".toList none)) (.weightset "b".toList)) ∧
    (({} : Sheet).visit (.context (.letterset (.genset "wchar_letters".toList none))
      (.weightset "b".toList))).2 ≠ none := by
  have hcontext : IsContext (.context (.letterset (.genset "wchar_letters".toList none))
      (.weightset "b".toList)) :=
    .context (.letterset (.genset (by decide) (by decide) (by decide))) (.weightset (by decide))
  have htext : Descriptor.ofContext "context<letterset<wchar_letters>, b>".toList =
      .ok (.context (.letterset (.genset "wchar_letters".toList none)) (.weightset "b".toList)) :=
    hcontext.ofContext_fullName
  have hletters := ((visit_stops_at_first_unsupported {} _).2.2 _ htext).2
  refine ⟨htext, fun hnone => ?_⟩
  have hmem : Descriptor.genset "wchar_letters".toList none ∈
      (Descriptor.context (.letterset (.genset "wchar_letters".toList none))
        (.weightset "b".toList)).preorder := by
    simp [preorder]
  exact absurd (hletters.1 hnone _ _ hmem) (by decide)

/-- The letter type is reported, which stands before the weight set. -/
example : (({} : Sheet).visit (.context (.letterset (.genset "wchar_letters".toList none))
    (.weightset "nat".toList))).2 = some ⟨"letter type".toList, "wchar_letters".toList⟩ := by
  decide

end Sheet
end OnDemand
