import OnDemand.Proofs.Source.Refusals
import OnDemand.Proofs.Text.Pieces

/-!
# The identifiers of a type

The identifiers in the text of a type come from its nodes: a node takes some from the vocabulary,
and an opaque name may bring others along.  No identifier goes from one node into the next, since
the marks put a delimiter between any two.  The marks that write nothing, asides, come from the
nodes in the same way.
-/

namespace OnDemand

/-! ## Identifiers of a text -/

namespace Text

/-- Whether the character may stand in an identifier. -/
def inIdentifier (c : Char) : Bool := c.isAlphanum || c == '_'

/-- The identifiers in a text, in order. -/
def identifiers (t : Text) : List Text :=
  (splitWhere (fun c => !inIdentifier c) t).filter fun piece => !piece.isEmpty

theorem identifiers_nil : identifiers [] = [] := rfl

theorem identifiers_append {c : Char} (h : inIdentifier c = false) (a b : Text) :
    identifiers (a ++ c :: b) = identifiers a ++ identifiers b := by
  rw [identifiers, splitWhere_append (by simp [h]), List.filter_append, identifiers, identifiers]

theorem identifiers_cons {c : Char} (h : inIdentifier c = false) (t : Text) :
    identifiers (c :: t) = identifiers t :=
  identifiers_append h [] t

theorem identifiers_word {t : Text} (hne : t ≠ []) (h : t.all inIdentifier = true) :
    identifiers t = [t] := by
  rw [identifiers, splitWhere_of_forall fun c hc => by simp [List.all_eq_true.1 h c hc]]
  simp [hne]

/-- No identifier is under way at the end of the text. -/
def Rests (t : Text) : Prop := ∀ u, identifiers (t ++ u) = identifiers t ++ identifiers u

theorem rests_nil : Rests [] := fun _ => rfl

theorem rests_concat {c : Char} (h : inIdentifier c = false) (t : Text) : Rests (t ++ [c]) := by
  intro u
  rw [List.append_assoc, List.singleton_append, identifiers_append h, identifiers_append h,
    identifiers_nil, List.append_nil]

theorem identifiers_tabs (k : Nat) (t : Text) :
    identifiers (List.replicate k '\t' ++ t) = identifiers t := by
  induction k with
  | zero => rfl
  | succ k ih =>
      rw [List.replicate_succ, List.cons_append, identifiers_cons (by decide), ih]

/-- The texts have the same identifiers, and have the same after anything more is written. -/
def Alike (t t' : Text) : Prop := ∀ u, identifiers (t ++ u) = identifiers (t' ++ u)

theorem Alike.append {t t' : Text} (h : Alike t t') (u : Text) : Alike (t ++ u) (t' ++ u) := by
  intro v
  rw [List.append_assoc, List.append_assoc]
  exact h (u ++ v)

theorem Alike.trans {t t' t'' : Text} (h : Alike t t') (h' : Alike t' t'') : Alike t t'' :=
  fun u => (h u).trans (h' u)

end Text

/-! ## The text of marks -/

/-- What the marks write, but for tabs. -/
def inked : List Mark → Text
  | [] => []
  | .text t :: ms => t ++ inked ms
  | .newline :: ms => '\n' :: inked ms
  | _ :: ms => inked ms

theorem inked_append (ms ms' : List Mark) : inked (ms ++ ms') = inked ms ++ inked ms' := by
  induction ms with
  | nil => rfl
  | cons m ms ih =>
      cases m with
      | text t => rw [List.cons_append, inked, ih, inked, List.append_assoc]
      | newline => rw [List.cons_append, inked, ih, inked, List.cons_append]
      | _ => exact ih

namespace Sheet

open Text

/-- Where a line starts, no identifier is under way. -/
def Settled (s : Sheet) : Prop := s.fresh = true → Rests s.body

theorem body_put_of_not_fresh {s : Sheet} (h : s.fresh = false) (c : Char) :
    (s.put c).body = s.body ++ [c] := by
  unfold put
  split
  next hc => simp [newline, body, hc]
  next => simp [body, h]

theorem alike_put {s : Sheet} (h : s.Settled) (c : Char) :
    Alike (s.put c).body (s.body ++ [c]) ∧ (s.put c).Settled := by
  by_cases hc : c = '\n'
  · subst hc
    have hbody : (s.put '\n').body = s.body ++ ['\n'] := by simp [put, newline, body]
    refine ⟨fun u => by rw [hbody], fun _ => ?_⟩
    rw [hbody]
    exact rests_concat (by decide) s.body
  · cases hfresh : s.fresh with
    | false =>
        refine ⟨fun u => by rw [body_put_of_not_fresh hfresh], ?_⟩
        intro hfresh'
        rw [put, if_neg hc, hfresh] at hfresh'
        cases hfresh'
    | true =>
        -- The tabs of the line are put where no identifier is under way.
        have hbody : (s.put c).body = s.body ++ (List.replicate s.level '\t' ++ [c]) := by
          simp [put, hc, hfresh, body]
        refine ⟨fun u => ?_, ?_⟩
        · rw [hbody, List.append_assoc, List.append_assoc, List.append_assoc, h hfresh, h hfresh,
            identifiers_tabs]
        · intro hfresh'
          rw [put, if_neg hc, if_pos hfresh] at hfresh'
          cases hfresh'

theorem alike_emit {s : Sheet} (h : s.Settled) (t : Text) :
    Alike (s.emit t).body (s.body ++ t) ∧ (s.emit t).Settled := by
  induction t generalizing s with
  | nil => exact ⟨fun u => by rw [List.append_nil]; rfl, h⟩
  | cons c t ih =>
      obtain ⟨hput, hsettled⟩ := alike_put h c
      obtain ⟨hrest, hsettled'⟩ := ih hsettled
      have hcons : s.body ++ c :: t = s.body ++ [c] ++ t := by simp
      refine ⟨?_, hsettled'⟩
      rw [hcons]
      exact hrest.trans (hput.append t)

theorem alike_write {s s' : Sheet} {ms : List Mark} (h : s.Settled)
    (hwrite : s.write ms = (s', none)) :
    Alike s'.body (s.body ++ inked ms) := by
  induction ms generalizing s with
  | nil =>
      cases hwrite
      intro u
      rw [inked, List.append_nil]
  | cons m ms ih =>
      rw [write] at hwrite
      -- Only a text and a line break write anything; each other mark leaves the body as it is, on a
      -- sheet that asks for more.
      cases m with
      | text t =>
          obtain ⟨hemit, hsettled⟩ := alike_emit h t
          rw [inked, ← List.append_assoc]
          exact (ih hsettled hwrite).trans (hemit.append _)
      | newline =>
          obtain ⟨hput, hsettled⟩ := alike_put h '\n'
          have hcons : s.body ++ inked (.newline :: ms) = s.body ++ ['\n'] ++ inked ms := by
            simp [inked]
          rw [hcons]
          exact (ih hsettled hwrite).trans (hput.append _)
      | refuse what => cases hwrite
      | use item => exact ih (s := s.use item) h hwrite
      | useLate item => exact ih (s := s.useLate item) h hwrite
      | link argument => exact ih (s := s.link argument) h hwrite
      | indent => exact ih (s := s.indent) h hwrite
      | dedent => exact ih (s := s.dedent) h hwrite

end Sheet

/-! ## The identifiers that marks write -/

/-- The identifiers that the marks write, when they start where none is under way. -/
def spelled (ms : List Mark) : List Text := Text.identifiers (inked ms)

/-- The marks that write nothing: they ask for imports and for linker arguments. -/
def asides (ms : List Mark) : List Mark :=
  ms.filter fun
    | .use _ | .useLate _ | .link _ => true
    | _ => false

theorem asides_append (ms ms' : List Mark) : asides (ms ++ ms') = asides ms ++ asides ms' :=
  List.filter_append ..

section Shapes

open Text

variable {head : Text}

/-- A separator that no identifier goes through. -/
theorem spelled_intercalate {sep : List Mark} {c : Char} (hsep : inked sep = [c])
    (hc : inIdentifier c = false) (mss : List (List Mark)) :
    spelled (List.intercalate sep mss) = mss.flatMap spelled := by
  induction mss with
  | nil => rfl
  | cons ms mss ih =>
      cases mss with
      | nil => simp
      | cons ms' mss =>
          rw [List.intercalate_cons_cons, spelled, inked_append, inked_append, hsep,
            List.append_assoc, List.singleton_append, identifiers_append hc, List.flatMap_cons,
            ← ih]
          rfl

theorem asides_intercalate {sep : List Mark} (hsep : asides sep = []) (mss : List (List Mark)) :
    asides (List.intercalate sep mss) = mss.flatMap asides := by
  induction mss with
  | nil => rfl
  | cons ms mss ih =>
      cases mss with
      | nil => simp
      | cons ms' mss =>
          rw [List.intercalate_cons_cons, asides_append, asides_append, hsep, List.append_nil, ih]
          rfl

theorem spelled_generic (hne : head ≠ []) (hhead : head.all inIdentifier = true)
    (mss : List (List Mark)) : spelled (generic head mss) = head :: mss.flatMap spelled := by
  have hinked : inked (generic head mss) = head ++ '<' ::
      (inked (List.intercalate [.text ",".toList] (mss.map (.newline :: ·))) ++ '\n' :: ['>']) := by
    simp [generic, inked, inked_append]
  have hnewline : spelled ∘ (Mark.newline :: ·) = spelled :=
    funext fun ms => identifiers_cons (by decide) (inked ms)
  have harguments := spelled_intercalate (show inked [.text ",".toList] = [','] from rfl)
    (by decide) (mss.map (.newline :: ·))
  rw [List.flatMap_map] at harguments
  rw [spelled, hinked, identifiers_append (by decide), identifiers_word hne hhead,
    identifiers_append (by decide), List.singleton_append]
  refine congrArg (head :: ·) ?_
  rw [identifiers_cons (by decide), identifiers_nil, List.append_nil]
  exact harguments.trans (congrArg (fun f => mss.flatMap f) hnewline)

theorem asides_generic (head : Text) (mss : List (List Mark)) :
    asides (generic head mss) = mss.flatMap asides := by
  have hopening : asides (generic head mss) =
      asides (List.intercalate [.text ",".toList] (mss.map (.newline :: ·)) ++
        [.dedent, .newline, .text ">".toList]) := rfl
  rw [hopening, asides_append, asides_intercalate rfl, List.flatMap_map]
  exact List.append_nil _

theorem spelled_oneLine (hne : head ≠ []) (hhead : head.all inIdentifier = true) (ms : List Mark) :
    spelled (oneLine head ms) = head :: spelled ms := by
  have hinked : inked (oneLine head ms) = head ++ '<' :: (inked ms ++ '>' :: []) := by
    simp [oneLine, inked, inked_append]
  rw [spelled, hinked, identifiers_append (by decide), identifiers_word hne hhead,
    identifiers_append (by decide), identifiers_nil, List.append_nil, List.singleton_append,
    spelled]

theorem asides_oneLine (head : Text) (ms : List Mark) : asides (oneLine head ms) = asides ms := by
  have hopening : asides (oneLine head ms) = asides (ms ++ [.text ">".toList]) := rfl
  rw [hopening, asides_append]
  exact List.append_nil _

theorem spelled_parenthesized (mss : List (List Mark)) :
    spelled (parenthesized mss) = mss.flatMap spelled := by
  have hinked : inked (parenthesized mss) = '(' ::
      (inked (List.intercalate [.text " ".toList] (mss.map (· ++ [.text ",".toList]))) ++
        ')' :: []) := by
    simp [parenthesized, inked, inked_append]
  have hcomma : spelled ∘ (· ++ [Mark.text ",".toList]) = spelled := by
    funext ms
    have happend : inked (ms ++ [.text ",".toList]) = inked ms ++ ',' :: [] := inked_append _ _
    rw [Function.comp_apply, spelled, happend, identifiers_append (by decide), identifiers_nil,
      List.append_nil, spelled]
  have hmembers := spelled_intercalate (show inked [.text " ".toList] = [' '] from rfl)
    (by decide) (mss.map (· ++ [.text ",".toList]))
  rw [List.flatMap_map] at hmembers
  rw [spelled, hinked, identifiers_cons (by decide), identifiers_append (by decide),
    identifiers_nil, List.append_nil]
  exact hmembers.trans (congrArg (fun f => mss.flatMap f) hcomma)

theorem asides_parenthesized (mss : List (List Mark)) :
    asides (parenthesized mss) = mss.flatMap asides := by
  have hopening : asides (parenthesized mss) =
      asides (List.intercalate [.text " ".toList] (mss.map (· ++ [.text ",".toList])) ++
        [.text ")".toList]) := rfl
  have hcomma : asides ∘ (· ++ [Mark.text ",".toList]) = asides :=
    funext fun ms => (asides_append ms _).trans (List.append_nil _)
  rw [hopening, asides_append, asides_intercalate rfl, List.flatMap_map]
  exact (List.append_nil _).trans (congrArg (fun f => mss.flatMap f) hcomma)

end Shapes

/-! ## The identifiers of a type -/

namespace Vocabulary

/-! The types that are written for nodes of one kind. -/

def contextType : Import := named "vcsn::ctx" "Context"
def tuplesetType : Import := named "vcsn::labelset::tupleset" "TupleSet"
def onesetType : Import := named "vcsn::labelset::oneset" "OneSet"
def alphabetType : Import := named "vcsn::alphabets::setalpha" "SetAlphabet"
def lettersetType : Import := named "vcsn::labelset::letterset" "LetterSet"
def wordsetType : Import := named "vcsn::labelset::wordset" "WordSet"
def nullablesetType : Import := named "vcsn::labelset::nullableset" "NullableSet"
def expressionsetType : Import := named "vcsn::core::rat::expressionset" "ExpressionSet"
def expansionsetType : Import := named "vcsn::core::rat::expansionset" "ExpansionSet"
def polynomialsetType : Import := named "vcsn::weightset::polynomialset" "PolynomialSet"

/-- All types of the vocabulary. -/
def all : List Import :=
  [contextType, tuplesetType, onesetType, alphabetType, lettersetType, wordsetType,
    nullablesetType, expressionsetType, expansionsetType, polynomialsetType, integralConstant] ++
    (letters ++ weightsets ++ automata ++ imported).map Prod.snd

end Vocabulary

/-- An identifier in the text of a type. -/
inductive Identifier where
  /-- One that is taken from the vocabulary. -/
  | known (i : Import)
  /-- One that an opaque name brings along, or that is a type of the language. -/
  | foreign (t : Text)

namespace Identifier

/-- The identifier as it is written. -/
def text : Identifier → Text
  | known i => i.type
  | foreign t => t

/-- What the identifier is imported as, if it is. -/
def import? : Identifier → Option Import
  | known i => some i
  | foreign _ => none

end Identifier

namespace Descriptor

open Vocabulary

/-- The identifiers for an opaque name. -/
def opaqueIdentifiers (name : Text) : List Identifier :=
  match plain.lookup name, imported.lookup name, integral? name with
  | some type, _, _ => (Text.identifiers type).map .foreign
  | none, some i, _ => [.known i]
  | none, none, some n => .known integralConstant :: (Text.identifiers n).map .foreign
  | none, none, none => (Text.identifiers name).map .foreign

/-- The identifiers that are written for the node itself. -/
def identifiersHere : Descriptor → List Identifier
  | .context .. => [.known contextType]
  | .tupleset _ => [.known tuplesetType]
  | .tuple _ => []
  | .oneset => [.known onesetType]
  | .genset name _ => .known alphabetType :: (letters.lookup name).toList.map .known
  | .letterset _ => [.known lettersetType]
  | .wordset _ => [.known wordsetType]
  | .nullableset _ => [.known nullablesetType]
  | .expressionset .. => [.known expressionsetType]
  | .expansionset _ => [.known expansionsetType]
  | .weightset name => (weightsets.lookup name).toList.map .known
  | .automaton name _ => (automata.lookup name).toList.map .known
  | .polynomialset _ => [.known polynomialsetType]
  | .other name => opaqueIdentifiers name

/-- The identifiers of the type, in the order in which its nodes are visited. -/
def identifiers (d : Descriptor) : List Identifier := d.preorder.flatMap identifiersHere

/-- What the type takes from the vocabulary, in the order in which its nodes are visited. -/
def taken (d : Descriptor) : List Import := d.identifiers.filterMap Identifier.import?

/-- The mark that asks for the import; the one for products is late. -/
def useMark (i : Import) : Mark := if i = tuplesetType then .useLate i.path else .use i.path

/-- The linker arguments that the node asks for. -/
def linksHere : Descriptor → List Text
  | .weightset name => if name = "qmp".toList then ["-lgmp".toList] else []
  | _ => []

/-- What the node itself asks for. -/
def asidesHere (d : Descriptor) : List Mark :=
  (d.identifiersHere.filterMap Identifier.import?).map useMark ++ d.linksHere.map .link

/-- The types of the vocabulary are identifiers of one piece. -/
theorem all_inIdentifier :
    ∀ i ∈ Vocabulary.all, i.type ≠ [] ∧ i.type.all Text.inIdentifier = true := by
  decide +kernel

/--
The marks write the identifiers of the nodes, and ask for what the nodes ask for; `mss` are the
marks of neighbours that no identifier joins.
-/
structure Spells (mss : List (List Mark)) (nodes : List Descriptor) : Prop where
  spelled : mss.flatMap spelled = (nodes.flatMap identifiersHere).map Identifier.text
  asides : mss.flatMap asides = nodes.flatMap asidesHere

namespace Spells

variable {mss mss' : List (List Mark)} {nodes nodes' : List Descriptor} {ms : List Mark}
  {d : Descriptor}

theorem nil : Spells [] [] := ⟨rfl, rfl⟩

theorem append (h : Spells mss nodes) (h' : Spells mss' nodes') :
    Spells (mss ++ mss') (nodes ++ nodes') where
  spelled := by
    rw [List.flatMap_append, h.spelled, h'.spelled, List.flatMap_append, List.map_append]
  asides := by rw [List.flatMap_append, h.asides, h'.asides, List.flatMap_append]

/-- A node with the neighbours that it is written around. -/
theorem around (h : Spells mss nodes)
    (hspelled : OnDemand.spelled ms =
      d.identifiersHere.map Identifier.text ++ mss.flatMap OnDemand.spelled)
    (hasides : OnDemand.asides ms = d.asidesHere ++ mss.flatMap OnDemand.asides) :
    Spells [ms] (d :: nodes) where
  spelled := by
    rw [List.flatMap_cons, List.flatMap_nil, List.append_nil, hspelled, h.spelled,
      List.flatMap_cons, List.map_append]
  asides := by
    rw [List.flatMap_cons, List.flatMap_nil, List.append_nil, hasides, h.asides, List.flatMap_cons]

/-- A node by itself. -/
theorem leaf (hspelled : OnDemand.spelled ms = d.identifiersHere.map Identifier.text)
    (hasides : OnDemand.asides ms = d.asidesHere) : Spells [ms] [d] :=
  nil.around (hspelled.trans (List.append_nil _).symm) (hasides.trans (List.append_nil _).symm)

/-- A node whose arguments stand on lines of their own, imported by one mark. -/
theorem generic {i : Import} {m : Mark} (h : Spells mss nodes) (hi : i ∈ Vocabulary.all)
    (hm : m = useMark i) (hhere : d.identifiersHere = [.known i]) (hlinks : d.linksHere = []) :
    Spells [m :: OnDemand.generic i.type mss] (d :: nodes) := by
  subst hm
  obtain ⟨hne, hword⟩ := all_inIdentifier i hi
  refine h.around ?_ ?_
  · rw [hhere]
    refine Eq.trans ?_ (spelled_generic hne hword mss)
    unfold useMark
    split <;> rfl
  · rw [asidesHere, hhere, hlinks]
    refine Eq.trans ?_ (congrArg (useMark i :: ·) (asides_generic i.type mss))
    unfold useMark
    split <;> rfl

/-- A node with one argument on its own line, imported by one mark. -/
theorem oneLine {i : Import} {m : Mark} (h : Spells mss nodes) (hi : i ∈ Vocabulary.all)
    (hm : m = useMark i) (hhere : d.identifiersHere = [.known i]) (hlinks : d.linksHere = [])
    (hspelled : OnDemand.spelled ms = mss.flatMap OnDemand.spelled)
    (hasides : OnDemand.asides ms = mss.flatMap OnDemand.asides) :
    Spells [m :: OnDemand.oneLine i.type ms] (d :: nodes) := by
  subst hm
  obtain ⟨hne, hword⟩ := all_inIdentifier i hi
  refine h.around ?_ ?_
  · rw [hhere, ← hspelled]
    refine Eq.trans ?_ (spelled_oneLine hne hword ms)
    unfold useMark
    split <;> rfl
  · rw [asidesHere, hhere, hlinks, ← hasides]
    refine Eq.trans ?_ (congrArg (useMark i :: ·) (asides_oneLine i.type ms))
    unfold useMark
    split <;> rfl

end Spells

theorem lookup_of_mem {table : List (Text × Import)} {name : Text}
    (h : name ∈ table.map Prod.fst) : ∃ i, table.lookup name = some i := by
  cases hlookup : table.lookup name with
  | some i => exact ⟨i, rfl⟩
  | none =>
      rcases List.mem_map.1 h with ⟨p, hp, rfl⟩
      exact absurd (List.lookup_eq_none_iff.1 hlookup p hp) (by simp)

theorem spelled_type {i : Import} (h : i ∈ Vocabulary.all) :
    OnDemand.spelled [.text i.type] = [i.type] := by
  obtain ⟨hne, hword⟩ := all_inIdentifier i h
  have hinked : inked [.text i.type] = i.type := List.append_nil _
  rw [OnDemand.spelled, hinked, Text.identifiers_word hne hword]

theorem spelled_text (t : Text) : OnDemand.spelled [.text t] = Text.identifiers t :=
  congrArg Text.identifiers (List.append_nil t)

/-- Of the types in tables none is the one for products. -/
theorem type_ne_of_mem : ∀ p ∈ letters ++ weightsets ++ automata ++ imported,
    p.2.type ≠ tuplesetType.type := by
  decide +kernel

theorem useMark_of_mem {p : Text × Import} (h : p ∈ letters ++ weightsets ++ automata ++ imported) :
    useMark p.2 = .use p.2.path ∧ p.2 ∈ Vocabulary.all := by
  refine ⟨if_neg fun heq => type_ne_of_mem p h (congrArg Import.type heq), ?_⟩
  exact List.mem_append_right _ (List.mem_map_of_mem h)

theorem filterMap_import?_foreign (ts : List Text) :
    (ts.map Identifier.foreign).filterMap Identifier.import? = [] := by
  induction ts with
  | nil => rfl
  | cons t ts ih => exact ih

theorem map_text_foreign (ts : List Text) :
    (ts.map Identifier.foreign).map Identifier.text = ts := by
  induction ts with
  | nil => rfl
  | cons t ts ih => exact congrArg (t :: ·) ih

theorem asidesHere_other (name : Text) : asidesHere (.other name) =
    ((opaqueIdentifiers name).filterMap Identifier.import?).map useMark :=
  List.append_nil _

theorem spells_opaqueMarks (name : Text) : Spells [opaqueMarks name] [.other name] := by
  unfold opaqueMarks
  cases hplain : plain.lookup name with
  | some type =>
      have hhere : opaqueIdentifiers name = (Text.identifiers type).map .foreign := by
        simp only [opaqueIdentifiers, hplain]
      refine .leaf ?_ ?_
      · rw [identifiersHere, hhere, map_text_foreign, spelled_text]
      · rw [asidesHere_other, hhere, filterMap_import?_foreign]
        rfl
  | none =>
      cases himported : imported.lookup name with
      | some i =>
          have hhere : opaqueIdentifiers name = [.known i] := by
            simp only [opaqueIdentifiers, hplain, himported]
          obtain ⟨huse, hmem⟩ :=
            useMark_of_mem (List.mem_append_right _ (Text.mem_of_lookup himported))
          refine .leaf ?_ ?_
          · rw [identifiersHere, hhere]
            exact spelled_type hmem
          · rw [asidesHere_other, hhere]
            exact congrArg (fun m => [m]) huse.symm
      | none =>
          cases hintegral : integral? name with
          | some n =>
              have hhere : opaqueIdentifiers name =
                  .known integralConstant :: (Text.identifiers n).map .foreign := by
                simp only [opaqueIdentifiers, hplain, himported, hintegral]
              have htext : integralConstant.type ++ "<".toList ++ n ++ ">".toList =
                  integralConstant.type ++ '<' :: (n ++ '>' :: []) := by simp
              have hword : Text.identifiers integralConstant.type = [integralConstant.type] := by
                decide
              refine .leaf ?_ ?_
              · rw [identifiersHere, hhere, List.map_cons, map_text_foreign]
                refine (spelled_text _).trans ?_
                rw [htext, Text.identifiers_append (by decide), hword,
                  Text.identifiers_append (by decide), Text.identifiers_nil, List.append_nil]
                rfl
              · rw [asidesHere_other, hhere]
                exact (congrArg (fun is => List.map useMark (integralConstant :: is))
                  (filterMap_import?_foreign _)).symm
          | none =>
              have hhere : opaqueIdentifiers name = (Text.identifiers name).map .foreign := by
                simp only [opaqueIdentifiers, hplain, himported, hintegral]
              refine .leaf ?_ ?_
              · rw [identifiersHere, hhere, map_text_foreign, spelled_text]
              · rw [asidesHere_other, hhere, filterMap_import?_foreign]
                rfl

/-- A name that its table knows, written as a type and imported as that. -/
theorem known_of_mem (kind : Text) {name : Text} {table : List (Text × Import)}
    (marks : Import → List Mark)
    (htable : table ⊆ letters ++ weightsets ++ automata ++ imported)
    (h : name ∈ table.map Prod.fst) :
    ∃ i, table.lookup name = some i ∧ known kind table name marks = marks i ∧
      useMark i = .use i.path ∧ i ∈ Vocabulary.all := by
  obtain ⟨i, hlookup⟩ := lookup_of_mem h
  obtain ⟨huse, hmem⟩ := useMark_of_mem (htable (Text.mem_of_lookup hlookup))
  refine ⟨i, hlookup, ?_, huse, hmem⟩
  rw [known, hlookup]

theorem spells_genset {name : Text} (generators : Option Text)
    (h : name ∈ letters.map Prod.fst) :
    Spells [(genset name generators).marks] [.genset name generators] := by
  rw [marks]
  obtain ⟨i, hlookup, hmarks, huse, hmem⟩ := known_of_mem "letter type".toList _
    (fun p hp => by simp [hp]) h
  obtain ⟨hne, hword⟩ := all_inIdentifier i hmem
  have htext : "SetAlphabet<".toList ++ i.type ++ ">".toList =
      alphabetType.type ++ '<' :: (i.type ++ '>' :: []) := by
    simp [alphabetType, Vocabulary.named]
  have halphabet : Text.identifiers alphabetType.type = [alphabetType.type] := by decide
  rw [hmarks]
  refine .leaf ?_ ?_
  · refine (spelled_text _).trans ?_
    rw [identifiersHere, hlookup, htext, Text.identifiers_append (by decide), halphabet,
      Text.identifiers_append (by decide), Text.identifiers_word hne hword]
    rfl
  · rw [asidesHere, identifiersHere, hlookup]
    exact congrArg (fun m => [_, m]) huse.symm

theorem spells_weightset {name : Text} (h : name ∈ weightsets.map Prod.fst) :
    Spells [(weightset name).marks] [.weightset name] := by
  rw [marks]
  obtain ⟨i, hlookup, hmarks, huse, hmem⟩ := known_of_mem "weightset".toList _
    (fun p hp => by simp [hp]) h
  rw [hmarks]
  refine .leaf ?_ ?_
  · rw [identifiersHere, hlookup]
    refine Eq.trans ?_ (spelled_type hmem)
    split <;> rfl
  · rw [asidesHere, identifiersHere, hlookup, linksHere]
    refine Eq.trans ?_ (congrArg (fun m => [m] ++ _) huse.symm)
    split <;> rfl

mutual

/-- The marks of a type that can be written write the identifiers of its nodes. -/
theorem spells_marks (d : Descriptor) (h : ∀ e ∈ d.preorder, e.Supported) :
    Spells [d.marks] d.preorder := by
  match d with
  | .context l w =>
      have hl := spells_marks l fun e he => h e (by simp [preorder, he])
      have hw := spells_marks w fun e he => h e (by simp [preorder, he])
      rw [marks, preorder]
      exact (hl.append hw).generic (i := contextType) (by simp [Vocabulary.all])
        (by decide +kernel) rfl rfl
  | .tupleset sets =>
      have hsets := spells_marksOfAll sets fun e he => h e (by simp [preorder, he])
      rw [marks, preorder]
      exact hsets.oneLine (i := tuplesetType) (by simp [Vocabulary.all])
        (by decide +kernel) rfl rfl
        (spelled_parenthesized _) (asides_parenthesized _)
  | .tuple sets =>
      have hsets := spells_marksOfAll sets fun e he => h e (by simp [preorder, he])
      rw [marks, preorder]
      exact hsets.around (spelled_parenthesized _) (asides_parenthesized _)
  | .oneset => exact .leaf rfl rfl
  | .genset name generators => exact spells_genset generators (h _ List.mem_cons_self)
  | .letterset g =>
      have hg := spells_marks g fun e he => h e (by simp [preorder, he])
      rw [marks, preorder]
      exact hg.oneLine (i := lettersetType) (by simp [Vocabulary.all])
        (by decide +kernel) rfl rfl
        (List.append_nil _).symm (List.append_nil _).symm
  | .wordset g =>
      have hg := spells_marks g fun e he => h e (by simp [preorder, he])
      rw [marks, preorder]
      exact hg.oneLine (i := wordsetType) (by simp [Vocabulary.all])
        (by decide +kernel) rfl rfl
        (List.append_nil _).symm (List.append_nil _).symm
  | .nullableset l =>
      have hl := spells_marks l fun e he => h e (by simp [preorder, he])
      rw [marks, preorder]
      exact hl.generic (i := nullablesetType) (by simp [Vocabulary.all])
        (by decide +kernel) rfl rfl
  | .expressionset c i =>
      have hc := spells_marks c fun e he => h e (by simp [preorder, he])
      rw [marks, preorder]
      exact hc.generic (i := expressionsetType) (by simp [Vocabulary.all])
        (by decide +kernel) rfl rfl
  | .expansionset e =>
      have he := spells_marks e fun e' he' => h e' (by simp [preorder, he'])
      rw [marks, preorder]
      exact he.generic (i := expansionsetType) (by simp [Vocabulary.all])
        (by decide +kernel) rfl rfl
  | .weightset name => exact spells_weightset (h _ List.mem_cons_self)
  | .automaton name children =>
      have hchildren := spells_marksOfAll children fun e he => h e (by simp [preorder, he])
      obtain ⟨i, hlookup, hmarks, huse, hmem⟩ := known_of_mem "automaton type".toList
        (fun i => .use i.path :: generic i.type (marksOfAll children))
        (fun p hp => by simp [hp]) (h _ List.mem_cons_self)
      obtain ⟨hne, hword⟩ := all_inIdentifier i hmem
      rw [marks, preorder, hmarks]
      refine hchildren.around ?_ ?_
      · rw [identifiersHere, hlookup]
        exact spelled_generic hne hword _
      · rw [asidesHere, identifiersHere, hlookup]
        exact congrArg₂ List.cons huse.symm (asides_generic _ _)
  | .polynomialset c =>
      have hc := spells_marks c fun e he => h e (by simp [preorder, he])
      rw [marks, preorder]
      exact hc.generic (i := polynomialsetType) (by simp [Vocabulary.all])
        (by decide +kernel) rfl rfl
  | .other name => exact spells_opaqueMarks name

theorem spells_marksOfAll (ds : List Descriptor) (h : ∀ e ∈ preorderOfAll ds, e.Supported) :
    Spells (marksOfAll ds) (preorderOfAll ds) := by
  match ds with
  | [] => exact .nil
  | d :: ds =>
      exact (spells_marks d fun e he => h e (by simp [preorderOfAll, he])).append
        (spells_marksOfAll ds fun e he => h e (by simp [preorderOfAll, he]))

end

end Descriptor

end OnDemand
