import OnDemand.Proofs.Source.Identifiers
import OnDemand.Proofs.Source.TypeTexts

/-!
# The layout of types

The arguments of a generic type are a list with a line for each, one tab further in than the line
that closes it; products, and sets of letters, go on within the line.  What is written is the same
at every level but for line breaks and tabs: `Descriptor.compact` is the type on one line, and
`Descriptor.nested` says of each of its characters how many lists of arguments are open there.
`Laid k t u` relates a text with line breaks to such a line, and is put together along the nodes of
the descriptor.
-/

namespace OnDemand

/-! ## Texts without their layout -/

namespace Text

/--
The text without newlines, and without the tabs that its lines start with; `fresh` says whether a
line starts at its beginning.
-/
def unlaid (fresh : Bool) : Text → Text
  | [] => []
  | c :: t =>
    if c = '\n' then unlaid true t
    else if fresh && c == '\t' then unlaid true t
    else c :: unlaid false t

/-- The text has no newline and no tab. -/
def Plain (t : Text) : Prop := '\n' ∉ t ∧ '\t' ∉ t

instance (t : Text) : Decidable (Plain t) := inferInstanceAs (Decidable (_ ∧ _))

theorem unlaid_cons {c : Char} (hnewline : c ≠ '\n') (htab : c ≠ '\t') (fresh : Bool) (t : Text) :
    unlaid fresh (c :: t) = c :: unlaid false t := by
  simp [unlaid, hnewline, htab]

theorem unlaid_newline (fresh : Bool) (t : Text) : unlaid fresh ('\n' :: t) = unlaid true t := rfl

theorem unlaid_tabs (n : Nat) (t : Text) :
    unlaid true (List.replicate n '\t' ++ t) = unlaid true t := by
  induction n with
  | zero => rfl
  | succ n ih => exact ih

/-- The end of the last line leaves nothing behind. -/
theorem unlaid_concat_newline (fresh : Bool) (t : Text) :
    unlaid fresh (t ++ ['\n']) = unlaid fresh t := by
  induction t generalizing fresh with
  | nil => rfl
  | cons c t ih => simp only [List.cons_append, unlaid, ih]

end Text

/-! ## Types on one line -/

/-- A text with, for each character, the number of lists of arguments that are open there. -/
abbrev Nested := List (Char × Nat)

namespace Nested

/-- The text by itself. -/
def text (u : Nested) : Text := u.map Prod.fst

/-- A text outside all lists. -/
def flat (t : Text) : Nested := t.map (·, 0)

/-- The text within one list more. -/
def deeper (u : Nested) : Nested := u.map fun p => (p.1, p.2 + 1)

/-- A generic type with its list of arguments; the brackets are outside the list. -/
def generic (head : Text) (us : List Nested) : Nested :=
  flat (head ++ "<".toList) ++ (deeper (List.intercalate (flat ",".toList) us) ++ flat ">".toList)

/-- A type whose one argument goes on within the line. -/
def oneLine (head : Text) (u : Nested) : Nested :=
  flat (head ++ "<".toList) ++ (u ++ flat ">".toList)

/-- The members in parentheses. -/
def parenthesized (us : List Nested) : Nested :=
  flat "(".toList ++
    (List.intercalate (flat " ".toList) (us.map (· ++ flat ",".toList)) ++ flat ")".toList)

end Nested

open Vocabulary

/-- The type for an opaque name. -/
def opaqueType (name : Text) : Text :=
  match plain.lookup name, imported.lookup name, integral? name with
  | some type, _, _ => type
  | none, some i, _ => i.type
  | none, none, some n => "IntegralConstant<".toList ++ n ++ ">".toList
  | none, none, none => name

/-- The type for a name that a table knows. -/
def knownType (table : List (Text × Import)) (name : Text) : Text :=
  ((table.lookup name).map Import.type).getD []

namespace Descriptor

mutual

/-- The type of the descriptor on one line, with the lists of arguments that are open in it. -/
def nested : Descriptor → Nested
  | .context l w => .generic "Context".toList [l.nested, w.nested]
  | .tupleset sets => .oneLine "TupleSet".toList (.parenthesized (nestedOfAll sets))
  | .tuple sets => .parenthesized (nestedOfAll sets)
  | .oneset => .flat "OneSet".toList
  | .genset name _ =>
    .flat ("SetAlphabet<".toList ++ knownType letters name ++ ">".toList)
  | .letterset g => .oneLine "LetterSet".toList g.nested
  | .wordset g => .oneLine "WordSet".toList g.nested
  | .nullableset l => .generic "NullableSet".toList [l.nested]
  | .expressionset c _ => .generic "ExpressionSet".toList [c.nested]
  | .expansionset e => .generic "ExpansionSet".toList [e.nested]
  | .weightset name => .flat (knownType weightsets name)
  | .automaton name children => .generic (knownType automata name) (nestedOfAll children)
  | .polynomialset c => .generic "PolynomialSet".toList [c.nested]
  | .other name => .flat (opaqueType name)

/-- The same for each of the descriptors. -/
def nestedOfAll : List Descriptor → List Nested
  | [] => []
  | d :: ds => d.nested :: nestedOfAll ds

end

/-- The type of the descriptor on one line. -/
def compact (d : Descriptor) : Text := d.nested.text

end Descriptor

/-! ## Laying out -/

/--
The text is `u` with line breaks: a line starts with `k` tabs and one more for each list that is
open at its first character.
-/
inductive Laid (k : Nat) : Text → Nested → Prop where
  | nil : Laid k [] []
  | char {c : Char} {t : Text} {u : Nested} (n : Nat) (hc : Text.Plain [c]) (h : Laid k t u) :
      Laid k (c :: t) ((c, n) :: u)
  | line {c : Char} {t : Text} {u : Nested} (n : Nat) (hc : Text.Plain [c]) (h : Laid k t u) :
      Laid k ('\n' :: (List.replicate (k + n) '\t' ++ c :: t)) ((c, n) :: u)

namespace Text.Plain

theorem ne {c : Char} (h : Plain [c]) : c ≠ '\n' ∧ c ≠ '\t' :=
  ⟨fun hc => h.1 (by simp [hc]), fun hc => h.2 (by simp [hc])⟩

theorem of_cons {c : Char} {t : Text} (h : Plain (c :: t)) : Plain [c] ∧ Plain t := by
  simp only [Plain, List.mem_cons, not_or, List.not_mem_nil, not_false_eq_true, and_true] at h ⊢
  exact ⟨⟨h.1.1, h.2.1⟩, h.1.2, h.2.2⟩

theorem append {t t' : Text} (h : Plain t) (h' : Plain t') : Plain (t ++ t') := by
  simp only [Plain, List.mem_append, not_or] at h h' ⊢
  exact ⟨⟨h.1, h'.1⟩, h.2, h'.2⟩

end Text.Plain

namespace Laid

open Text Nested

variable {k : Nat} {t t' : Text} {u u' : Nested}

theorem append (h : Laid k t u) (h' : Laid k t' u') : Laid k (t ++ t') (u ++ u') := by
  induction h with
  | nil => exact h'
  | char n hc _ ih => exact .char n hc ih
  | line n hc _ ih =>
      rw [List.cons_append, List.append_assoc]
      exact .line n hc ih

/-- The lines of a list of arguments are laid out one level further in. -/
theorem deeper (h : Laid (k + 1) t u) : Laid k t u.deeper := by
  induction h with
  | nil => exact .nil
  | char n hc _ ih => exact .char (n + 1) hc ih
  | line n hc _ ih =>
      rw [Nat.add_assoc, Nat.add_comm 1 n]
      exact .line (n + 1) hc ih

theorem flat (k : Nat) (h : Plain t) : Laid k t (flat t) := by
  induction t with
  | nil => exact .nil
  | cons c t ih => exact .char 0 h.of_cons.1 (ih h.of_cons.2)

theorem intercalate {sep : Text} (hsep : Plain sep) {ts : List Text} {us : List Nested}
    (h : List.Forall₂ (Laid k) ts us) :
    Laid k (joinWith sep ts) (List.intercalate (Nested.flat sep) us) := by
  induction h with
  | nil => exact .nil
  | @cons t u ts us hfirst hrest ih =>
      cases hrest with
      | nil => simpa [joinWith] using hfirst
      | cons hsecond hmore =>
          rw [List.intercalate_cons_cons, joinWith]
          exact (hfirst.append (.flat k hsep)).append ih

/-- Taking the layout away leaves the text on one line. -/
theorem unlaid_eq (h : Laid k t u) (fresh : Bool) : unlaid fresh t = u.text := by
  induction h generalizing fresh with
  | nil => rfl
  | char n hc _ ih =>
      rw [unlaid_cons hc.ne.1 hc.ne.2, ih]
      rfl
  | line n hc _ ih =>
      rw [unlaid_newline, unlaid_tabs, unlaid_cons hc.ne.1 hc.ne.2, ih]
      rfl

/-- Behind a newline stand the tabs for the lists that are open, and the first character. -/
theorem starts (h : Laid k t u) {a b : Text} (hab : t = a ++ '\n' :: b) (fresh : Bool) :
    ∃ c n rest, u[(unlaid fresh a).length]? = some (c, n) ∧
      b = List.replicate (k + n) '\t' ++ c :: rest ∧ c ≠ '\t' := by
  induction h generalizing a fresh with
  | nil => simp at hab
  | @char c t u n hc _ ih =>
      cases a with
      | nil =>
          rw [List.nil_append, List.cons.injEq] at hab
          exact absurd hab.1 hc.ne.1
      | cons d a =>
          rw [List.cons_append, List.cons.injEq] at hab
          obtain ⟨rfl, htail⟩ := hab
          rw [unlaid_cons hc.ne.1 hc.ne.2, List.length_cons, List.getElem?_cons_succ]
          exact ih htail false
  | @line c t u n hc _ ih =>
      cases a with
      | nil =>
          rw [List.nil_append, List.cons.injEq] at hab
          exact ⟨c, n, t, rfl, hab.2.symm, hc.ne.2⟩
      | cons d a =>
          rw [List.cons_append, List.cons.injEq] at hab
          obtain ⟨rfl, htail⟩ := hab
          -- The break is behind the tabs and the first character of the line.
          rcases List.append_eq_append_iff.1 htail with ⟨a', rfl, ha'⟩ | ⟨more, htabs, hmore⟩
          · cases a' with
            | nil =>
                rw [List.nil_append, List.cons.injEq] at ha'
                exact absurd ha'.1 hc.ne.1
            | cons d a' =>
                rw [List.cons_append, List.cons.injEq] at ha'
                obtain ⟨rfl, hrest⟩ := ha'
                rw [unlaid_newline, unlaid_tabs, unlaid_cons hc.ne.1 hc.ne.2, List.length_cons,
                  List.getElem?_cons_succ]
                exact ih hrest false
          · have hmem : '\n' ∈ List.replicate (k + n) '\t' ++ [c] := by
              cases more with
              | nil =>
                  rw [List.nil_append, List.cons.injEq] at hmore
                  simp [← hmore.1]
              | cons d more =>
                  rw [List.cons_append, List.cons.injEq] at hmore
                  rw [htabs, ← hmore.1]
                  simp
            rcases List.mem_append.1 hmem with hmem | hmem
            · exact absurd (List.mem_replicate.1 hmem).2 (by decide)
            · exact absurd (List.mem_singleton.1 hmem).symm hc.ne.1

end Laid

/-- The text is `u` with line breaks, and its first character stands outside all lists. -/
inductive Begun (k : Nat) : Text → Nested → Prop where
  | mk {c : Char} {t : Text} {u : Nested} (hc : Text.Plain [c]) (h : Laid k t u) :
      Begun k (c :: t) ((c, 0) :: u)

namespace Begun

open Text

variable {k : Nat} {t t' head : Text} {u u' : Nested} {ts : List Text} {us : List Nested}

theorem laid (h : Begun k t u) : Laid k t u := by
  cases h with
  | mk hc h => exact .char 0 hc h

theorem append (h : Begun k t u) (h' : Laid k t' u') : Begun k (t ++ t') (u ++ u') := by
  cases h with
  | mk hc h => exact .mk hc (h.append h')

/-- The text on a line of its own. -/
theorem line (h : Begun k t u) : Laid k ('\n' :: (List.replicate k '\t' ++ t)) u := by
  cases h with
  | mk hc h => exact .line 0 hc h

theorem flat (k : Nat) (hne : t ≠ []) (h : Plain t) : Begun k t (.flat t) := by
  cases t with
  | nil => exact absurd rfl hne
  | cons c t => exact .mk h.of_cons.1 (.flat k h.of_cons.2)

theorem generic (hhead : Plain head) (h : List.Forall₂ (Begun (k + 1)) ts us) :
    Begun k (genericText k head ts) (.generic head us) := by
  have harguments : List.Forall₂ (Laid (k + 1))
      (ts.map fun t => '\n' :: (List.replicate (k + 1) '\t' ++ t)) us := by
    rw [List.forall₂_map_left_iff]
    exact h.imp fun _ _ ht => ht.line
  have hopen := Begun.flat k (t := head ++ "<".toList) (by simp) (hhead.append (by decide))
  have hclose := (Begun.flat k (t := ">".toList) (by decide) (by decide)).line
  have hall := hopen.append
    ((Laid.intercalate (show Plain ",".toList by decide) harguments).deeper.append hclose)
  simpa [genericText, Nested.generic] using hall

theorem oneLine (hhead : Plain head) (h : Begun k t u) :
    Begun k (head ++ '<' :: (t ++ ">".toList)) (.oneLine head u) := by
  have hopen := Begun.flat k (t := head ++ "<".toList) (by simp) (hhead.append (by decide))
  have hall := hopen.append (h.laid.append (.flat k (t := ">".toList) (by decide)))
  simpa [Nested.oneLine] using hall

theorem parenthesized (h : List.Forall₂ (Begun k) ts us) :
    Begun k ('(' :: (Text.joinWith " ".toList (ts.map (· ++ ",".toList)) ++ ")".toList))
      (.parenthesized us) := by
  have hmembers : List.Forall₂ (Laid k) (ts.map (· ++ ",".toList))
      (us.map (· ++ Nested.flat ",".toList)) := by
    rw [List.forall₂_map_left_iff, List.forall₂_map_right_iff]
    exact h.imp fun _ _ ht => ht.laid.append (.flat k (by decide))
  exact (Begun.flat k (t := "(".toList) (by decide) (by decide)).append
    ((Laid.intercalate (show Plain " ".toList by decide) hmembers).append (.flat k (by decide)))

end Begun

/-! ## Types laid out -/

/-- At every level, the marks write `u` with line breaks. -/
def Shows (ms : List Mark) (u : Nested) : Prop := ∀ k, ∃ t, Writes k ms t ∧ Begun k t u

namespace Shows

open Text

variable {ms : List Mark} {mss : List (List Mark)} {u : Nested} {us : List Nested} {t head : Text}

theorem use {item : Text} (h : Shows ms u) (hitem : '\n' ∉ item) : Shows (.use item :: ms) u :=
  fun k => (h k).imp fun _ ht => ⟨ht.1.use hitem, ht.2⟩

theorem useLate {item : Text} (h : Shows ms u) (hitem : '\n' ∉ item) :
    Shows (.useLate item :: ms) u :=
  fun k => (h k).imp fun _ ht => ⟨ht.1.useLate hitem, ht.2⟩

theorem link (argument : Text) (h : Shows ms u) : Shows (.link argument :: ms) u :=
  fun k => (h k).imp fun _ ht => ⟨ht.1.link argument, ht.2⟩

theorem text (hne : t ≠ []) (h : Plain t) : Shows [.text t] (.flat t) :=
  fun k => ⟨t, .text k hne h.1, .flat k hne h⟩

theorem exists_texts (h : List.Forall₂ Shows mss us) (k : Nat) :
    ∃ ts, List.Forall₂ (Writes k) mss ts ∧ List.Forall₂ (Begun k) ts us := by
  induction h with
  | nil => exact ⟨[], .nil, .nil⟩
  | cons hfirst _ ih =>
      obtain ⟨t, hwrites, hbegun⟩ := hfirst k
      obtain ⟨ts, hts, hbegunAll⟩ := ih
      exact ⟨t :: ts, .cons hwrites hts, .cons hbegun hbegunAll⟩

theorem generic (hne : head ≠ []) (hhead : Plain head) (h : List.Forall₂ Shows mss us) :
    Shows (generic head mss) (.generic head us) := by
  intro k
  obtain ⟨ts, hwrites, hbegun⟩ := exists_texts h (k + 1)
  exact ⟨_, .generic hne hhead.1 hwrites, .generic hhead hbegun⟩

theorem oneLine (hhead : Plain head) (h : Shows ms u) :
    Shows (oneLine head ms) (.oneLine head u) := by
  intro k
  obtain ⟨t, hwrites, hbegun⟩ := h k
  exact ⟨_, hwrites.oneLine hhead.1, hbegun.oneLine hhead⟩

theorem parenthesized (h : List.Forall₂ Shows mss us) :
    Shows (parenthesized mss) (.parenthesized us) := by
  intro k
  obtain ⟨ts, hwrites, hbegun⟩ := exists_texts h k
  exact ⟨_, .parenthesized hwrites, .parenthesized hbegun⟩

end Shows

namespace Descriptor

open Text

/-- A type can be written for the node; an opaque name is on one line, and there is one. -/
def Writable (e : Descriptor) : Prop :=
  e.Supported ∧ ∀ name, e = .other name → name ≠ [] ∧ Plain name

theorem plain_of_inWord {t : Text} (h : t.all inWord = true) : Plain t :=
  ⟨fun hc => absurd (List.all_eq_true.1 h _ hc) (by decide),
    fun hc => absurd (List.all_eq_true.1 h _ hc) (by decide)⟩

/-- A name that its table knows, the marks for it, and the type that they write. -/
theorem exists_of_known (kind : Text) {name : Text} {table : List (Text × Import)}
    (htable : table ⊆ letters ++ weightsets ++ automata ++ imported)
    (h : name ∈ table.map Prod.fst) :
    ∃ i, (∀ marks, known kind table name marks = marks i) ∧ knownType table name = i.type ∧
      i.type ≠ [] ∧ Plain i.type ∧ '\n' ∉ i.path := by
  obtain ⟨i, hlookup⟩ := lookup_of_mem h
  obtain ⟨hne, hword, hpath⟩ := isWord_type_of_mem _ (htable (Text.mem_of_lookup hlookup))
  refine ⟨i, fun marks => by rw [known, hlookup], ?_, hne, plain_of_inWord hword, hpath⟩
  rw [knownType, hlookup]
  rfl

theorem plain_of_integral {name n : Text} (h : Plain name) (hn : integral? name = some n) :
    Plain n := by
  obtain ⟨rest, hrest, hn⟩ := Option.bind_eq_some_iff.1 hn
  obtain ⟨reversed, hreversed, rfl⟩ := Option.map_eq_some_iff.1 hn
  rw [Text.dropPrefix?_eq_some_iff] at hrest hreversed
  have hmem : ∀ c ∈ reversed.reverse, c ∈ name := by
    intro c hc
    rw [List.mem_reverse] at hc
    have hmem : c ∈ rest := List.mem_reverse.1 (hreversed ▸ List.mem_append_right _ hc)
    exact hrest ▸ List.mem_append_right _ hmem
  exact ⟨fun hc => h.1 (hmem _ hc), fun hc => h.2 (hmem _ hc)⟩

theorem shows_opaqueMarks {name : Text} (hne : name ≠ []) (h : Plain name) :
    Shows (opaqueMarks name) (.flat (opaqueType name)) := by
  unfold opaqueMarks
  split
  next type hplain =>
    have hall : ∀ p ∈ plain, p.2 ≠ [] ∧ Plain p.2 := by decide
    obtain ⟨htype, hline⟩ := hall _ (Text.mem_of_lookup hplain)
    have hnamed : opaqueType name = type := by simp only [opaqueType, hplain]
    rw [hnamed]
    exact .text htype hline
  next i hplain himported =>
    obtain ⟨htype, hword, hpath⟩ := isWord_type_of_mem _
      (List.mem_append_right _ (Text.mem_of_lookup himported))
    have hnamed : opaqueType name = i.type := by simp only [opaqueType, hplain, himported]
    rw [hnamed]
    exact (Shows.text htype (plain_of_inWord hword)).use hpath
  next n hplain himported hintegral =>
    have hline : Plain ("IntegralConstant<".toList ++ n ++ ">".toList) :=
      (Plain.append (by decide) (plain_of_integral h hintegral)).append (by decide)
    have htext : integralConstant.type ++ "<".toList ++ n ++ ">".toList =
        "IntegralConstant<".toList ++ n ++ ">".toList := by
      simp [integralConstant, named]
    have hnamed : opaqueType name = "IntegralConstant<".toList ++ n ++ ">".toList := by
      simp only [opaqueType, hplain, himported, hintegral]
    rw [hnamed, htext]
    exact (Shows.text (by simp) hline).use (by decide)
  next hplain himported hintegral =>
    have hnamed : opaqueType name = name := by
      simp only [opaqueType, hplain, himported, hintegral]
    rw [hnamed]
    exact .text hne h

mutual

/-- The marks of a type write it on one line, but for line breaks. -/
theorem shows_marks (d : Descriptor) (h : ∀ e ∈ d.preorder, e.Writable) :
    Shows d.marks d.nested := by
  match d with
  | .context l w =>
      have hl := shows_marks l fun e he => h e (by simp [preorder, he])
      have hw := shows_marks w fun e he => h e (by simp [preorder, he])
      rw [marks, nested]
      exact (Shows.generic (by decide) (by decide) (.cons hl (.cons hw .nil))).use (by decide)
  | .tupleset sets =>
      have hsets := shows_marksOfAll sets fun e he => h e (by simp [preorder, he])
      rw [marks, nested]
      exact ((Shows.parenthesized hsets).oneLine (by decide)).useLate (by decide)
  | .tuple sets =>
      have hsets := shows_marksOfAll sets fun e he => h e (by simp [preorder, he])
      rw [marks, nested]
      exact .parenthesized hsets
  | .oneset =>
      rw [marks, nested]
      exact (Shows.text (by decide) (by decide)).use (by decide)
  | .genset name generators =>
      obtain ⟨i, hmarks, htype, -, hplain, hpath⟩ := exists_of_known "letter type".toList
        (fun p hp => by simp [hp]) (h _ List.mem_cons_self).1
      have hline : Plain ("SetAlphabet<".toList ++ i.type ++ ">".toList) :=
        (Plain.append (by decide) hplain).append (by decide)
      rw [marks, nested, hmarks, htype]
      exact ((Shows.text (by simp) hline).use hpath).use (by decide)
  | .letterset g =>
      have hg := shows_marks g fun e he => h e (by simp [preorder, he])
      rw [marks, nested]
      exact (hg.oneLine (by decide)).use (by decide)
  | .wordset g =>
      have hg := shows_marks g fun e he => h e (by simp [preorder, he])
      rw [marks, nested]
      exact (hg.oneLine (by decide)).use (by decide)
  | .nullableset l =>
      have hl := shows_marks l fun e he => h e (by simp [preorder, he])
      rw [marks, nested]
      exact (Shows.generic (by decide) (by decide) (.cons hl .nil)).use (by decide)
  | .expressionset c i =>
      have hc := shows_marks c fun e he => h e (by simp [preorder, he])
      rw [marks, nested]
      exact (Shows.generic (by decide) (by decide) (.cons hc .nil)).use (by decide)
  | .expansionset e =>
      have he := shows_marks e fun e' he' => h e' (by simp [preorder, he'])
      rw [marks, nested]
      exact (Shows.generic (by decide) (by decide) (.cons he .nil)).use (by decide)
  | .weightset name =>
      obtain ⟨i, hmarks, htype, hne, hplain, hpath⟩ := exists_of_known "weightset".toList
        (fun p hp => by simp [hp]) (h _ List.mem_cons_self).1
      rw [marks, nested, hmarks, htype]
      refine Shows.use ?_ hpath
      split
      next => exact (Shows.text hne hplain).link _
      next => exact .text hne hplain
  | .automaton name children =>
      have hchildren := shows_marksOfAll children fun e he => h e (by simp [preorder, he])
      obtain ⟨i, hmarks, htype, hne, hplain, hpath⟩ :=
        exists_of_known "automaton type".toList
          (fun p hp => by simp [hp]) (h _ List.mem_cons_self).1
      rw [marks, nested, hmarks, htype]
      exact (Shows.generic hne hplain hchildren).use hpath
  | .polynomialset c =>
      have hc := shows_marks c fun e he => h e (by simp [preorder, he])
      rw [marks, nested]
      exact (Shows.generic (by decide) (by decide) (.cons hc .nil)).use (by decide)
  | .other name =>
      obtain ⟨hne, hplain⟩ := (h _ List.mem_cons_self).2 name rfl
      rw [marks, nested]
      exact shows_opaqueMarks hne hplain

theorem shows_marksOfAll (ds : List Descriptor) (h : ∀ e ∈ preorderOfAll ds, e.Writable) :
    List.Forall₂ Shows (marksOfAll ds) (nestedOfAll ds) := by
  match ds with
  | [] => exact .nil
  | d :: ds =>
      exact .cons (shows_marks d fun e he => h e (by simp [preorderOfAll, he]))
        (shows_marksOfAll ds fun e he => h e (by simp [preorderOfAll, he]))

end

end Descriptor

/-! ## The layout of a visit -/

namespace Sheet

open Descriptor Text

/-- A line starts behind `a`, if `fresh` says whether one starts at its beginning. -/
def LineStarts (fresh : Bool) (a : Text) : Prop :=
  a = [] ∧ fresh = true ∨ a.getLast? = some '\n'

/-- The lines of a text that has begun at a stand. -/
theorem starts_of_begun {p : Stand} {t a b : Text} {u : Nested} (h : Begun p.level t u)
    (hab : p.lead ++ t = a ++ b) (hstarts : LineStarts p.fresh a) :
    ∃ c n rest, u[(unlaid true a).length]? = some (c, n) ∧
      b = List.replicate (p.level + n) '\t' ++ c :: rest ∧ c ≠ '\t' := by
  rcases hstarts with ⟨rfl, hfresh⟩ | hlast
  · rw [Stand.lead, if_pos hfresh] at hab
    exact h.line.starts (a := []) (congrArg ('\n' :: ·) hab) true
  · obtain ⟨a, rfl⟩ := List.getLast?_eq_some_iff.1 hlast
    rw [List.append_assoc] at hab
    rw [unlaid_concat_newline]
    cases hfresh : p.fresh with
    | false =>
        rw [Stand.lead, if_neg (by simp [hfresh])] at hab
        exact h.laid.starts hab true
    | true =>
        rw [Stand.lead, if_pos hfresh] at hab
        exact h.line.starts (a := '\n' :: a) (congrArg ('\n' :: ·) hab) true

theorem unlaid_lead (p : Stand) {t : Text} {u : Nested} (h : Begun p.level t u) :
    unlaid true (p.lead ++ t) = u.text := by
  unfold Stand.lead
  split
  next => rw [unlaid_tabs, h.laid.unlaid_eq]
  next => exact h.laid.unlaid_eq true

/--
A type is the same text at every level and on every sheet, but for its layout.  Each line that is
started has the tabs of the level, and one more for each list of arguments that is open at its first
character.  The level is as before in the end.
-/
theorem visit_layout {s s' : Sheet} {d : Descriptor}
    (hnames : ∀ name, Descriptor.other name ∈ d.preorder →
      name ≠ [] ∧ '\n' ∉ name ∧ '\t' ∉ name)
    (h : s.visit d = (s', none)) :
    (∃ t, s'.body = s.body ++ t ∧ unlaid true t = d.compact ∧
      ∀ a b, t = a ++ b → LineStarts s.fresh a →
        ∃ c n rest, d.nested[(unlaid true a).length]? = some (c, n) ∧
          b = List.replicate (s.level + n) '\t' ++ c :: rest ∧ c ≠ '\t') ∧
    s'.level = s.level := by
  have hsupported := (s.visit_eq_none_iff d).1 (congrArg Prod.snd h)
  have hshows := shows_marks d fun e he => by
    refine ⟨hsupported e he, ?_⟩
    rintro name rfl
    exact hnames name he
  obtain ⟨t, hwrites, hbegun⟩ := hshows s.level
  obtain ⟨s₁, hwrite, hbody, hstand, -⟩ := hwrites s.stand rfl s rfl
  have hs : s₁ = s' := congrArg Prod.fst (hwrite.symm.trans h)
  subst hs
  refine ⟨⟨s.stand.lead ++ t, hbody, unlaid_lead s.stand hbegun, ?_⟩, ?_⟩
  · intro a b hab hstarts
    exact starts_of_begun hbegun hab hstarts
  · exact congrArg Stand.level hstand

/-- A list of arguments in a product in a list of arguments. -/
def sampleNested : Descriptor :=
  .context (.tupleset [.nullableset .oneset, .other "a b".toList]) (.weightset "b".toList)

/-- In the middle of a line at level 2. -/
theorem visit_layout_nested :
    ∃ s', (Sheet.emit { level := 2 } "type T = ".toList).visit sampleNested = (s', none) ∧
      s'.level = 2 ∧ ∃ t, s'.body = "\t\ttype T = ".toList ++ t ∧
        unlaid true t = "Context<TupleSet<(NullableSet<OneSet>, a b,)>,B>".toList := by
  have hvisit : (Sheet.emit { level := 2 } "type T = ".toList).visit sampleNested =
      (((Sheet.emit { level := 2 } "type T = ".toList).visit sampleNested).1, none) := by
    decide +kernel
  have hnames : ∀ name, Descriptor.other name ∈ sampleNested.preorder →
      name ≠ [] ∧ '\n' ∉ name ∧ '\t' ∉ name := by
    intro name hname
    simp only [sampleNested, preorder, preorderOfAll, List.mem_cons, List.mem_append,
      List.not_mem_nil, reduceCtorEq, other.injEq, or_false, false_or] at hname
    subst hname
    decide
  obtain ⟨⟨t, hbody, hcompact, -⟩, hlevel⟩ := visit_layout hnames hvisit
  exact ⟨_, hvisit, hlevel, t, hbody, hcompact.trans (by decide +kernel)⟩

example : (({ level := 1 } : Sheet).visit sampleNested).1.body =
    ("\tContext<\n\t\tTupleSet<(NullableSet<\n\t\t\tOneSet\n\t\t>, a b,)>,\n\t\tB\n" ++
      "\t>").toList := by
  decide +kernel

end Sheet

end OnDemand
