import OnDemand.Proofs.Descriptor.Grammar

/-!
# The first words of names

Which descriptor a name belongs to shows in its first word, up to the few descriptors whose first
word is a name of their own.  `opener` is that word, and the reader sees it whenever it can begin a
word at all.
-/

namespace OnDemand
namespace Descriptor

open Reader

/-! ## Names as lists of names -/

theorem applied_append (head p rest : Text) :
    applied head p ++ rest = head ++ '<' :: (p ++ '>' :: rest) := by
  simp [applied]

/-- The names after the first, each behind a comma. -/
def further (full : Bool) (ds : List Descriptor) : Text :=
  ds.flatMap fun e => ", ".toList ++ e.nameWith full

theorem further_cons (full : Bool) (d : Descriptor) (ds : List Descriptor) :
    further full (d :: ds) = ", ".toList ++ (d.nameWith full ++ further full ds) := by
  simp only [further, List.flatMap_cons, List.append_assoc]

theorem namesWith_cons (full : Bool) (d : Descriptor) (ds : List Descriptor) :
    namesWith full (d :: ds) = d.nameWith full ++ further full ds := by
  induction ds generalizing d with
  | nil => simp [namesWith, further]
  | cons e ds ih => simp only [namesWith, ih, further_cons, List.append_assoc]

theorem stops_further_append {rest : Text} (h : Stops rest) (full : Bool)
    (ds : List Descriptor) : Stops (further full ds ++ rest) := by
  cases ds with
  | nil => exact h
  | cons d ds =>
      rw [further_cons]
      exact .comma _

/-! ## Maximal words -/

theorem takeWhile_append_of_breaksWord (t : Text) {rest : Text} (h : BreaksWord rest) :
    (t ++ rest).takeWhile inWord = t.takeWhile inWord := by
  induction t with
  | nil =>
      cases rest with
      | nil => rfl
      | cons c rest =>
          have hc : inWord c = false := by simpa [BreaksWord] using h
          simp [hc]
  | cons c t ih =>
      cases hc : inWord c with
      | true => simp [hc, ih]
      | false => simp [hc]

theorem takeWhile_of_all {w : Text} (h : w.all inWord = true) : w.takeWhile inWord = w := by
  have happend : (w ++ []).takeWhile inWord = w ++ List.takeWhile inWord [] :=
    List.takeWhile_append_of_pos fun c hc => List.all_eq_true.1 h c hc
  simpa using happend

theorem takeWhile_applied {head : Text} (h : head.all inWord = true) (p : Text) :
    (applied head p).takeWhile inWord = head := by
  have happlied : applied head p = head ++ '<' :: (p ++ ['>']) := by
    simpa using applied_append head p []
  have hbreaks : BreaksWord ('<' :: (p ++ ['>'])) := rfl
  rw [happlied, takeWhile_append_of_breaksWord head hbreaks]
  exact takeWhile_of_all h

theorem breaksWord_dropWhile (t : Text) : BreaksWord (t.dropWhile inWord) := by
  induction t with
  | nil => rfl
  | cons c t ih =>
      cases hc : inWord c with
      | true => simpa [hc] using ih
      | false => simp [BreaksWord, hc]

theorem word_of_takeWhile {s w : Text} (hw : IsWord w) (h : s.takeWhile inWord = w) :
    (word s).value = w ∧ (word s).rest = s.dropWhile inWord := by
  have hs : w ++ s.dropWhile inWord = s := by
    rw [← h]
    exact List.takeWhile_append_dropWhile
  have hword := hw.word_append (breaksWord_dropWhile s)
  rwa [hs] at hword

theorem word_applied {head : Text} (h : IsWord head) (p rest : Text) :
    (word (applied head p ++ rest)).value = head ∧
      (word (applied head p ++ rest)).rest = '<' :: (p ++ '>' :: rest) := by
  rw [applied_append]
  exact h.word_append rfl

/-! ## Openers -/

/-- The first word of the name. -/
def opener : Descriptor → Text
  | .context .. => "context".toList
  | .tupleset _ => "lat".toList
  | .tuple _ => "std::tuple".toList
  | .oneset => "lao".toList
  | .genset letters _ => letters
  | .letterset _ => "letterset".toList
  | .wordset _ => "wordset".toList
  | .nullableset _ => "lan".toList
  | .expressionset .. => "expressionset".toList
  | .expansionset _ => "expansionset".toList
  | .weightset name => name
  | .automaton name _ => name
  | .polynomialset _ => "polynomialset".toList
  | .other name => name.takeWhile inWord

theorem isWord_of_isTerminal {w : Text} (h : Keyword.isTerminal w = true) : IsWord w := by
  have hall : ∀ w ∈ Keyword.terminals, IsWord w := by decide
  exact hall w (List.contains_iff_mem.1 h)

theorem HasParts.takeWhile_fullName {d : Descriptor} (h : HasParts d) :
    d.fullName.takeWhile inWord = d.opener := by
  unfold fullName
  cases d with
  | context l w =>
      rw [nameWith]
      exact takeWhile_applied (by decide) _
  | tupleset ds =>
      rw [nameWith]
      exact takeWhile_applied (by decide) _
  | tuple ds =>
      rw [nameWith]
      exact takeWhile_applied (by decide) _
  | oneset => decide
  | genset letters generators => exact h.elim
  | letterset g =>
      rw [nameWith]
      exact takeWhile_applied (by decide) _
  | wordset g =>
      rw [nameWith]
      exact takeWhile_applied (by decide) _
  | nullableset l =>
      rw [nameWith]
      exact takeWhile_applied (by decide) _
  | expressionset c i =>
      -- The identities stand after the brackets, and so after the word.
      rw [nameWith, applied_append,
        takeWhile_append_of_breaksWord _ (show BreaksWord ('<' :: _) from rfl)]
      exact takeWhile_of_all (by decide)
  | expansionset e =>
      rw [nameWith]
      exact takeWhile_applied (by decide) _
  | weightset name =>
      rw [nameWith]
      exact takeWhile_of_all (isWord_of_isTerminal h).2
  | automaton name ds =>
      rw [nameWith]
      exact takeWhile_applied h.1.inWord _
  | polynomialset c =>
      rw [nameWith]
      exact takeWhile_applied (by decide) _
  | other name =>
      rw [nameWith]
      rfl

theorem IsType.takeWhile_append {d : Descriptor} (h : IsType d) {rest : Text}
    (hrest : Stops rest) : (d.fullName ++ rest).takeWhile inWord = d.opener := by
  rw [takeWhile_append_of_breaksWord _ hrest.breaksWord]
  exact h.hasParts.takeWhile_fullName

/-- The reader sees the opener, if it is a word. -/
theorem IsType.word_append {d : Descriptor} (h : IsType d) (hopener : IsWord d.opener)
    {rest : Text} (hrest : Stops rest) : (word (d.fullName ++ rest)).value = d.opener :=
  (word_of_takeWhile hopener (h.takeWhile_append hrest)).1

/-! ## The openers of label sets and weight sets -/

/-- What a label set word is not. -/
structure NamesLabelset (w : Text) : Prop where
  isLabelset : Keyword.isLabelset w = true
  isWord : IsWord w
  letterType : Keyword.isLetterType w = false
  setAlphabet : w ≠ "set_alphabet".toList
  terminal : Keyword.isTerminal w = false
  polynomials : w ≠ "polynomialset".toList
  context : w ≠ "context".toList
  automaton : Keyword.isAutomaton w = false

theorem namesLabelset_of_isLabelset {w : Text} (h : Keyword.isLabelset w = true) :
    NamesLabelset w := by
  rcases Option.isSome_iff_exists.1 h with ⟨form, hform⟩
  have hmem : w ∈ Keyword.labelsets.map Prod.fst := List.mem_map_of_mem (mem_labelsets hform)
  -- The table of label set words overlaps no other.
  have hall : ∀ w ∈ Keyword.labelsets.map Prod.fst,
      IsWord w ∧ Keyword.isLetterType w = false ∧ w ≠ "set_alphabet".toList ∧
        Keyword.isTerminal w = false ∧ w ≠ "polynomialset".toList ∧ w ≠ "context".toList ∧
        Keyword.isAutomaton w = false := by
    decide
  rcases hall w hmem with ⟨hword, hletters, hset, hterminal, hpolynomials, hcontext, hautomaton⟩
  exact ⟨h, hword, hletters, hset, hterminal, hpolynomials, hcontext, hautomaton⟩

theorem IsProduct.isLabelset_opener {d : Descriptor} (h : IsProduct d) :
    Keyword.isLabelset d.opener = true := by
  cases h with
  | tupleset _ => rfl

theorem IsExpressions.isLabelset_opener {d : Descriptor} (h : IsExpressions d) :
    Keyword.isLabelset d.opener = true := by
  cases h with
  | expressionset _ => rfl

theorem IsLabelset.isLabelset_opener {d : Descriptor} (h : IsLabelset d) :
    Keyword.isLabelset d.opener = true := by
  cases h with
  | letterset _ => rfl
  | wordset _ => rfl
  | nullableset _ => rfl
  | oneset => rfl
  | product hd => exact hd.isLabelset_opener
  | expressions hd => exact hd.isLabelset_opener

theorem IsLabelset.word_append {d : Descriptor} (h : IsLabelset d) {rest : Text}
    (hrest : Stops rest) : (word (d.fullName ++ rest)).value = d.opener :=
  (IsType.labelset h).word_append
    (namesLabelset_of_isLabelset h.isLabelset_opener).isWord hrest

end Descriptor
end OnDemand
