import OnDemand.Proofs.Descriptor.Decoration
import OnDemand.Proofs.Descriptor.Erasure

/-!
# Contexts read back from their names

Every descriptor of the grammar of contexts reads back from its full name, whatever name ending
follows it.  The induction is on the grammar, with one reading step for each of its predicates.
Reading types agrees with reading contexts where a context stands.
-/

namespace OnDemand
namespace Reader

open Descriptor

/-- The step reads the descriptor back from its name, once the first word has been read. -/
def ReadsBack (step : (w : Text) → (s : Text) → Step Descriptor s) (d : Descriptor) : Prop :=
  ∀ rest, Stops rest →
    gives (step (word (d.fullName ++ rest)).value (word (d.fullName ++ rest)).rest) =
      some (d, rest)

/-- A member of a product is read back from its name. -/
def MemberReadsBack (d : Descriptor) : Prop :=
  ∀ rest, Stops rest → gives (member (d.fullName ++ rest)) = some (d, rest)

theorem readsBack_of_applied {step : (w : Text) → (s : Text) → Step Descriptor s}
    {d : Descriptor} {head p : Text} (hname : d.fullName = applied head p) (hw : IsWord head)
    (h : ∀ rest, Stops rest → gives (step head ('<' :: (p ++ '>' :: rest))) = some (d, rest)) :
    ReadsBack step d := by
  intro rest hrest
  rcases word_applied hw p rest with ⟨hvalue, hafter⟩
  rw [hname, hvalue, hafter]
  exact h rest hrest

theorem leaves_open (s : Text) : leaves (expect '<' ('<' :: s)) = some s :=
  leaves_expect_cons rfl s

theorem leaves_close (s : Text) : leaves (expect '>' ('>' :: s)) = some s :=
  leaves_expect_cons rfl s

theorem leaves_comma (s : Text) : leaves (expect ',' (',' :: s)) = some s :=
  leaves_expect_cons rfl s

theorem separator_comma (s : Text) : leaves (separator (',' :: s)) = some s := by
  rw [leaves_separator, Text.trimStart_cons rfl]
  rfl

theorem separator_close (s : Text) : leaves (separator ('>' :: s)) = none := by
  rw [leaves_separator, Text.trimStart_cons rfl]
  rfl

theorem peek_close_ne (s : Text) : peek ('>' :: s) ≠ some ',' := by
  rw [peek_cons rfl]
  decide

/-! ## Alphabets -/

theorem isGenset_readsBack {g : Descriptor} (h : IsGenset g) : ReadsBack genset g := by
  intro rest hrest
  cases h with
  | @genset letters generators hword hset hletters =>
      have hbare := fun s => gives_genset_bare hset hword.ne_nil s
      rw [hletters] at hbare
      cases generators with
      | none =>
          have hname : (Descriptor.genset letters none).fullName = letters := by
            simp [fullName, nameWith]
          rcases hword.word_append hrest.breaksWord with ⟨hvalue, hafter⟩
          rw [hname, hvalue, hafter, hbare, gives_alphabet_stops hrest]
          rfl
      | some gens =>
          have hname :
              (Descriptor.genset letters (some gens)).fullName ++ rest =
                letters ++ (alphabet gens ++ rest) := by
            rw [fullName, nameWith, List.append_assoc]
          have hbreaks : BreaksWord (alphabet gens ++ rest) := rfl
          rcases hword.word_append hbreaks with ⟨hvalue, hafter⟩
          rw [hname, hvalue, hafter, hbare, gives_alphabet_append]
          rfl

/-- An alphabet in brackets, whose letter type is its own. -/
theorem gives_typedGenset_append {g : Descriptor} (h : IsGenset g) (rest : Text) :
    gives (typedGenset ('<' :: (g.fullName ++ '>' :: rest))) = some (g, rest) := by
  rw [gives_typedGenset_typed (peek_cons rfl _), leaves_open, Option.bind_some,
    isGenset_readsBack h _ (.close rest), Option.bind_some, leaves_close]
  rfl

/-! ## Identities -/

theorem isWord_name (i : Identities) : IsWord i.name := by
  cases i <;> decide

/-- The identities after an expression set, which are left out when they are the usual ones. -/
theorem gives_identities_append (i : Identities) {rest : Text} (h : Stops rest) :
    gives (identities .usual ((if i = .usual then [] else '(' :: i.name ++ [')']) ++ rest)) =
      some (i, rest) := by
  by_cases hi : i = .usual
  · have hpeek : peek rest ≠ some '(' := h.peek_ne (by decide) (by decide)
    rw [if_pos hi, List.nil_append, gives_identities_none _ hpeek, hi]
  · have htext : '(' :: i.name ++ [')'] ++ rest = '(' :: (i.name ++ ')' :: rest) := by simp
    rcases (isWord_name i).word_append (show BreaksWord (')' :: rest) from rfl) with
      ⟨hvalue, hafter⟩
    rw [if_neg hi, htext, gives_identities_some _ (peek_cons rfl _), leaves_expect_cons rfl,
      Option.bind_some, hvalue, hafter, Identities.ofText?_name, Option.bind_some,
      leaves_expect_cons rfl]
    rfl

/-! ## Expression sets, polynomials and products, from their parts -/

theorem gives_expressionset_append {c : Descriptor} (hc : ReadsBack context c) (i : Identities)
    {rest : Text} (h : Stops rest) :
    gives (expressionset .usual ('<' :: (c.fullName ++ '>' ::
        ((if i = .usual then [] else '(' :: i.name ++ [')']) ++ rest)))) =
      some (.expressionset c i, rest) := by
  rw [gives_expressionset, leaves_open, Option.bind_some, hc _ (.close _), Option.bind_some,
    leaves_close, Option.bind_some, gives_identities_append i h]
  rfl

theorem gives_polynomialset_append {c : Descriptor} (hc : ReadsBack context c) (rest : Text) :
    gives (polynomialset ('<' :: (c.fullName ++ '>' :: rest))) =
      some (.polynomialset c, rest) := by
  rw [gives_polynomialset, leaves_open, Option.bind_some, hc _ (.close _), Option.bind_some,
    leaves_close]
  rfl

theorem gives_member_space (s : Text) : gives (member (' ' :: s)) = gives (member s) := by
  rw [gives_member, gives_member]
  rfl

theorem gives_members_append {ds : List Descriptor} (hds : ∀ e ∈ ds, MemberReadsBack e)
    (rest : Text) :
    gives (members (further true ds ++ '>' :: rest)) = some (ds, '>' :: rest) := by
  induction ds with
  | nil => exact gives_members_none (peek_close_ne rest)
  | cons d ds ih =>
      have hd : MemberReadsBack d := hds d List.mem_cons_self
      have hrest : Stops (further true ds ++ '>' :: rest) :=
        stops_further_append (.close rest) true ds
      have htext : further true (d :: ds) ++ '>' :: rest =
          ',' :: ' ' :: (d.fullName ++ (further true ds ++ '>' :: rest)) := by
        rw [further_cons, List.append_assoc, List.append_assoc]
        rfl
      rw [htext, gives_members_more (peek_cons rfl _), leaves_comma, Option.bind_some,
        gives_member_space, hd _ hrest, Option.bind_some,
        ih fun e he => hds e (List.mem_cons_of_mem d he)]
      rfl

theorem gives_product_append {d : Descriptor} {ds : List Descriptor}
    (h : ∀ e ∈ d :: ds, MemberReadsBack e) (rest : Text) :
    gives (product ('<' :: (namesWith true (d :: ds) ++ '>' :: rest))) =
      some (.tupleset (d :: ds), rest) := by
  have hd : MemberReadsBack d := h d List.mem_cons_self
  have hds : ∀ e ∈ ds, MemberReadsBack e := fun e he => h e (List.mem_cons_of_mem d he)
  have hrest : Stops (further true ds ++ '>' :: rest) :=
    stops_further_append (.close rest) true ds
  have htext : namesWith true (d :: ds) ++ '>' :: rest =
      d.fullName ++ (further true ds ++ '>' :: rest) := by
    rw [namesWith_cons, List.append_assoc]
    rfl
  rw [htext, gives_product, leaves_open, Option.bind_some, hd _ hrest, Option.bind_some,
    gives_members_append hds, Option.bind_some, leaves_close]
  rfl

/-! ## Label sets, weight sets and contexts -/

/-- A label set in the brackets of one to which the empty word is added. -/
theorem gives_nullableBody_append {l : Descriptor} (h : IsLabelset l) (hl : ReadsBack labelset l)
    (rest : Text) :
    gives (nullableBody ('<' :: (l.fullName ++ '>' :: rest))) = some (l, rest) := by
  have hopener := namesLabelset_of_isLabelset h.isLabelset_opener
  have hword : (word (l.fullName ++ '>' :: rest)).value = l.opener := h.word_append (.close rest)
  have hnot : ¬(Keyword.isLetterType (word (l.fullName ++ '>' :: rest)).value = true ∨
      (word (l.fullName ++ '>' :: rest)).value = "set_alphabet".toList) := by
    rw [hword, hopener.letterType]
    simpa using hopener.setAlphabet
  rw [gives_nullableBody_enclosed (peek_cons rfl _), leaves_open, Option.bind_some, if_neg hnot,
    hl _ (.close rest), Option.bind_some, leaves_close]
  rfl

theorem memberReadsBack_of_labelset {d : Descriptor} (h : IsLabelset d)
    (hd : ReadsBack labelset d) : MemberReadsBack d := by
  intro rest hrest
  have hopener := namesLabelset_of_isLabelset h.isLabelset_opener
  have hword : (word (d.fullName ++ rest)).value = d.opener := h.word_append hrest
  -- Weight sets are tried first, by their first words.
  have hweights : ¬(Keyword.isTerminal (word (d.fullName ++ rest)).value = true ∨
      (word (d.fullName ++ rest)).value = "polynomialset".toList) := by
    rw [hword, hopener.terminal]
    simpa using hopener.polynomials
  have hlabels : Keyword.isLabelset (word (d.fullName ++ rest)).value = true ∨
      (word (d.fullName ++ rest)).value = [] := by
    rw [hword]
    exact .inl hopener.isLabelset
  rw [gives_member, if_neg hweights, if_pos hlabels]
  exact hd rest hrest

theorem weightForm_of_isTerminal {w : Text} (h : Keyword.isTerminal w = true) :
    Keyword.weightForm? w = some .terminal := by
  rw [Keyword.weightForm?, if_pos h]

theorem readsBack_weightset {name : Text} (h : Keyword.isTerminal name = true) :
    ReadsBack weightset (.weightset name) := by
  intro rest hrest
  have hname : (Descriptor.weightset name).fullName = name := by rw [fullName, nameWith]
  rcases (isWord_of_isTerminal h).word_append hrest.breaksWord with ⟨hvalue, hafter⟩
  rw [hname, hvalue, hafter, gives_weightset_terminal (weightForm_of_isTerminal h)]

theorem readsBack_polynomialset {c : Descriptor} (hc : ReadsBack context c) :
    ReadsBack weightset (.polynomialset c) := by
  refine readsBack_of_applied (p := c.fullName) (by rw [fullName, nameWith]; rfl) (by decide) ?_
  intro rest hrest
  rw [gives_weightset_polynomials rfl]
  exact gives_polynomialset_append hc rest

/-- A member that begins like a weight set is read as one. -/
theorem memberReadsBack_of_weightset {d : Descriptor}
    (hopener : Keyword.isTerminal d.opener = true ∨ d.opener = "polynomialset".toList)
    (h : IsWeightset d) (hd : ReadsBack weightset d) : MemberReadsBack d := by
  intro rest hrest
  have hisWord : IsWord d.opener := by
    rcases hopener with hterminal | hpolynomials
    · exact isWord_of_isTerminal hterminal
    · rw [hpolynomials]
      decide
  have hword : (word (d.fullName ++ rest)).value = d.opener :=
    (IsType.weightset h).word_append hisWord hrest
  rw [gives_member, if_pos (by rwa [hword])]
  exact hd rest hrest

/-- What follows a label set decides whether it begins a context. -/
theorem gives_context_labelset {l : Descriptor} (h : IsLabelset l) (hl : ReadsBack labelset l)
    {rest : Text} (hrest : Stops rest) :
    gives (context (word (l.fullName ++ rest)).value (word (l.fullName ++ rest)).rest) =
      (leaves (separator rest)).bind fun r =>
        (gives (weightset (word r).value (word r).rest)).bind fun q =>
          some (.context l q.1, q.2) := by
  have hopener := namesLabelset_of_isLabelset h.isLabelset_opener
  have hvalue : (word (l.fullName ++ rest)).value = l.opener := h.word_append hrest
  have hcontext : (word (l.fullName ++ rest)).value ≠ "context".toList := by
    rw [hvalue]
    exact hopener.context
  have hjoined : joined? (word (l.fullName ++ rest)).value = none := by
    rw [hvalue, joined?, if_pos hopener.isLabelset]
  rw [gives_context_separated hcontext hjoined, hl rest hrest]
  rfl

theorem readsBack_context {l w : Descriptor} (h : IsLabelset l) (hl : ReadsBack labelset l)
    (hw : ReadsBack weightset w) : ReadsBack context (.context l w) := by
  refine readsBack_of_applied (p := l.fullName ++ ", ".toList ++ w.fullName)
    (by rw [fullName, nameWith]; rfl) (by decide) ?_
  intro rest hrest
  have htext : l.fullName ++ ", ".toList ++ w.fullName ++ '>' :: rest =
      l.fullName ++ ',' :: ' ' :: (w.fullName ++ '>' :: rest) := by
    simp only [List.append_assoc]
    rfl
  rw [htext, gives_context_wrapped, leaves_open, Option.bind_some,
    gives_context_labelset h hl (.comma _), separator_comma, Option.bind_some]
  -- The blank after the comma is skipped with the next word.
  rw [(word_space _).1, (word_space _).2, hw _ (.close rest), Option.bind_some, Option.bind_some,
    leaves_close]
  rfl

/-- Sets of letters and sets of words differ in the keyword alone. -/
theorem readsBack_over {shape : Shape} {name : Text}
    (hform : Keyword.labelForm? name = some (.typed shape)) (hword : IsWord name) {g : Descriptor}
    (hname : (shape.over g).fullName = applied name g.fullName) (h : IsGenset g) :
    ReadsBack labelset (shape.over g) := by
  refine readsBack_of_applied hname hword ?_
  intro rest hrest
  rw [gives_labelset_typed hform, gives_typedGenset_append h]
  rfl

theorem readsBack_letterset {g : Descriptor} (h : IsGenset g) :
    ReadsBack labelset (.letterset g) := by
  have hform : Keyword.labelForm? "letterset".toList = some (.typed .letters) := rfl
  have hname : (Descriptor.letterset g).fullName = applied "letterset".toList g.fullName := by
    rw [fullName, nameWith]
    rfl
  exact readsBack_over hform (by decide) hname h

theorem readsBack_wordset {g : Descriptor} (h : IsGenset g) :
    ReadsBack labelset (.wordset g) := by
  have hform : Keyword.labelForm? "wordset".toList = some (.typed .words) := rfl
  have hname : (Descriptor.wordset g).fullName = applied "wordset".toList g.fullName := by
    rw [fullName, nameWith]
    rfl
  exact readsBack_over hform (by decide) hname h

theorem readsBack_nullableset {l : Descriptor} (h : IsLabelset l) (hl : ReadsBack labelset l) :
    ReadsBack labelset (.nullableset l) := by
  refine readsBack_of_applied (p := l.fullName) (by rw [fullName, nameWith]; rfl) (by decide) ?_
  intro rest hrest
  rw [gives_labelset_nullable rfl, gives_nullableBody_append h hl]
  rfl

theorem readsBack_oneset : ReadsBack labelset .oneset := by
  intro rest hrest
  have hname : Descriptor.oneset.fullName = "lao".toList := by rw [fullName, nameWith]
  have hword : IsWord "lao".toList := by decide
  rcases hword.word_append hrest.breaksWord with ⟨hvalue, hafter⟩
  rw [hname, hvalue, hafter, gives_labelset_one rfl]

/-- A product is read alike as a label set and as a weight set. -/
theorem readsBack_tupleset {step : (w : Text) → (s : Text) → Step Descriptor s}
    (hstep : ∀ s, gives (step "lat".toList s) = gives (product s)) {d : Descriptor}
    {ds : List Descriptor} (h : ∀ e ∈ d :: ds, MemberReadsBack e) :
    ReadsBack step (.tupleset (d :: ds)) := by
  refine readsBack_of_applied (p := namesWith true (d :: ds)) (by rw [fullName, nameWith])
    (by decide) ?_
  intro rest hrest
  rw [hstep]
  exact gives_product_append h rest

/-- An expression set is read alike as a label set and as a weight set. -/
theorem readsBack_expressionset {step : (w : Text) → (s : Text) → Step Descriptor s}
    (hstep : ∀ s, gives (step "expressionset".toList s) = gives (expressionset .usual s))
    {c : Descriptor} {i : Identities} (hc : ReadsBack context c) :
    ReadsBack step (.expressionset c i) := by
  intro rest hrest
  have hname : (Descriptor.expressionset c i).fullName ++ rest =
      applied "expressionset".toList c.fullName ++
        ((if i = .usual then [] else '(' :: i.name ++ [')']) ++ rest) := by
    rw [fullName, nameWith, List.append_assoc]
    rfl
  have hword : IsWord "expressionset".toList := by decide
  rcases word_applied hword c.fullName
    ((if i = .usual then [] else '(' :: i.name ++ [')']) ++ rest) with ⟨hvalue, hafter⟩
  rw [hname, hvalue, hafter, hstep]
  exact gives_expressionset_append hc i hrest

end Reader

namespace Descriptor

open Reader

mutual

theorem IsLabelset.readsBack : ∀ {d : Descriptor}, IsLabelset d → ReadsBack Reader.labelset d
  | _, .letterset hg => readsBack_letterset hg
  | _, .wordset hg => readsBack_wordset hg
  | _, .nullableset hl => readsBack_nullableset hl hl.readsBack
  | _, .oneset => readsBack_oneset
  | _, .product (.tupleset hds) =>
      readsBack_tupleset (gives_labelset_product rfl) fun e he => (hds e he).readsBack
  | _, .expressions (.expressionset hc) =>
      readsBack_expressionset (gives_labelset_expressions rfl) hc.readsBack

theorem IsWeightset.readsBack : ∀ {d : Descriptor}, IsWeightset d → ReadsBack Reader.weightset d
  | _, .weightset hname => readsBack_weightset hname
  | _, .polynomialset hc => readsBack_polynomialset hc.readsBack
  | _, .product (.tupleset hds) =>
      readsBack_tupleset (gives_weightset_product rfl) fun e he => (hds e he).readsBack
  | _, .expressions (.expressionset hc) =>
      readsBack_expressionset (gives_weightset_expressions rfl) hc.readsBack

theorem IsMember.readsBack : ∀ {d : Descriptor}, IsMember d → MemberReadsBack d
  | _, .labelset hd => memberReadsBack_of_labelset hd hd.readsBack
  | _, .weightset (.weightset hname) =>
      memberReadsBack_of_weightset (.inl hname) (.weightset hname) (readsBack_weightset hname)
  | _, .weightset (.polynomialset hc) =>
      memberReadsBack_of_weightset (.inr rfl) (.polynomialset hc)
        (readsBack_polynomialset hc.readsBack)
  -- Products and expression sets are members as label sets are.
  | _, .weightset (.product (.tupleset hds)) =>
      memberReadsBack_of_labelset (.product (.tupleset hds))
        (readsBack_tupleset (gives_labelset_product rfl) fun e he => (hds e he).readsBack)
  | _, .weightset (.expressions (.expressionset hc)) =>
      memberReadsBack_of_labelset (.expressions (.expressionset hc))
        (readsBack_expressionset (gives_labelset_expressions rfl) hc.readsBack)

theorem IsContext.readsBack : ∀ {d : Descriptor}, IsContext d → ReadsBack Reader.context d
  | _, .context hl hw => readsBack_context hl hl.readsBack hw.readsBack

end

/-! ## Whole texts -/

theorem reported_eq_ok_iff {input : Text} {outcome : Except ReadError Descriptor}
    {d : Descriptor} : reported input outcome = .ok d ↔ outcome = .ok d := by
  cases outcome with
  | ok e => simp [reported]
  | error e => simp [reported]

theorem isContext_of_ofContext {text : Text} {d : Descriptor} (h : ofContext text = .ok d) :
    IsContext d := by
  have hwhole := reported_eq_ok_iff.1 h
  rcases finish_eq_ok_iff.1 hwhole with ⟨r, hgives, -⟩
  exact isContext_of_gives hgives

theorem isType_of_ofType {text : Text} {d : Descriptor} (h : ofType text = .ok d) :
    IsType d := by
  have hwhole := reported_eq_ok_iff.1 h
  rcases finish_eq_ok_iff.1 hwhole with ⟨r, hgives, -⟩
  exact isType_of_gives hgives

theorem IsContext.decoration_fullName {d : Descriptor} (h : IsContext d) :
    Stripping.decoration d.fullName = d.fullName := by
  have hquotes : Stripping.quotes d.fullName = d.fullName := (IsType.context h).quotes_fullName
  have hhome : Stripping.withoutHome? d.fullName = none := by
    cases h with
    | context _ _ =>
        rw [fullName, nameWith]
        rfl
  rw [Stripping.decoration, hquotes]
  exact Stripping.homeless_of_withoutHome? hhome

theorem IsContext.ofContext_fullName {d : Descriptor} (h : IsContext d) :
    ofContext d.fullName = .ok d := by
  have hgives := h.readsBack [] .nil
  rw [List.append_nil] at hgives
  rw [ofContext, h.decoration_fullName, reported_eq_ok_iff]
  exact finish_eq_ok_iff.2 ⟨[], hgives, rfl⟩

/-- The type reader takes a context as the context reader does. -/
theorem IsContext.gives_type {d : Descriptor} (h : IsContext d) {rest : Text}
    (hrest : Stops rest) : gives (type (d.fullName ++ rest)) = some (d, rest) := by
  have hword : (word (d.fullName ++ rest)).value = "context".toList := by
    cases h with
    | context hl hw =>
        have hopener : IsWord "context".toList := by decide
        exact (IsType.context (.context hl hw)).word_append hopener hrest
  have hgives := h.readsBack rest hrest
  rw [hword] at hgives
  rw [Reader.gives_type, hword, gives_typeFrom_context (by decide) (.inl (by decide))]
  exact hgives

theorem IsContext.ofType_fullName {d : Descriptor} (h : IsContext d) :
    ofType d.fullName = .ok d := by
  have hgives := h.gives_type .nil
  rw [List.append_nil] at hgives
  rw [ofType, (IsType.context h).quotes_fullName, reported_eq_ok_iff]
  exact finish_eq_ok_iff.2 ⟨[], hgives, rfl⟩

/--
The names of a context read back exactly: the full name as the context itself, by both readers, and
the short name as the context without its alphabets.  Both names are final.
-/
theorem context_names_read_back {text : Text} {d : Descriptor} (h : ofContext text = .ok d) :
    ofContext d.fullName = .ok d ∧ ofType d.fullName = .ok d ∧
      ofContext d.shortName = .ok d.erase ∧
      normalizeContext d.fullName = .ok ⟨d.shortName, d.fullName, d⟩ ∧
      normalizeContext d.shortName = .ok ⟨d.shortName, d.shortName, d.erase⟩ := by
  have hcontext : IsContext d := isContext_of_ofContext h
  have hfull : ofContext d.fullName = .ok d := hcontext.ofContext_fullName
  have hshort : ofContext d.shortName = .ok d.erase := by
    rw [← fullName_erase]
    exact hcontext.erase.ofContext_fullName
  refine ⟨hfull, hcontext.ofType_fullName, hshort, ?_, ?_⟩
  · rw [normalizeContext, hfull]
    rfl
  · have hnames : Normalized.of d.erase = ⟨d.shortName, d.shortName, d.erase⟩ := by
      rw [Normalized.of, shortName_erase, fullName_erase]
    rw [normalizeContext, hshort, ← hnames]
    rfl

/-- A text in short form, its alphabet with a closing parenthesis in it. -/
theorem lal_char_read_back :
    ofContext "lal_char(ab\\)), b".toList =
        .ok (.context (.letterset (.genset "char_letters".toList (some "ab)".toList)))
          (.weightset "b".toList)) ∧
      ofType "context<letterset<char_letters(ab\\))>, b>".toList =
        .ok (.context (.letterset (.genset "char_letters".toList (some "ab)".toList)))
          (.weightset "b".toList)) ∧
      ofContext "context<letterset<char_letters>, b>".toList =
        .ok (.context (.letterset (.genset "char_letters".toList none))
          (.weightset "b".toList)) := by
  let d : Descriptor :=
    .context (.letterset (.genset "char_letters".toList (some "ab)".toList)))
      (.weightset "b".toList)
  have hfull : d.fullName = "context<letterset<char_letters(ab\\))>, b>".toList := by decide
  have hshort : d.shortName = "context<letterset<char_letters>, b>".toList := by decide
  have hquotes : Stripping.quotes "lal_char(ab\\)), b".toList = "lal_char(ab\\)), b".toList := by
    decide
  have hhome : Stripping.withoutHome? "lal_char(ab\\)), b".toList = none := by decide
  have hword : (word "lal_char(ab\\)), b".toList).value = "lal_char".toList ∧
      (word "lal_char(ab\\)), b".toList).rest = alphabet "ab)".toList ++ ", b".toList := by
    decide
  have hcontext : "lal_char".toList ≠ "context".toList ∧ joined? "lal_char".toList = none := by
    decide
  have hform : Keyword.labelForm? "lal_char".toList =
      some (.lettered .letters "char_letters".toList) := by
    decide
  have hseparator : leaves (separator ", b".toList) = some " b".toList := rfl
  have hweights : (word " b".toList).value = "b".toList ∧ (word " b".toList).rest = [] := by
    decide
  have hgives : gives (Reader.context (word "lal_char(ab\\)), b".toList).value
      (word "lal_char(ab\\)), b".toList).rest) = some (d, []) := by
    rw [hword.1, hword.2, gives_context_separated hcontext.1 hcontext.2,
      gives_labelset_lettered hform, gives_alphabet_append, Option.bind_some, Option.bind_some,
      hseparator, Option.bind_some, hweights.1, hweights.2,
      gives_weightset_terminal (weightForm_of_isTerminal (by decide))]
    rfl
  have hread : ofContext "lal_char(ab\\)), b".toList = .ok d := by
    rw [ofContext, reported_eq_ok_iff, Stripping.decoration, hquotes,
      Stripping.homeless_of_withoutHome? hhome]
    exact finish_eq_ok_iff.2 ⟨[], hgives, rfl⟩
  have h := context_names_read_back hread
  rw [hfull, hshort] at h
  exact ⟨hread, h.2.1, h.2.2.1⟩

end Descriptor
end OnDemand
