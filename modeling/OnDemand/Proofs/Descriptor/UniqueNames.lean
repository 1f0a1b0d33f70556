import OnDemand.Proofs.Descriptor.ReadBack

/-!
# Names are read in one way only

Two types with the same name are the same type, and that stays so with a name ending after each.
The reader is no help with automaton types, whose children it may group otherwise, so the names are
taken apart directly: the opener tells the family, and within a family the names are compared piece
by piece.  Only where the reader does invert the names does the argument go through it.
-/

namespace OnDemand
namespace Descriptor

open Reader

/-! ## Families -/

/-- The families of types that the opener tells apart. -/
inductive Family where
  | context
  /-- What may be a member of a product. -/
  | member
  | expansions
  | tuple
  | automaton
  | opaqueName
  deriving DecidableEq

/-- The family that an opening belongs to. -/
def Family.ofOpening : Keyword.Opening → Family
  | .automaton => .automaton
  | .context => .context
  | .expressions _ => .member
  | .expansions => .expansions
  | .polynomials => .member
  | .tuple => .tuple
  | .const => .opaqueName
  | .terminal => .member
  | .labelset => .member
  | .joined => .context
  | .opaqueName => .opaqueName

/-- The family of a descriptor. -/
def family : Descriptor → Family
  | .context .. => .context
  | .expansionset _ => .expansions
  | .tuple _ => .tuple
  | .automaton .. => .automaton
  | .other _ => .opaqueName
  | _ => .member

theorem IsOpaque.family_opener {name : Text} (h : IsOpaque name) :
    Family.ofOpening (Keyword.Opening.ofWord (name.takeWhile inWord)) = .opaqueName := by
  cases h with
  | bare hw =>
      rw [takeWhile_of_all hw.isWord.2, hw.opening]
      rfl
  | @applied w p hw hp =>
      rcases hp with ⟨raw, -, -, rfl⟩
      rw [takeWhile_append_of_breaksWord w (show BreaksWord ('<' :: raw ++ ['>']) from rfl),
        takeWhile_of_all hw.isWord.2, hw.opening]
      rfl
  | @constant name _ =>
      have hconst : ("const ".toList ++ name).takeWhile inWord = "const".toList := rfl
      rw [hconst]
      decide

theorem family_of_isTerminal {w : Text} (h : Keyword.isTerminal w = true) :
    Family.ofOpening (Keyword.Opening.ofWord w) = .member := by
  have hall : ∀ w ∈ Keyword.terminals,
      Family.ofOpening (Keyword.Opening.ofWord w) = .member := by
    decide
  exact hall w (List.contains_iff_mem.1 h)

theorem family_opener_of_eq {d : Descriptor} {w : Text} {f : Family} (hopener : d.opener = w)
    (hfamily : d.family = f) (h : Family.ofOpening (Keyword.Opening.ofWord w) = f) :
    Family.ofOpening (Keyword.Opening.ofWord d.opener) = d.family := by
  rw [hopener, hfamily]
  exact h

/-- The opener tells the family. -/
theorem HasParts.family_opener {d : Descriptor} (h : HasParts d) :
    Family.ofOpening (Keyword.Opening.ofWord d.opener) = d.family := by
  cases d with
  | context l w =>
      exact family_opener_of_eq (w := "context".toList) (f := .context) rfl rfl (by decide)
  | tupleset ds => exact family_opener_of_eq (w := "lat".toList) (f := .member) rfl rfl (by decide)
  | tuple ds =>
      exact family_opener_of_eq (w := "std::tuple".toList) (f := .tuple) rfl rfl (by decide)
  | oneset => exact family_opener_of_eq (w := "lao".toList) (f := .member) rfl rfl (by decide)
  | genset letters generators => exact h.elim
  | letterset g =>
      exact family_opener_of_eq (w := "letterset".toList) (f := .member) rfl rfl (by decide)
  | wordset g =>
      exact family_opener_of_eq (w := "wordset".toList) (f := .member) rfl rfl (by decide)
  | nullableset l =>
      exact family_opener_of_eq (w := "lan".toList) (f := .member) rfl rfl (by decide)
  | expressionset c i =>
      exact family_opener_of_eq (w := "expressionset".toList) (f := .member) rfl rfl (by decide)
  | expansionset e =>
      exact family_opener_of_eq (w := "expansionset".toList) (f := .expansions) rfl rfl (by decide)
  | weightset name => exact family_opener_of_eq (w := name) rfl rfl (family_of_isTerminal h)
  | automaton name ds =>
      have hopening := Keyword.opening_of_isAutomaton h.1.isAutomaton
      refine family_opener_of_eq (w := name) rfl rfl ?_
      rw [hopening]
      rfl
  | polynomialset c =>
      exact family_opener_of_eq (w := "polynomialset".toList) (f := .member) rfl rfl (by decide)
  | other name =>
      exact family_opener_of_eq (w := name.takeWhile inWord) rfl rfl (IsOpaque.family_opener h)

theorem IsType.isMember {d : Descriptor} (h : IsType d) (hfamily : d.family = .member) :
    IsMember d := by
  cases h with
  | context hd =>
      cases hd
      cases hfamily
  | labelset hd => exact .labelset hd
  | weightset hd => exact .weightset hd
  | expansionset _ => cases hfamily
  | tuple _ => cases hfamily
  | automaton _ _ => cases hfamily
  | other _ => cases hfamily

theorem IsExpressions.family_eq {d : Descriptor} (h : IsExpressions d) : d.family = .member := by
  cases h with
  | expressionset _ => rfl

theorem IsMember.family_eq {d : Descriptor} (h : IsMember d) : d.family = .member := by
  rcases h with ⟨h⟩ | ⟨h⟩
  · cases h with
    | product hd => cases hd; rfl
    | expressions hd => exact hd.family_eq
    | _ => rfl
  · cases h with
    | product hd => cases hd; rfl
    | expressions hd => exact hd.family_eq
    | _ => rfl

/-! ## Unique reading -/

/-- The name of `d` is read as no other type, up to where it ends. -/
def UniquelyNamed (d : Descriptor) : Prop :=
  ∀ e r₁ r₂, IsType e → Stops r₁ → Stops r₂ → d.fullName ++ r₁ = e.fullName ++ r₂ →
    d = e ∧ r₁ = r₂

theorem opener_eq_of_append_eq {d e : Descriptor} {r₁ r₂ : Text} (hd : IsType d) (he : IsType e)
    (hr₁ : Stops r₁) (hr₂ : Stops r₂) (h : d.fullName ++ r₁ = e.fullName ++ r₂) :
    d.opener = e.opener := by
  calc
    d.opener = (d.fullName ++ r₁).takeWhile inWord := (hd.takeWhile_append hr₁).symm
    _ = (e.fullName ++ r₂).takeWhile inWord := by rw [h]
    _ = e.opener := he.takeWhile_append hr₂

theorem family_eq_of_append_eq {d e : Descriptor} {r₁ r₂ : Text} (hd : IsType d) (he : IsType e)
    (hr₁ : Stops r₁) (hr₂ : Stops r₂) (h : d.fullName ++ r₁ = e.fullName ++ r₂) :
    d.family = e.family := by
  have hopener : d.opener = e.opener := opener_eq_of_append_eq hd he hr₁ hr₂ h
  calc
    d.family = Family.ofOpening (Keyword.Opening.ofWord d.opener) := hd.hasParts.family_opener.symm
    _ = Family.ofOpening (Keyword.Opening.ofWord e.opener) := by rw [hopener]
    _ = e.family := he.hasParts.family_opener

theorem append_eq_of_applied {head p₁ p₂ r₁ r₂ : Text}
    (h : applied head p₁ ++ r₁ = applied head p₂ ++ r₂) : p₁ ++ '>' :: r₁ = p₂ ++ '>' :: r₂ := by
  rw [applied_append, applied_append] at h
  have htail := List.append_cancel_left h
  exact List.tail_eq_of_cons_eq htail

/-! ### Where the reader inverts the names -/

/-- What a function reads back from its name, whatever follows, is told apart by its name. -/
theorem eq_of_append_eq_of_reads (read : Text → Option (Descriptor × Text)) {d e : Descriptor}
    {r₁ r₂ : Text} (hd : read (d.fullName ++ r₁) = some (d, r₁))
    (he : read (e.fullName ++ r₂) = some (e, r₂)) (h : d.fullName ++ r₁ = e.fullName ++ r₂) :
    d = e ∧ r₁ = r₂ := by
  rw [h, he] at hd
  cases hd
  exact ⟨rfl, rfl⟩

theorem IsContext.uniquelyNamed {d : Descriptor} (h : IsContext d) : UniquelyNamed d := by
  intro e r₁ r₂ he hr₁ hr₂ heq
  have hfamily := family_eq_of_append_eq (.context h) he hr₁ hr₂ heq
  have hcontext : IsContext e := by
    have hparts := he.hasParts
    cases h with
    | context hl hw =>
        cases e with
        | context l' w' => exact .context hparts.1 hparts.2
        | _ => cases hfamily
  exact eq_of_append_eq_of_reads
    (fun s => gives (Reader.context (word s).value (word s).rest))
    (h.readsBack r₁ hr₁) (hcontext.readsBack r₂ hr₂) heq

theorem IsMember.uniquelyNamed {d : Descriptor} (h : IsMember d) : UniquelyNamed d := by
  intro e r₁ r₂ he hr₁ hr₂ heq
  have hfamily := family_eq_of_append_eq h.isType he hr₁ hr₂ heq
  have hmember : IsMember e := he.isMember (hfamily.symm.trans h.family_eq)
  exact eq_of_append_eq_of_reads (fun s => gives (member s))
    (h.readsBack r₁ hr₁) (hmember.readsBack r₂ hr₂) heq

theorem isParameters_eq_of_append_eq {p q r₁ r₂ : Text} (hp : IsParameters p)
    (hq : IsParameters q) (h : p ++ r₁ = q ++ r₂) : p = q := by
  have hread := gives_parameters_append hp r₁
  rw [h, gives_parameters_append hq r₂] at hread
  cases hread
  rfl

/-! ### Opaque names -/

theorem OpensOpaque.takeWhile_append {w rest : Text} (hw : OpensOpaque w)
    (h : BreaksWord rest) : (w ++ rest).takeWhile inWord = w := by
  rw [takeWhile_append_of_breaksWord w h]
  exact takeWhile_of_all hw.isWord.2

theorem OpensOpaque.eq_of_append_eq {w w' s s' : Text} (hw : OpensOpaque w)
    (hw' : OpensOpaque w') (hs : BreaksWord s) (hs' : BreaksWord s') (h : w ++ s = w' ++ s') :
    w = w' ∧ s = s' := by
  have hheads : w = w' := by
    calc
      w = (w ++ s).takeWhile inWord := (hw.takeWhile_append hs).symm
      _ = (w' ++ s').takeWhile inWord := by rw [h]
      _ = w' := hw'.takeWhile_append hs'
  subst hheads
  exact ⟨rfl, List.append_cancel_left h⟩

/-- The word `const` begins no opaque name but a constant one. -/
theorem OpensOpaque.append_ne_const {w s : Text} (hw : OpensOpaque w) (hs : BreaksWord s)
    (t : Text) : w ++ s ≠ "const ".toList ++ t := by
  intro h
  have hconst : ("const ".toList ++ t).takeWhile inWord = "const".toList := rfl
  rw [← h, hw.takeWhile_append hs] at hconst
  rw [hconst] at hw
  exact absurd hw.opening (by decide)

theorem breaksWord_parameters {p : Text} (h : IsParameters p) (rest : Text) :
    BreaksWord (p ++ rest) := by
  rcases h with ⟨raw, -, -, rfl⟩
  rfl

theorem not_stops_parameters {p : Text} (h : IsParameters p) (rest : Text) :
    ¬Stops (p ++ rest) := by
  intro hstops
  rcases h with ⟨raw, -, -, rfl⟩
  cases hstops

theorem IsOpaque.eq_of_append_eq {n m r₁ r₂ : Text} (hn : IsOpaque n) (hm : IsOpaque m)
    (hr₁ : Stops r₁) (hr₂ : Stops r₂) (h : n ++ r₁ = m ++ r₂) : n = m := by
  induction hn generalizing m with
  | bare hw =>
      cases hm with
      | bare hw' => exact (hw.eq_of_append_eq hw' hr₁.breaksWord hr₂.breaksWord h).1
      | applied hw' hp' =>
          -- The bare name would end where the other has its bracket.
          rw [List.append_assoc] at h
          have hrest :=
            (hw.eq_of_append_eq hw' hr₁.breaksWord (breaksWord_parameters hp' r₂) h).2
          rw [hrest] at hr₁
          exact absurd hr₁ (not_stops_parameters hp' r₂)
      | constant _ =>
          rw [List.append_assoc] at h
          exact absurd h (hw.append_ne_const hr₁.breaksWord _)
  | applied hw hp =>
      rw [List.append_assoc] at h
      have hbreaks := breaksWord_parameters hp r₁
      cases hm with
      | bare hw' =>
          have hrest := (hw.eq_of_append_eq hw' hbreaks hr₂.breaksWord h).2
          rw [← hrest] at hr₂
          exact absurd hr₂ (not_stops_parameters hp r₁)
      | applied hw' hp' =>
          rw [List.append_assoc] at h
          rcases hw.eq_of_append_eq hw' hbreaks (breaksWord_parameters hp' r₂) h with
            ⟨hheads, hrest⟩
          rw [hheads, isParameters_eq_of_append_eq hp hp' hrest]
      | constant _ =>
          rw [List.append_assoc] at h
          exact absurd h (hw.append_ne_const hbreaks _)
  | constant _ ih =>
      rw [List.append_assoc] at h
      cases hm with
      | bare hw' => exact absurd h.symm (hw'.append_ne_const hr₂.breaksWord _)
      | applied hw' hp' =>
          rw [List.append_assoc] at h
          exact absurd h.symm (hw'.append_ne_const (breaksWord_parameters hp' r₂) _)
      | constant hm =>
          rw [List.append_assoc] at h
          rw [ih hm (List.append_cancel_left h)]

/-! ### Lists of names -/

theorem further_eq_of_append_eq {ds es : List Descriptor} {r₁ r₂ : Text}
    (hds : ∀ d ∈ ds, UniquelyNamed d) (hes : ∀ e ∈ es, IsType e)
    (h : further true ds ++ '>' :: r₁ = further true es ++ '>' :: r₂) : ds = es ∧ r₁ = r₂ := by
  induction ds generalizing es with
  | nil =>
      cases es with
      | nil => exact ⟨rfl, List.tail_eq_of_cons_eq h⟩
      | cons e es =>
          rw [further_cons] at h
          exact absurd (List.head_eq_of_cons_eq h) (by decide)
  | cons d ds ih =>
      cases es with
      | nil =>
          rw [further_cons] at h
          exact absurd (List.head_eq_of_cons_eq h) (by decide)
      | cons e es =>
          simp only [further_cons, List.append_assoc] at h
          have hnames := List.append_cancel_left h
          have hstops₁ : Stops (further true ds ++ '>' :: r₁) :=
            stops_further_append (.close r₁) true ds
          have hstops₂ : Stops (further true es ++ '>' :: r₂) :=
            stops_further_append (.close r₂) true es
          -- The first names agree and end at the same place, so what follows agrees as well.
          rcases hds d List.mem_cons_self e _ _ (hes e List.mem_cons_self) hstops₁ hstops₂ hnames
            with ⟨hfirst, hrest⟩
          rcases ih (fun d' hd' => hds d' (List.mem_cons_of_mem d hd'))
            (fun e' he' => hes e' (List.mem_cons_of_mem e he')) hrest with ⟨hothers, hr⟩
          exact ⟨by rw [hfirst, hothers], hr⟩

theorem namesWith_eq_of_append_eq {ds es : List Descriptor} {r₁ r₂ : Text}
    (hds : ∀ d ∈ ds, UniquelyNamed d) (hes : ∀ e ∈ es, IsType e) (hdsne : ds ≠ [])
    (hesne : es ≠ [])
    (h : namesWith true ds ++ '>' :: r₁ = namesWith true es ++ '>' :: r₂) :
    ds = es ∧ r₁ = r₂ := by
  rcases List.exists_cons_of_ne_nil hdsne with ⟨d, ds, rfl⟩
  rcases List.exists_cons_of_ne_nil hesne with ⟨e, es, rfl⟩
  -- A comma before both makes the first names further ones.
  have hfurther : further true (d :: ds) ++ '>' :: r₁ = further true (e :: es) ++ '>' :: r₂ := by
    rw [further_cons, further_cons, ← namesWith_cons, ← namesWith_cons, List.append_assoc,
      List.append_assoc, h]
  exact further_eq_of_append_eq hds hes hfurther

/-! ### Types -/

theorem IsType.uniquelyNamed {d : Descriptor} (h : IsType d) : UniquelyNamed d := by
  -- The first word tells the family; within one, the names of the parts decide.
  induction h with
  | context hd => exact hd.uniquelyNamed
  | labelset hd => exact (IsMember.labelset hd).uniquelyNamed
  | weightset hd => exact (IsMember.weightset hd).uniquelyNamed
  | @expansionset d hd =>
      intro e r₁ r₂ he hr₁ hr₂ heq
      have hfamily := family_eq_of_append_eq (.expansionset hd) he hr₁ hr₂ heq
      have hparts := he.hasParts
      cases e with
      | expansionset e =>
          simp only [fullName, nameWith] at heq
          have hmember : IsMember d := .labelset (.expressions hd)
          have htype : IsType e := .labelset (.expressions hparts)
          rcases hmember.uniquelyNamed e _ _ htype (.close r₁) (.close r₂)
            (append_eq_of_applied heq) with ⟨hinner, hr⟩
          exact ⟨by rw [hinner], List.tail_eq_of_cons_eq hr⟩
      | _ => cases hfamily
  | @tuple d ds hds ih =>
      intro e r₁ r₂ he hr₁ hr₂ heq
      have hfamily := family_eq_of_append_eq (.tuple hds) he hr₁ hr₂ heq
      have hparts := he.hasParts
      cases e with
      | tuple es =>
          simp only [fullName, nameWith] at heq
          rcases namesWith_eq_of_append_eq ih hparts.2 (List.cons_ne_nil d ds) hparts.1
            (append_eq_of_applied heq) with ⟨hmembers, hr⟩
          exact ⟨by rw [hmembers], hr⟩
      | _ => cases hfamily
  | @automaton name d ds hname hds ih =>
      intro e r₁ r₂ he hr₁ hr₂ heq
      have hfamily := family_eq_of_append_eq (.automaton hname hds) he hr₁ hr₂ heq
      have hopener := opener_eq_of_append_eq (.automaton hname hds) he hr₁ hr₂ heq
      have hparts := he.hasParts
      cases e with
      | automaton name' es =>
          have hnames : name = name' := hopener
          subst hnames
          simp only [fullName, nameWith] at heq
          rcases namesWith_eq_of_append_eq ih hparts.2.2 (List.cons_ne_nil d ds) hparts.2.1
            (append_eq_of_applied heq) with ⟨hchildren, hr⟩
          exact ⟨by rw [hchildren], hr⟩
      | _ => cases hfamily
  | @other name hname =>
      intro e r₁ r₂ he hr₁ hr₂ heq
      have hfamily := family_eq_of_append_eq (.other hname) he hr₁ hr₂ heq
      have hparts := he.hasParts
      cases e with
      | other name' =>
          simp only [fullName, nameWith] at heq
          have hnames : name = name' := IsOpaque.eq_of_append_eq hname hparts hr₁ hr₂ heq
          subst hnames
          exact ⟨rfl, List.append_cancel_left heq⟩
      | _ => cases hfamily

/-- A full name belongs to one type only. -/
theorem IsType.eq_of_fullName_eq {d e : Descriptor} (hd : IsType d) (he : IsType e)
    (h : d.fullName = e.fullName) : d = e :=
  (hd.uniquelyNamed e [] [] he .nil .nil (by rw [h])).1

/-- A short name tells a type up to its alphabets. -/
theorem IsType.erase_eq_of_shortName_eq {d e : Descriptor} (hd : IsType d) (he : IsType e)
    (h : d.shortName = e.shortName) : d.erase = e.erase := by
  rw [← fullName_erase, ← fullName_erase] at h
  exact hd.erase.eq_of_fullName_eq he.erase h

end Descriptor
end OnDemand
