import Mathlib.Data.Nat.Init
import OnDemand.Descriptor.Reader

/-!
# Reading steps as partial functions

A reading step carries a bound on the text it leaves, and says why it fails.  Neither matters for
what is read.  `gives` forgets both, and each step of the reader gets one equation for each of its
branches; later proofs rewrite with these equations and never open the steps themselves.
-/

namespace OnDemand
namespace Reader

variable {α β : Type} {s t r : Text} {d : Descriptor}

/-- The value that a step reads with the text that it leaves, if it does not fail. -/
def gives : Step α s → Option (α × Text)
  | .ok r => some (r.value, r.rest)
  | .error _ => none

/-- The text that is left once something has been taken off, if that does not fail. -/
def leaves : Except ReadError (Shorter s) → Option Text
  | .ok r => some r.rest
  | .error _ => none

/-! ## Steps one after the other -/

@[simp] theorem gives_ok (r : Reading α s) : gives (.ok r : Step α s) = some (r.value, r.rest) :=
  rfl

@[simp] theorem gives_error (e : ReadError) : gives (.error e : Step α s) = none :=
  rfl

theorem gives_bind {step : Step α s} {f : Reading α s → Step β t}
    {g : α × Text → Option (β × Text)} (h : ∀ r, gives (f r) = g (r.value, r.rest)) :
    gives (step >>= f) = (gives step).bind g := by
  cases step with
  | error e => rfl
  | ok r => exact h r

theorem gives_bind_leaves {step : Except ReadError (Shorter s)} {f : Shorter s → Step β t}
    {g : Text → Option (β × Text)} (h : ∀ r, gives (f r) = g r.rest) :
    gives (step >>= f) = (leaves step).bind g := by
  cases step with
  | error e => rfl
  | ok r => exact h r

theorem gives_after {step : Step α s} {c : Char} {f : α → β} :
    gives (step.after c f) = (gives step).map fun p => (f p.1, p.2) := by
  cases step with
  | error e => rfl
  | ok r => rfl

theorem length_le_of_gives {step : Step α s} {a : α} {r : Text} (h : gives step = some (a, r)) :
    r.length ≤ s.length := by
  cases step with
  | error e => cases h
  | ok x =>
    cases h
    exact x.le

theorem length_lt_of_leaves {step : Except ReadError (Shorter s)} {r : Text}
    (h : leaves step = some r) : r.length < s.length := by
  cases step with
  | error e => cases h
  | ok x =>
    cases h
    exact x.lt

/-! ## Characters and words -/

theorem leaves_expect (wanted : Char) (s : Text) :
    leaves (expect wanted s) =
      match Text.trimStart s with
      | [] => none
      | c :: r => if c = wanted then some r else none := by
  unfold expect
  split
  · rename_i h
    simp only [h]
    rfl
  · rename_i c r h
    simp only [h]
    by_cases hc : c = wanted
    · simp only [hc, if_true]
      rfl
    · simp only [hc, if_false]
      rfl

theorem leaves_separator (s : Text) :
    leaves (separator s) =
      match Text.trimStart s with
      | [] => none
      | c :: r =>
        if c = ',' ∨ c = '_' then some r
        else match c, r with
          | '-', '>' :: r' => some r'
          | _, _ => none := by
  unfold separator
  split
  · rename_i h
    simp only [h]
    rfl
  · rename_i c r h
    simp only [h]
    by_cases hc : c = ',' ∨ c = '_'
    · simp only [hc, if_true]
      rfl
    · simp only [hc, if_false]
      split
      · rfl
      · rename_i hn
        split
        · exact (hn _ _ h rfl rfl HEq.rfl HEq.rfl).elim
        · rfl

@[simp] theorem length_word_le (s : Text) : (word s).rest.length ≤ s.length :=
  (word s).le

/-! ## Steps behind a character -/

/-- In angle brackets stands a word, and `F` reads `a` there from what the word opens. -/
def Wraps (F : Text → Text → Option (α × Text)) (s : Text) (a : α) (r : Text) : Prop :=
  ∃ r₀ r₁, leaves (expect '<' s) = some r₀ ∧ F (word r₀).value (word r₀).rest = some (a, r₁) ∧
    leaves (expect '>' r₁) = some r

/-- Behind the character `c` stands `a`, as `f` reads it, and then `as`, as `g` reads them. -/
def Follows (c : Char) (f : Text → Option (α × Text)) (g : Text → Option (List α × Text))
    (s : Text) (a : α) (as : List α) (r : Text) : Prop :=
  ∃ r₀ r₁, leaves (expect c s) = some r₀ ∧ f r₀ = some (a, r₁) ∧ g r₁ = some (as, r)

/-- What holds of everything that is read from shorter texts holds of all that is read here. -/
theorem Follows.forall_mem {c : Char} {f : Text → Option (α × Text)}
    {g : Text → Option (List α × Text)} {a : α} {as : List α} {p : α → Prop}
    (h : Follows c f g s a as r)
    (hle : ∀ {r₀ a r₁}, f r₀ = some (a, r₁) → r₁.length ≤ r₀.length)
    (hf : ∀ r₀ : Text, r₀.length < s.length → ∀ a r₁, f r₀ = some (a, r₁) → p a)
    (hg : ∀ r₁ : Text, r₁.length < s.length → ∀ as r, g r₁ = some (as, r) → ∀ b ∈ as, p b) :
    ∀ b ∈ a :: as, p b := by
  rcases h with ⟨r₀, r₁, hr₀, ha, has⟩
  have hlt : r₀.length < s.length := length_lt_of_leaves hr₀
  exact List.forall_mem_cons.2
    ⟨hf r₀ hlt a r₁ ha, hg r₁ (Nat.lt_of_le_of_lt (hle ha) hlt) as r has⟩

/-! ## Alphabets and raw parameters -/

theorem gives_generators_close (close : Char) (s : Text) :
    gives (generators close (close :: s)) = some ([], s) := by
  rw [generators.eq_def]
  simp

theorem gives_generators_escape {close : Char} (h : '\\' ≠ close) (d : Char) (s : Text) :
    gives (generators close ('\\' :: d :: s)) =
      (gives (generators close s)).map fun p => (d :: p.1, p.2) := by
  rw [generators.eq_def]
  simp [h, gives_after]
  rfl

theorem gives_generators_plain {close c : Char} (hclose : c ≠ close) (hescape : c ≠ '\\')
    (s : Text) :
    gives (generators close (c :: s)) =
      (gives (generators close s)).map fun p => (c :: p.1, p.2) := by
  rw [generators.eq_def]
  simp [hclose, hescape, gives_after]

theorem gives_enclosed_open (depth : Nat) (s : Text) :
    gives (enclosed depth ('<' :: s)) =
      (gives (enclosed (depth + 1) s)).map fun p => ('<' :: p.1, p.2) := by
  rw [enclosed.eq_def]
  simp [gives_after]

theorem gives_enclosed_close (s : Text) : gives (enclosed 0 ('>' :: s)) = some ([], s) := by
  rw [enclosed.eq_def]
  simp

theorem gives_enclosed_inner (depth : Nat) (s : Text) :
    gives (enclosed (depth + 1) ('>' :: s)) =
      (gives (enclosed depth s)).map fun p => ('>' :: p.1, p.2) := by
  rw [enclosed.eq_def]
  simp [gives_after]

theorem gives_enclosed_plain {c : Char} (hopen : c ≠ '<') (hclose : c ≠ '>') (depth : Nat)
    (s : Text) :
    gives (enclosed depth (c :: s)) =
      (gives (enclosed depth s)).map fun p => (c :: p.1, p.2) := by
  rw [enclosed.eq_def]
  simp [hopen, hclose, gives_after]

theorem gives_alphabet_some (h : peek s = some '(') :
    gives (alphabet? s) =
      (leaves (expect '(' s)).bind fun r =>
        (gives (generators ')' r)).bind fun p => some (some p.1, p.2) := by
  rw [alphabet?, if_pos h]
  exact gives_bind_leaves fun _ => gives_bind fun _ => rfl

theorem gives_alphabet_none (h : peek s ≠ some '(') : gives (alphabet? s) = some (none, s) := by
  rw [alphabet?, if_neg h]
  rfl

theorem gives_parameters (s : Text) :
    gives (parameters s) =
      (leaves (expect '<' s)).bind fun r =>
        (gives (enclosed 0 r)).bind fun p =>
          some ('<' :: Parameters.canonical p.1 ++ ['>'], p.2) := by
  rw [parameters]
  exact gives_bind_leaves fun _ => gives_bind fun _ => rfl

/-! ## Alphabets with a letter type -/

theorem gives_genset_wrapped (s : Text) :
    gives (genset "set_alphabet".toList s) =
      (leaves (expect '<' s)).bind fun r =>
        (gives (genset (word r).value (word r).rest)).bind fun p =>
          (leaves (expect '>' p.2)).bind fun r₃ => some (p.1, r₃) := by
  rw [genset, if_pos rfl]
  exact gives_bind_leaves fun _ => gives_bind fun _ => gives_bind_leaves fun _ => rfl

theorem gives_genset_wrapped_eq_some_iff :
    gives (genset "set_alphabet".toList s) = some (d, r) ↔
      Wraps (fun w s => gives (genset w s)) s d r := by
  rw [gives_genset_wrapped]
  simp only [Option.bind_eq_some_iff, Prod.exists, Option.some.injEq, Prod.mk.injEq, Wraps]
  grind

theorem gives_genset_bare {w : Text} (hset : w ≠ "set_alphabet".toList) (hw : w ≠ []) (s : Text) :
    gives (genset w s) =
      (gives (alphabet? s)).bind fun p =>
        some (.genset (Keyword.letterType w) p.1, p.2) := by
  rw [genset, if_neg hset, if_neg hw]
  exact gives_bind fun _ => rfl

theorem gives_typedGenset_typed (h : peek s = some '<') :
    gives (typedGenset s) =
      (leaves (expect '<' s)).bind fun r =>
        (gives (genset (word r).value (word r).rest)).bind fun p =>
          (leaves (expect '>' p.2)).bind fun r₃ => some (p.1, r₃) := by
  rw [typedGenset, if_pos h]
  exact gives_bind_leaves fun _ => gives_bind fun _ => gives_bind_leaves fun _ => rfl

theorem gives_typedGenset_typed_eq_some_iff (h : peek s = some '<') :
    gives (typedGenset s) = some (d, r) ↔ Wraps (fun w s => gives (genset w s)) s d r := by
  rw [gives_typedGenset_typed h]
  simp only [Option.bind_eq_some_iff, Prod.exists, Option.some.injEq, Prod.mk.injEq, Wraps]
  grind

theorem gives_typedGenset_untyped (h : peek s ≠ some '<') :
    gives (typedGenset s) =
      (gives (alphabet? s)).bind fun p => some (.genset Keyword.charLetters p.1, p.2) := by
  rw [typedGenset, if_neg h]
  exact gives_bind fun _ => rfl

/-- The reading of `[ab]` or `[ab]*`, from the alphabet read and the text after its bracket. -/
def starred (letterType gens : Text) : Text → Descriptor × Text
  | '*' :: r => (.wordset (.genset letterType (some gens)), r)
  | r => (.letterset (.genset letterType (some gens)), r)

theorem gives_bracketed (letterType s : Text) :
    gives (bracketed letterType s) =
      (leaves (expect '[' s)).bind fun r =>
        (gives (generators ']' r)).bind fun p => some (starred letterType p.1 p.2) := by
  rw [bracketed]
  refine gives_bind_leaves fun _ => gives_bind fun r => ?_
  rcases r with ⟨gens, r, hr⟩
  dsimp only
  split
  · rfl
  · rename_i hn
    unfold starred
    split
    · exact (hn _ _ rfl HEq.rfl).elim
    · rfl

theorem gives_unnamedLabelset_bracket (h : peek s = some '[') :
    gives (unnamedLabelset s) = gives (bracketed Keyword.charLetters s) := by
  simp [unnamedLabelset, h]

theorem gives_unnamedLabelset_typed (h : peek s = some '<') :
    gives (unnamedLabelset s) =
      (leaves (expect '<' s)).bind fun r =>
        if Keyword.isLetterType (word r).value then
          (leaves (expect '>' (word r).rest)).bind fun r₂ =>
            gives (bracketed (Keyword.letterType (word r).value) r₂)
        else none := by
  simp only [unnamedLabelset, h]
  refine gives_bind_leaves fun r => ?_
  split
  · refine gives_bind_leaves fun r₂ => ?_
    refine (gives_bind (g := some) fun _ => rfl).trans ?_
    exact Option.bind_fun_some _
  · rfl

theorem gives_unnamedLabelset_none (hbracket : peek s ≠ some '[') (htyped : peek s ≠ some '<') :
    gives (unnamedLabelset s) = none := by
  cases h : peek s with
  | none => simp [unnamedLabelset, h]
  | some c =>
    have h₁ : c ≠ '[' := by simpa [h] using hbracket
    have h₂ : c ≠ '<' := by simpa [h] using htyped
    simp [unnamedLabelset, h, h₁, h₂]

theorem gives_identities_some (usual : Identities) (h : peek s = some '(') :
    gives (identities usual s) =
      (leaves (expect '(' s)).bind fun r =>
        (Identities.ofText? (word r).value).bind fun i =>
          (leaves (expect ')' (word r).rest)).bind fun r₂ => some (i, r₂) := by
  rw [identities, if_pos h]
  refine gives_bind_leaves fun r => ?_
  dsimp only
  split
  · rename_i i hi
    rw [hi]
    exact gives_bind_leaves fun _ => rfl
  · rename_i hi
    rw [hi]
    rfl

theorem gives_identities_none (usual : Identities) (h : peek s ≠ some '(') :
    gives (identities usual s) = some (usual, s) := by
  rw [identities, if_neg h]
  rfl

/-! ## Label sets -/

section Labelset

variable {w : Text}

theorem gives_labelset_lettered {shape : Shape} {letters : Text}
    (h : Keyword.labelForm? w = some (.lettered shape letters)) (s : Text) :
    gives (labelset w s) =
      (gives (alphabet? s)).bind fun p => some (shape.over (.genset letters p.1), p.2) := by
  rw [labelset, h]
  exact gives_bind fun _ => rfl

theorem gives_labelset_typed {shape : Shape} (h : Keyword.labelForm? w = some (.typed shape))
    (s : Text) :
    gives (labelset w s) =
      (gives (typedGenset s)).bind fun p => some (shape.over p.1, p.2) := by
  rw [labelset, h]
  exact gives_bind fun _ => rfl

theorem gives_labelset_nullable (h : Keyword.labelForm? w = some .nullable) (s : Text) :
    gives (labelset w s) =
      (gives (nullableBody s)).bind fun p => some (.nullableset p.1, p.2) := by
  rw [labelset, h]
  exact gives_bind fun _ => rfl

theorem gives_labelset_one (h : Keyword.labelForm? w = some .one) (s : Text) :
    gives (labelset w s) = some (.oneset, s) := by
  rw [labelset, h]
  rfl

theorem gives_labelset_product (h : Keyword.labelForm? w = some .product) (s : Text) :
    gives (labelset w s) = gives (product s) := by
  rw [labelset, h]

theorem gives_labelset_expressions {usual : Identities}
    (h : Keyword.labelForm? w = some (.expressions usual)) (s : Text) :
    gives (labelset w s) = gives (expressionset usual s) := by
  rw [labelset, h]

theorem gives_labelset_unnamed (s : Text) : gives (labelset [] s) = gives (unnamedLabelset s) := by
  rw [labelset, show Keyword.labelForm? [] = none from rfl]
  rfl

theorem gives_labelset_unknown (h : Keyword.labelForm? w = none) (hw : w ≠ []) (s : Text) :
    gives (labelset w s) = none := by
  rw [labelset, h]
  simp [hw]

end Labelset

theorem gives_nullableBody_enclosed (h : peek s = some '<') :
    gives (nullableBody s) =
      (leaves (expect '<' s)).bind fun r =>
        if Keyword.isLetterType (word r).value ∨ (word r).value = "set_alphabet".toList then
          (gives (genset (word r).value (word r).rest)).bind fun p =>
            (leaves (expect '>' p.2)).bind fun r₃ => some (.letterset p.1, r₃)
        else
          (gives (labelset (word r).value (word r).rest)).bind fun p =>
            (leaves (expect '>' p.2)).bind fun r₃ => some (p.1, r₃) := by
  rw [nullableBody, if_pos h]
  refine gives_bind_leaves fun r => ?_
  dsimp only
  split
  · exact gives_bind fun _ => gives_bind_leaves fun _ => rfl
  · exact gives_bind fun _ => gives_bind_leaves fun _ => rfl

/-- What the reader does inside the brackets of a label set with the empty word added. -/
def nullableInner (w s : Text) : Option (Descriptor × Text) :=
  if Keyword.isLetterType w ∨ w = "set_alphabet".toList then
    (gives (genset w s)).bind fun x => some (.letterset x.1, x.2)
  else gives (labelset w s)

theorem gives_nullableBody_inner (h : peek s = some '<') :
    gives (nullableBody s) =
      (leaves (expect '<' s)).bind fun r =>
        (nullableInner (word r).value (word r).rest).bind fun x =>
          (leaves (expect '>' x.2)).bind fun r₃ => some (x.1, r₃) := by
  rw [gives_nullableBody_enclosed h]
  congr 1
  funext r
  unfold nullableInner
  split
  · rw [Option.bind_assoc]
    rfl
  · rfl

theorem gives_nullableBody_inner_eq_some_iff (h : peek s = some '<') :
    gives (nullableBody s) = some (d, r) ↔ Wraps nullableInner s d r := by
  rw [gives_nullableBody_inner h]
  simp only [Option.bind_eq_some_iff, Prod.exists, Option.some.injEq, Prod.mk.injEq, Wraps]
  grind

theorem gives_nullableBody_bare (h : peek s ≠ some '<') :
    gives (nullableBody s) =
      (gives (alphabet? s)).bind fun p =>
        some (.letterset (.genset Keyword.charLetters p.1), p.2) := by
  rw [nullableBody, if_neg h]
  exact gives_bind fun _ => rfl

/-! ## Weight sets -/

section Weightset

variable {w : Text}

theorem gives_weightset_terminal (h : Keyword.weightForm? w = some .terminal) (s : Text) :
    gives (weightset w s) = some (.weightset w, s) := by
  rw [weightset, h]
  rfl

theorem gives_weightset_expressions {usual : Identities}
    (h : Keyword.weightForm? w = some (.expressions usual)) (s : Text) :
    gives (weightset w s) = gives (expressionset usual s) := by
  rw [weightset, h]

theorem gives_weightset_polynomials (h : Keyword.weightForm? w = some .polynomials) (s : Text) :
    gives (weightset w s) = gives (polynomialset s) := by
  rw [weightset, h]

theorem gives_weightset_product (h : Keyword.weightForm? w = some .product) (s : Text) :
    gives (weightset w s) = gives (product s) := by
  rw [weightset, h]

theorem gives_weightset_unknown (h : Keyword.weightForm? w = none) (s : Text) :
    gives (weightset w s) = none := by
  rw [weightset, h]
  dsimp only
  split
  · rfl
  · rfl

end Weightset

/-! ## Products, expressions and contexts -/

theorem gives_member (s : Text) :
    gives (member s) =
      if Keyword.isTerminal (word s).value ∨ (word s).value = "polynomialset".toList then
        gives (weightset (word s).value (word s).rest)
      else if Keyword.isLabelset (word s).value ∨ (word s).value = [] then
        gives (labelset (word s).value (word s).rest)
      else none := by
  rw [member]
  dsimp only
  split
  · refine (gives_bind (g := some) fun _ => rfl).trans ?_
    exact Option.bind_fun_some _
  · split
    · refine (gives_bind (g := some) fun _ => rfl).trans ?_
      exact Option.bind_fun_some _
    · rfl

/-- The member that the word `w` opens. -/
def memberFrom (w s : Text) : Option (Descriptor × Text) :=
  if Keyword.isTerminal w ∨ w = "polynomialset".toList then gives (weightset w s)
  else if Keyword.isLabelset w ∨ w = [] then gives (labelset w s)
  else none

theorem gives_member_from (s : Text) :
    gives (member s) = memberFrom (word s).value (word s).rest :=
  gives_member s

theorem gives_members_more (h : peek s = some ',') :
    gives (members s) =
      (leaves (expect ',' s)).bind fun r =>
        (gives (member r)).bind fun p =>
          (gives (members p.2)).bind fun q => some (p.1 :: q.1, q.2) := by
  rw [members, if_pos h]
  exact gives_bind_leaves fun _ => gives_bind fun _ => gives_bind fun _ => rfl

theorem gives_members_more_eq_some_iff {ds : List Descriptor} (h : peek s = some ',') :
    gives (members s) = some (ds, r) ↔
      ∃ e es, Follows ',' (fun s => gives (member s)) (fun s => gives (members s)) s e es r ∧
        e :: es = ds := by
  rw [gives_members_more h]
  simp only [Option.bind_eq_some_iff, Prod.exists, Option.some.injEq, Prod.mk.injEq, Follows]
  grind

theorem gives_members_none (h : peek s ≠ some ',') : gives (members s) = some ([], s) := by
  rw [members, if_neg h]
  rfl

theorem gives_product (s : Text) :
    gives (product s) =
      (leaves (expect '<' s)).bind fun r =>
        (gives (member r)).bind fun p =>
          (gives (members p.2)).bind fun q =>
            (leaves (expect '>' q.2)).bind fun r₃ => some (.tupleset (p.1 :: q.1), r₃) := by
  rw [product]
  exact gives_bind_leaves fun _ => gives_bind fun _ => gives_bind fun _ =>
    gives_bind_leaves fun _ => rfl

theorem gives_product_eq_some_iff :
    gives (product s) = some (d, r) ↔
      ∃ e es r₂, Follows '<' (fun s => gives (member s)) (fun s => gives (members s)) s e es r₂ ∧
        leaves (expect '>' r₂) = some r ∧ .tupleset (e :: es) = d := by
  rw [gives_product]
  simp only [Option.bind_eq_some_iff, Prod.exists, Option.some.injEq, Prod.mk.injEq, Follows]
  grind

theorem gives_expressionset (usual : Identities) (s : Text) :
    gives (expressionset usual s) =
      (leaves (expect '<' s)).bind fun r =>
        (gives (context (word r).value (word r).rest)).bind fun p =>
          (leaves (expect '>' p.2)).bind fun r₃ =>
            (gives (identities usual r₃)).bind fun q => some (.expressionset p.1 q.1, q.2) := by
  rw [expressionset]
  exact gives_bind_leaves fun _ => gives_bind fun _ => gives_bind_leaves fun _ =>
    gives_bind fun _ => rfl

theorem gives_expressionset_eq_some_iff {usual : Identities} :
    gives (expressionset usual s) = some (d, r) ↔
      ∃ c r₁ i, Wraps (fun w s => gives (context w s)) s c r₁ ∧
        gives (identities usual r₁) = some (i, r) ∧ .expressionset c i = d := by
  rw [gives_expressionset]
  simp only [Option.bind_eq_some_iff, Prod.exists, Option.some.injEq, Prod.mk.injEq, Wraps]
  grind

theorem gives_polynomialset (s : Text) :
    gives (polynomialset s) =
      (leaves (expect '<' s)).bind fun r =>
        (gives (context (word r).value (word r).rest)).bind fun p =>
          (leaves (expect '>' p.2)).bind fun r₃ => some (.polynomialset p.1, r₃) := by
  rw [polynomialset]
  exact gives_bind_leaves fun _ => gives_bind fun _ => gives_bind_leaves fun _ => rfl

theorem gives_polynomialset_eq_some_iff :
    gives (polynomialset s) = some (d, r) ↔
      ∃ c, Wraps (fun w s => gives (context w s)) s c r ∧ .polynomialset c = d := by
  rw [gives_polynomialset]
  simp only [Option.bind_eq_some_iff, Prod.exists, Option.some.injEq, Prod.mk.injEq, Wraps]
  grind

theorem gives_context_wrapped (s : Text) :
    gives (context "context".toList s) =
      (leaves (expect '<' s)).bind fun r =>
        (gives (context (word r).value (word r).rest)).bind fun p =>
          (leaves (expect '>' p.2)).bind fun r₃ => some (p.1, r₃) := by
  rw [context, if_pos rfl]
  exact gives_bind_leaves fun _ => gives_bind fun _ => gives_bind_leaves fun _ => rfl

theorem gives_context_wrapped_eq_some_iff :
    gives (context "context".toList s) = some (d, r) ↔
      Wraps (fun w s => gives (context w s)) s d r := by
  rw [gives_context_wrapped]
  simp only [Option.bind_eq_some_iff, Prod.exists, Option.some.injEq, Prod.mk.injEq, Wraps]
  grind

/-- The label set word and the weight set word that `w` joins, unless it is a word by itself. -/
def joined? (w : Text) : Option (Text × Text) :=
  if Keyword.isLabelset w then none else Keyword.splitJoined? w

theorem gives_context_joined {w l v : Text} (hw : w ≠ "context".toList)
    (h : joined? w = some (l, v)) (s : Text) :
    gives (context w s) =
      (gives (labelset l s)).bind fun p =>
        (gives (weightset v p.2)).bind fun q => some (.context p.1 q.1, q.2) := by
  unfold joined? at h
  rw [context, if_neg hw, h]
  exact gives_bind fun _ => gives_bind fun _ => rfl

theorem gives_context_joined_eq_some_iff {w l v : Text} (hw : w ≠ "context".toList)
    (h : joined? w = some (l, v)) :
    gives (context w s) = some (d, r) ↔
      ∃ labels r₁ weights, gives (labelset l s) = some (labels, r₁) ∧
        gives (weightset v r₁) = some (weights, r) ∧ .context labels weights = d := by
  rw [gives_context_joined hw h]
  simp only [Option.bind_eq_some_iff, Prod.exists, Option.some.injEq, Prod.mk.injEq]
  grind

theorem gives_context_separated {w : Text} (hw : w ≠ "context".toList) (h : joined? w = none)
    (s : Text) :
    gives (context w s) =
      (gives (labelset w s)).bind fun p =>
        (leaves (separator p.2)).bind fun r₂ =>
          (gives (weightset (word r₂).value (word r₂).rest)).bind fun q =>
            some (.context p.1 q.1, q.2) := by
  unfold joined? at h
  rw [context, if_neg hw, h]
  exact gives_bind fun _ => gives_bind_leaves fun _ => gives_bind fun _ => rfl

theorem gives_context_separated_eq_some_iff {w : Text} (hw : w ≠ "context".toList)
    (h : joined? w = none) :
    gives (context w s) = some (d, r) ↔
      ∃ labels r₁ r₂ weights, gives (labelset w s) = some (labels, r₁) ∧
        leaves (separator r₁) = some r₂ ∧
        gives (weightset (word r₂).value (word r₂).rest) = some (weights, r) ∧
        .context labels weights = d := by
  rw [gives_context_separated hw h]
  simp only [Option.bind_eq_some_iff, Prod.exists, Option.some.injEq, Prod.mk.injEq]
  grind

/-! ## Types -/

theorem gives_expansionset (s : Text) :
    gives (expansionset s) =
      (leaves (expect '<' s)).bind fun r =>
        match Keyword.Opening.ofWord (word r).value with
        | .expressions usual =>
          (gives (expressionset usual (word r).rest)).bind fun p =>
            (leaves (expect '>' p.2)).bind fun r₃ => some (.expansionset p.1, r₃)
        | _ => none := by
  rw [expansionset]
  refine gives_bind_leaves fun r => ?_
  dsimp only
  cases Keyword.Opening.ofWord (word r.rest).value with
  | expressions usual => exact gives_bind fun _ => gives_bind_leaves fun _ => rfl
  | _ => rfl

/-- The expression set that a word opens inside an expansion set. -/
def expansionBody (w s : Text) : Option (Descriptor × Text) :=
  match Keyword.Opening.ofWord w with
  | .expressions usual => gives (expressionset usual s)
  | _ => none

theorem gives_expansionset_body (s : Text) :
    gives (expansionset s) =
      (leaves (expect '<' s)).bind fun r =>
        (expansionBody (word r).value (word r).rest).bind fun p =>
          (leaves (expect '>' p.2)).bind fun r₃ => some (.expansionset p.1, r₃) := by
  rw [gives_expansionset]
  refine congrArg _ (funext fun r => ?_)
  unfold expansionBody
  cases Keyword.Opening.ofWord (word r).value with
  | expressions usual => rfl
  | _ => rfl

theorem gives_expansionset_eq_some_iff :
    gives (expansionset s) = some (d, r) ↔
      ∃ e, Wraps expansionBody s e r ∧ .expansionset e = d := by
  rw [gives_expansionset_body]
  simp only [Option.bind_eq_some_iff, Prod.exists, Option.some.injEq, Prod.mk.injEq, Wraps]
  grind

theorem gives_opaqueName_applied (w : Text) (h : peek s = some '<') :
    gives (opaqueName w s) =
      (gives (parameters s)).bind fun p => some (.other (w ++ p.1), p.2) := by
  rw [opaqueName, if_pos h]
  exact gives_bind fun _ => rfl

theorem gives_opaqueName_bare (w : Text) (h : peek s ≠ some '<') :
    gives (opaqueName w s) = some (.other w, s) := by
  rw [opaqueName, if_neg h]
  rfl

theorem gives_unnamedType (h : peek s = some '[' ∨ peek s = some '<') :
    gives (unnamedType s) = gives (labelset [] s) := by
  rcases h with h | h
  · simp [unnamedType, h]
  · simp [unnamedType, h]

theorem gives_unnamedType_none (hbracket : peek s ≠ some '[') (htyped : peek s ≠ some '<') :
    gives (unnamedType s) = none := by
  cases h : peek s with
  | none => simp [unnamedType, h]
  | some c =>
    have h₁ : c ≠ '[' := by simpa [h] using hbracket
    have h₂ : c ≠ '<' := by simpa [h] using htyped
    simp [unnamedType, h, h₁, h₂]

theorem gives_firstContext (w s : Text) :
    gives (firstContext w s) =
      (gives (context w s)).or (if Keyword.isLabelset w then gives (labelset w s) else none) := by
  unfold firstContext
  split
  · rename_i d hd
    rw [hd]
    rfl
  · rename_i e he
    rw [he]
    split
    · rfl
    · rfl

theorem gives_type (s : Text) : gives (type s) = gives (typeFrom (word s).value (word s).rest) := by
  rw [type]
  refine (gives_bind (g := some) fun _ => rfl).trans ?_
  exact Option.bind_fun_some _

theorem gives_typeFrom_unnamed (s : Text) : gives (typeFrom [] s) = gives (unnamedType s) := by
  rw [typeFrom, dif_pos rfl]

section TypeFrom

variable {w : Text}

theorem gives_typeFrom_automaton (hw : w ≠ [])
    (h : Keyword.Opening.ofWord (Keyword.withoutNamespace w) = .automaton) (s : Text) :
    gives (typeFrom w s) = gives (automaton (Keyword.withoutNamespace w) s) := by
  rw [typeFrom, dif_neg hw]
  simp only [h]

theorem gives_typeFrom_context (hw : w ≠ [])
    (h : Keyword.Opening.ofWord (Keyword.withoutNamespace w) = .context ∨
      Keyword.Opening.ofWord (Keyword.withoutNamespace w) = .joined) (s : Text) :
    gives (typeFrom w s) = gives (context (Keyword.withoutNamespace w) s) := by
  rw [typeFrom, dif_neg hw]
  rcases h with h | h
  · simp only [h]
  · simp only [h]

theorem gives_typeFrom_expressions (hw : w ≠ []) {usual : Identities}
    (h : Keyword.Opening.ofWord (Keyword.withoutNamespace w) = .expressions usual) (s : Text) :
    gives (typeFrom w s) = gives (expressionset usual s) := by
  rw [typeFrom, dif_neg hw]
  simp only [h]

theorem gives_typeFrom_expansions (hw : w ≠ [])
    (h : Keyword.Opening.ofWord (Keyword.withoutNamespace w) = .expansions) (s : Text) :
    gives (typeFrom w s) = gives (expansionset s) := by
  rw [typeFrom, dif_neg hw]
  simp only [h]

theorem gives_typeFrom_polynomials (hw : w ≠ [])
    (h : Keyword.Opening.ofWord (Keyword.withoutNamespace w) = .polynomials) (s : Text) :
    gives (typeFrom w s) = gives (polynomialset s) := by
  rw [typeFrom, dif_neg hw]
  simp only [h]

theorem gives_typeFrom_tuple (hw : w ≠ [])
    (h : Keyword.Opening.ofWord (Keyword.withoutNamespace w) = .tuple) (s : Text) :
    gives (typeFrom w s) = gives (tuple s) := by
  rw [typeFrom, dif_neg hw]
  simp only [h]

/-- The opaque name with `const` before it; other descriptors cannot be constant. -/
def constant? : Descriptor → Option Descriptor
  | .other name => some (.other ("const ".toList ++ name))
  | _ => none

theorem gives_typeFrom_const (hw : w ≠ [])
    (h : Keyword.Opening.ofWord (Keyword.withoutNamespace w) = .const) (s : Text) :
    gives (typeFrom w s) =
      (gives (type s)).bind fun p => (constant? p.1).bind fun d => some (d, p.2) := by
  rw [typeFrom, dif_neg hw]
  simp only [h]
  refine gives_bind fun r => ?_
  rcases r with ⟨d, r, hr⟩
  cases d with
  | other name => rfl
  | _ => rfl

theorem gives_typeFrom_terminal (hw : w ≠ [])
    (h : Keyword.Opening.ofWord (Keyword.withoutNamespace w) = .terminal) (s : Text) :
    gives (typeFrom w s) = gives (weightset (Keyword.withoutNamespace w) s) := by
  rw [typeFrom, dif_neg hw]
  simp only [h]

theorem gives_typeFrom_labelset (hw : w ≠ [])
    (h : Keyword.Opening.ofWord (Keyword.withoutNamespace w) = .labelset) (s : Text) :
    gives (typeFrom w s) = gives (labelset (Keyword.withoutNamespace w) s) := by
  rw [typeFrom, dif_neg hw]
  simp only [h]

theorem gives_typeFrom_opaqueName (hw : w ≠ [])
    (h : Keyword.Opening.ofWord (Keyword.withoutNamespace w) = .opaqueName) (s : Text) :
    gives (typeFrom w s) = gives (opaqueName (Keyword.withoutNamespace w) s) := by
  rw [typeFrom, dif_neg hw]
  simp only [h]

end TypeFrom

theorem gives_automaton (name s : Text) :
    gives (automaton name s) =
      (leaves (expect '<' s)).bind fun r =>
        (gives (if opensContext (word r).value then firstContext (word r).value (word r).rest
          else typeFrom (word r).value (word r).rest)).bind fun p =>
          (gives (types p.2)).bind fun q =>
            (leaves (expect '>' q.2)).bind fun r₄ =>
              some (.automaton name (p.1 :: q.1), r₄) := by
  rw [automaton]
  refine gives_bind_leaves fun r => ?_
  dsimp only
  split
  · exact gives_bind fun _ => gives_bind fun _ => gives_bind_leaves fun _ => rfl
  · exact gives_bind fun _ => gives_bind fun _ => gives_bind_leaves fun _ => rfl

/-- The first child of an automaton type, by the word that opens it. -/
def firstChild (w s : Text) : Option (Descriptor × Text) :=
  gives (if opensContext w then firstContext w s else typeFrom w s)

theorem gives_automaton_eq_some_iff {name : Text} :
    gives (automaton name s) = some (d, r) ↔
      ∃ e es r₂, Follows '<' (fun s => firstChild (word s).value (word s).rest)
          (fun s => gives (types s)) s e es r₂ ∧
        leaves (expect '>' r₂) = some r ∧ .automaton name (e :: es) = d := by
  rw [gives_automaton]
  change ((leaves (expect '<' s)).bind fun r =>
    (firstChild (word r).value (word r).rest).bind fun p => _) = _ ↔ _
  simp only [Option.bind_eq_some_iff, Prod.exists, Option.some.injEq, Prod.mk.injEq, Follows]
  grind

theorem gives_tuple (s : Text) :
    gives (tuple s) =
      (leaves (expect '<' s)).bind fun r =>
        (gives (type r)).bind fun p =>
          (gives (types p.2)).bind fun q =>
            (leaves (expect '>' q.2)).bind fun r₃ => some (.tuple (p.1 :: q.1), r₃) := by
  rw [tuple]
  exact gives_bind_leaves fun _ => gives_bind fun _ => gives_bind fun _ =>
    gives_bind_leaves fun _ => rfl

theorem gives_tuple_eq_some_iff :
    gives (tuple s) = some (d, r) ↔
      ∃ e es r₂, Follows '<' (fun s => gives (type s)) (fun s => gives (types s)) s e es r₂ ∧
        leaves (expect '>' r₂) = some r ∧ .tuple (e :: es) = d := by
  rw [gives_tuple]
  simp only [Option.bind_eq_some_iff, Prod.exists, Option.some.injEq, Prod.mk.injEq, Follows]
  grind

theorem gives_types_more (h : peek s = some ',') :
    gives (types s) =
      (leaves (expect ',' s)).bind fun r =>
        (gives (type r)).bind fun p =>
          (gives (types p.2)).bind fun q => some (p.1 :: q.1, q.2) := by
  rw [types, if_pos h]
  exact gives_bind_leaves fun _ => gives_bind fun _ => gives_bind fun _ => rfl

theorem gives_types_more_eq_some_iff {ds : List Descriptor} (h : peek s = some ',') :
    gives (types s) = some (ds, r) ↔
      ∃ e es, Follows ',' (fun s => gives (type s)) (fun s => gives (types s)) s e es r ∧
        e :: es = ds := by
  rw [gives_types_more h]
  simp only [Option.bind_eq_some_iff, Prod.exists, Option.some.injEq, Prod.mk.injEq, Follows]
  grind

theorem gives_types_none (h : peek s ≠ some ',') : gives (types s) = some ([], s) := by
  rw [types, if_neg h]
  rfl

/-! ## Whole texts -/

/-- A step has read the whole of its text when nothing but blanks is left. -/
theorem finish_eq_ok_iff {step : Step Descriptor s} {d : Descriptor} :
    finish step = .ok d ↔ ∃ r, gives step = some (d, r) ∧ Text.trimStart r = [] := by
  cases step with
  | error e =>
      constructor
      · intro h
        cases h
      · rintro ⟨r, hr, -⟩
        cases hr
  | ok x =>
      have hfinish : finish (.ok x : Step Descriptor s) =
          match Text.trimStart x.rest with
          | [] => .ok x.value
          | c :: rest => .error (.trailing x.value.fullName (c :: rest)) := rfl
      rw [hfinish, gives_ok]
      cases hrest : Text.trimStart x.rest with
      | nil =>
          constructor
          · intro h
            cases h
            exact ⟨x.rest, rfl, hrest⟩
          · rintro ⟨r, hr, -⟩
            cases hr
            rfl
      | cons c rest =>
          constructor
          · intro h
            cases h
          · rintro ⟨r, hr, hblank⟩
            cases hr
            rw [hrest] at hblank
            cases hblank

end Reader
end OnDemand
