import OnDemand.Descriptor.Keyword
import OnDemand.Descriptor.Name
import OnDemand.Descriptor.Parameters
import OnDemand.Descriptor.Stripping

/-!
# Reading descriptions

A reading step takes a text and gives what it read together with the rest of the text, which is
never longer; that bound is what lets the steps call each other.  Two families of steps follow each
other: those of contexts, with label sets and weight sets, and above them those of types.

Accepted are short forms (`lal_char(ab)`, `law<string>`, `lao`), canonical forms
(`letterset<char_letters(ab)>`), bracket forms (`[ab]`, `<string>[ab]*`), and a comma, an arrow or
an underscore between a label set and its weight set.
-/

namespace OnDemand

/-- Why a reading step failed. -/
inductive ReadError where
  /-- One character stands where another must. -/
  | unexpected (wanted found : Char)
  /-- The text ends where a character must stand. -/
  | missing (wanted : Char)
  /-- Something follows a complete description. -/
  | trailing (description rest : Text)
  | openParameters
  | openGenerators
  | loneBackslash
  | noLetterType
  | letterType (word : Text)
  | labelset (word : Text)
  | noLabelset
  | weightset (word : Text)
  | noWeightset
  | member (word : Text)
  /-- A character stands where a separator must. -/
  | separator (found : Char)
  | noSeparator
  | identities (name : Text)
  | expansion (word : Text)
  | notATypeName
  | strayCharacter (found : Char)
  | nothing
  deriving DecidableEq, Repr

/-- What is reported of a failed reading step. -/
def ReadError.message : ReadError → Text
  | .unexpected wanted found =>
    "expected '".toList ++ [wanted] ++ "', found '".toList ++ [found] ++ "'".toList
  | .missing wanted => "unexpected end of input, expected '".toList ++ [wanted] ++ "'".toList
  | .trailing description rest =>
    "unexpected trailing characters after '".toList ++ description ++ "': '".toList ++ rest ++
      "'".toList
  | .openParameters => "unexpected end of input in type parameters".toList
  | .openGenerators => "unexpected end of input in generators".toList
  | .loneBackslash => "unexpected end of input after '\\'".toList
  | .noLetterType => "expected a letter type".toList
  | .letterType word => "invalid letter type: \"".toList ++ word ++ "\"".toList
  | .labelset word => "invalid labelset name: \"".toList ++ word ++ "\"".toList
  | .noLabelset => "unexpected end of input, expected a labelset".toList
  | .weightset word => "invalid weightset name: \"".toList ++ word ++ "\"".toList
  | .noWeightset => "unexpected end of input, expected a weightset".toList
  | .member word => "invalid weightset or labelset name: \"".toList ++ word ++ "\"".toList
  | .separator found =>
    "expected ',' after labelset, found '".toList ++ [found] ++ "'".toList
  | .noSeparator => "unexpected end of input, expected ','".toList
  | .identities name => Identities.unknownMessage name
  | .expansion word => "invalid expansionset component: \"".toList ++ word ++ "\"".toList
  | .notATypeName => "expected a type name after 'const'".toList
  | .strayCharacter found => "unexpected character '".toList ++ [found] ++ "'".toList
  | .nothing => "unexpected end of input".toList

namespace Reader

/-- What a step read off the front of `s`, and what is left. -/
structure Reading (α : Type) (s : Text) where
  value : α
  rest : Text
  le : rest.length ≤ s.length

/-- What is left of `s` once something has been taken off its front. -/
structure Shorter (s : Text) where
  rest : Text
  lt : rest.length < s.length

/-! ## Characters and words -/

/-- The next character that is not blank. -/
def peek (s : Text) : Option Char := (Text.trimStart s).head?

/-- Takes the character `wanted`, after blanks. -/
def expect (wanted : Char) (s : Text) : Except ReadError (Shorter s) :=
  match h : Text.trimStart s with
  | [] => .error (.missing wanted)
  | c :: r =>
    if c = wanted then
      .ok ⟨r, by
        have := Text.length_trimStart_le s
        rw [h, List.length_cons] at this
        omega⟩
    else .error (.unexpected wanted c)

/-- The word that starts `t`, empty when none does. -/
def wordOf (t : Text) : Text := if t.head?.any startsWord then t.takeWhile inWord else []

/-- What follows the word that starts `t`. -/
def afterWord (t : Text) : Text := if t.head?.any startsWord then t.dropWhile inWord else t

theorem startsWord_inWord {c : Char} (h : startsWord c) : inWord c := by
  simp only [startsWord, inWord, Bool.or_eq_true] at *
  exact .inl h

theorem length_afterWord_le (t : Text) : (afterWord t).length ≤ t.length := by
  unfold afterWord
  split
  · exact (List.dropWhile_sublist inWord).length_le
  · exact Nat.le_refl _

theorem length_afterWord_lt {t : Text} (h : wordOf t ≠ []) :
    (afterWord t).length < t.length := by
  unfold wordOf at h
  unfold afterWord
  split at h
  · rename_i hc
    rw [if_pos hc]
    cases t with
    | nil => simp at hc
    | cons c t =>
      have hw : inWord c := startsWord_inWord (by simpa using hc)
      have hs := (List.dropWhile_sublist inWord (l := t)).length_le
      simp only [List.dropWhile_cons, hw, if_true, List.length_cons]
      omega
  · exact absurd rfl h

/-- The next word, empty when none starts here, after blanks. -/
def word (s : Text) : Reading Text s :=
  ⟨wordOf (Text.trimStart s), afterWord (Text.trimStart s),
    Nat.le_trans (length_afterWord_le _) (Text.length_trimStart_le s)⟩

/-- A word that is read is taken off the text. -/
theorem length_word_rest_lt {s : Text} (h : (word s).value ≠ []) :
    (word s).rest.length < s.length :=
  Nat.lt_of_lt_of_le (length_afterWord_lt h) (Text.length_trimStart_le s)

/-! ## Alphabets and raw parameters -/

/-- The outcome of a step on `s`. -/
abbrev Step (α : Type) (s : Text) := Except ReadError (Reading α s)

/-- A step on the text after `c`, its value changed by `f`, as a step on the text with `c`. -/
def Step.after {α β : Type} {s : Text} (c : Char) (f : α → β) (step : Step α s) :
    Step β (c :: s) :=
  step.map fun r => ⟨f r.value, r.rest, Nat.le_succ_of_le r.le⟩

/-- The generators up to `close`, which is taken too.  A backslash stands for what follows it. -/
def generators (close : Char) : (s : Text) → Step Text s
  | [] => .error .openGenerators
  | c :: t =>
    if c = close then .ok ⟨[], t, by simp⟩
    else if c = '\\' then
      match t with
      | [] => .error .loneBackslash
      | d :: u => ((generators close u).after d (d :: ·)).after c id
    else (generators close t).after c (c :: ·)

/-- The alphabet in parentheses, if there is one here. -/
def alphabet? (s : Text) : Step (Option Text) s :=
  if peek s = some '(' then do
    let ⟨r, hr⟩ ← expect '(' s
    let ⟨gens, r', hr'⟩ ← generators ')' r
    return ⟨some gens, r', by omega⟩
  else return ⟨none, s, Nat.le_refl _⟩

/--
The text up to the bracket that closes the current ones, of which there are `depth` within the
outermost; the outermost closing bracket is taken too.
-/
def enclosed : (depth : Nat) → (s : Text) → Step Text s
  | _, [] => .error .openParameters
  | depth, c :: t =>
    if c = '<' then (enclosed (depth + 1) t).after c (c :: ·)
    else if c = '>' then
      match depth with
      | 0 => .ok ⟨[], t, by simp⟩
      | depth + 1 => (enclosed depth t).after c (c :: ·)
    else (enclosed depth t).after c (c :: ·)

/-- Raw parameters with their brackets, in canonical spacing. -/
def parameters (s : Text) : Step Text s := do
  let ⟨r, hr⟩ ← expect '<' s
  let ⟨raw, r', hr'⟩ ← enclosed 0 r
  return ⟨'<' :: Parameters.canonical raw ++ ['>'], r', by omega⟩

/-! ## Alphabets with a letter type -/

/-- An alphabet whose letter type, or `set_alphabet`, is the word `w`. -/
def genset (w : Text) (s : Text) : Step Descriptor s :=
  if w = "set_alphabet".toList then do
    let ⟨r, hr⟩ ← expect '<' s
    let ⟨inner, r₁, h₁⟩ := word r
    let ⟨gens, r₂, h₂⟩ ← genset inner r₁
    let ⟨r₃, h₃⟩ ← expect '>' r₂
    return ⟨gens, r₃, by omega⟩
  else if w = [] then .error .noLetterType
  else do
    let ⟨gens, r, hr⟩ ← alphabet? s
    return ⟨.genset (Keyword.letterType w) gens, r, hr⟩
termination_by s.length

/-- A letter type in brackets, or else an alphabet of characters. -/
def typedGenset (s : Text) : Step Descriptor s :=
  if peek s = some '<' then do
    let ⟨r, hr⟩ ← expect '<' s
    let ⟨inner, r₁, h₁⟩ := word r
    let ⟨gens, r₂, h₂⟩ ← genset inner r₁
    let ⟨r₃, h₃⟩ ← expect '>' r₂
    return ⟨gens, r₃, by omega⟩
  else do
    let ⟨gens, r, hr⟩ ← alphabet? s
    return ⟨.genset Keyword.charLetters gens, r, hr⟩

/-- `[ab]` or `[ab]*` over the given letter type; the star must follow at once. -/
def bracketed (letterType : Text) (s : Text) : Step Descriptor s := do
  let ⟨r, hr⟩ ← expect '[' s
  let ⟨gens, r₁, h₁⟩ ← generators ']' r
  -- Blanks are not skipped: after one, a star belongs to something else.
  match r₁, h₁ with
  | '*' :: r₂, h₂ =>
    return ⟨.wordset (.genset letterType (some gens)), r₂, by
      rw [List.length_cons] at h₂
      omega⟩
  | r₂, h₂ => return ⟨.letterset (.genset letterType (some gens)), r₂, by omega⟩

/-- A label set that starts with a bracket. -/
def unnamedLabelset (s : Text) : Step Descriptor s :=
  match peek s with
  | none => .error .noLabelset
  | some c =>
    if c = '[' then bracketed Keyword.charLetters s
    else if c = '<' then do
      let ⟨r, hr⟩ ← expect '<' s
      let ⟨letters, r₁, h₁⟩ := word r
      if Keyword.isLetterType letters then do
        let ⟨r₂, h₂⟩ ← expect '>' r₁
        let ⟨d, r₃, h₃⟩ ← bracketed (Keyword.letterType letters) r₂
        return ⟨d, r₃, by omega⟩
      else .error (.letterType letters)
    else .error (.labelset [c])

/-- A comma, an arrow or an underscore. -/
def separator (s : Text) : Except ReadError (Shorter s) :=
  match h : Text.trimStart s with
  | [] => .error .noSeparator
  | c :: r =>
    have hr : r.length < s.length := by
      have := Text.length_trimStart_le s
      rw [h, List.length_cons] at this
      omega
    if c = ',' ∨ c = '_' then .ok ⟨r, hr⟩
    else
      match c, r, hr with
      | '-', '>' :: r', hr' => .ok ⟨r', by rw [List.length_cons] at hr'; omega⟩
      | c, _, _ => .error (.separator c)

/-- The identities in parentheses, or else the usual ones here. -/
def identities (usual : Identities) (s : Text) : Step Identities s :=
  if peek s = some '(' then do
    let ⟨r, hr⟩ ← expect '(' s
    let ⟨name, r₁, h₁⟩ := word r
    match Identities.ofText? name with
    | some i => do
      let ⟨r₂, h₂⟩ ← expect ')' r₁
      return ⟨i, r₂, by omega⟩
    | none => .error (.identities name)
  else return ⟨usual, s, Nat.le_refl _⟩

/-! ## Label sets, weight sets and contexts -/

mutual

/-- The label set that the word `w` opens. -/
def labelset (w : Text) (s : Text) : Step Descriptor s :=
  match Keyword.labelForm? w with
  | some (.lettered shape letters) => do
    let ⟨gens, r, hr⟩ ← alphabet? s
    return ⟨shape.over (.genset letters gens), r, hr⟩
  | some (.typed shape) => do
    let ⟨gens, r, hr⟩ ← typedGenset s
    return ⟨shape.over gens, r, hr⟩
  | some .nullable => do
    let ⟨inner, r, hr⟩ ← nullableBody s
    return ⟨.nullableset inner, r, hr⟩
  | some .one => return ⟨.oneset, s, Nat.le_refl _⟩
  | some .product => product s
  | some (.expressions usual) => expressionset usual s
  | none => if w = [] then unnamedLabelset s else .error (.labelset w)
termination_by 4 * s.length + 2

/-- The label set to which the empty word is added: in brackets, or else an alphabet. -/
def nullableBody (s : Text) : Step Descriptor s :=
  if peek s = some '<' then do
    let ⟨r, hr⟩ ← expect '<' s
    let ⟨w, r₁, h₁⟩ := word r
    -- An alphabet on its own is one of single letters.
    if Keyword.isLetterType w ∨ w = "set_alphabet".toList then do
      let ⟨gens, r₂, h₂⟩ ← genset w r₁
      let ⟨r₃, h₃⟩ ← expect '>' r₂
      return ⟨.letterset gens, r₃, by omega⟩
    else do
      let ⟨inner, r₂, h₂⟩ ← labelset w r₁
      let ⟨r₃, h₃⟩ ← expect '>' r₂
      return ⟨inner, r₃, by omega⟩
  else do
    let ⟨gens, r, hr⟩ ← alphabet? s
    return ⟨.letterset (.genset Keyword.charLetters gens), r, hr⟩
termination_by 4 * s.length + 1

/-- The weight set that the word `w` opens. -/
def weightset (w : Text) (s : Text) : Step Descriptor s :=
  match Keyword.weightForm? w with
  | some .terminal => return ⟨.weightset w, s, Nat.le_refl _⟩
  | some (.expressions usual) => expressionset usual s
  | some .polynomials => polynomialset s
  | some .product => product s
  | none => if w = [] ∧ peek s = none then .error .noWeightset else .error (.weightset w)
termination_by 4 * s.length + 2

/-- A member of a product: a label set or a weight set. -/
def member (s : Text) : Step Descriptor s :=
  let ⟨w, r, hr⟩ := word s
  if Keyword.isTerminal w ∨ w = "polynomialset".toList then do
    let ⟨d, r₁, h₁⟩ ← weightset w r
    return ⟨d, r₁, by omega⟩
  else if Keyword.isLabelset w ∨ w = [] then do
    let ⟨d, r₁, h₁⟩ ← labelset w r
    return ⟨d, r₁, by omega⟩
  else .error (.member w)
termination_by 4 * s.length + 3

/-- The further members of a product, each after a comma. -/
def members (s : Text) : Step (List Descriptor) s :=
  if peek s = some ',' then do
    let ⟨r, hr⟩ ← expect ',' s
    let ⟨d, r₁, h₁⟩ ← member r
    let ⟨ds, r₂, h₂⟩ ← members r₁
    return ⟨d :: ds, r₂, by omega⟩
  else return ⟨[], s, Nat.le_refl _⟩
termination_by 4 * s.length

/-- A product of label or weight sets, in brackets. -/
def product (s : Text) : Step Descriptor s := do
  let ⟨r, hr⟩ ← expect '<' s
  let ⟨d, r₁, h₁⟩ ← member r
  let ⟨ds, r₂, h₂⟩ ← members r₁
  let ⟨r₃, h₃⟩ ← expect '>' r₂
  return ⟨.tupleset (d :: ds), r₃, by omega⟩
termination_by 4 * s.length + 1

/-- An expression set over the context in brackets; identities may follow. -/
def expressionset (usual : Identities) (s : Text) : Step Descriptor s := do
  let ⟨r, hr⟩ ← expect '<' s
  let ⟨w, r₁, h₁⟩ := word r
  let ⟨c, r₂, h₂⟩ ← context w r₁
  let ⟨r₃, h₃⟩ ← expect '>' r₂
  let ⟨i, r₄, h₄⟩ ← identities usual r₃
  return ⟨.expressionset c i, r₄, by omega⟩
termination_by 4 * s.length + 1

/-- The polynomials over the context in brackets. -/
def polynomialset (s : Text) : Step Descriptor s := do
  let ⟨r, hr⟩ ← expect '<' s
  let ⟨w, r₁, h₁⟩ := word r
  let ⟨c, r₂, h₂⟩ ← context w r₁
  let ⟨r₃, h₃⟩ ← expect '>' r₂
  return ⟨.polynomialset c, r₃, by omega⟩
termination_by 4 * s.length + 1

/-- The context that the word `w` opens. -/
def context (w : Text) (s : Text) : Step Descriptor s :=
  if w = "context".toList then do
    let ⟨r, hr⟩ ← expect '<' s
    let ⟨w₁, r₁, h₁⟩ := word r
    let ⟨c, r₂, h₂⟩ ← context w₁ r₁
    let ⟨r₃, h₃⟩ ← expect '>' r₂
    return ⟨c, r₃, by omega⟩
  else
    -- Words such as `lal_char` are label set words as a whole and join nothing.
    match if Keyword.isLabelset w then none else Keyword.splitJoined? w with
    | some (l, v) => do
      let ⟨labels, r₁, h₁⟩ ← labelset l s
      let ⟨weights, r₂, h₂⟩ ← weightset v r₁
      return ⟨.context labels weights, r₂, by omega⟩
    | none => do
      let ⟨labels, r₁, h₁⟩ ← labelset w s
      let ⟨r₂, h₂⟩ ← separator r₁
      let ⟨v, r₃, h₃⟩ := word r₂
      let ⟨weights, r₄, h₄⟩ ← weightset v r₃
      return ⟨.context labels weights, r₄,
        Nat.le_trans h₄ (Nat.le_trans h₃ (Nat.le_trans (Nat.le_of_lt h₂) h₁))⟩
termination_by 4 * s.length + 3

end

/-! ## Types -/

/-- The expansions over the expression set in brackets. -/
def expansionset (s : Text) : Step Descriptor s := do
  let ⟨r, hr⟩ ← expect '<' s
  let ⟨w, r₁, h₁⟩ := word r
  match Keyword.Opening.ofWord w with
  | .expressions usual => do
    let ⟨e, r₂, h₂⟩ ← expressionset usual r₁
    let ⟨r₃, h₃⟩ ← expect '>' r₂
    return ⟨.expansionset e, r₃, by omega⟩
  | _ => .error (.expansion w)

/-- A name that opens no descriptor, with its raw parameters if there are any. -/
def opaqueName (w : Text) (s : Text) : Step Descriptor s :=
  if peek s = some '<' then do
    let ⟨raw, r, hr⟩ ← parameters s
    return ⟨.other (w ++ raw), r, hr⟩
  else return ⟨.other w, s, Nat.le_refl _⟩

/-- What stands where a type has no first word. -/
def unnamedType (s : Text) : Step Descriptor s :=
  match peek s with
  | none => .error .nothing
  | some c => if c = '[' ∨ c = '<' then labelset [] s else .error (.strayCharacter c)

/-- Whether the word `w` may open a context that stands alone inside an automaton type. -/
def opensContext (w : Text) : Bool :=
  w == "context".toList || Keyword.isLabelset w || (Keyword.splitJoined? w).isSome

/--
The first child of an automaton type, opened by a word that may open a context: a context, or else
the label set that a label set word opens.
-/
def firstContext (w : Text) (s : Text) : Step Descriptor s :=
  match context w s with
  | .ok d => .ok d
  -- A label set may stand alone here, and then no weight set follows it.
  | .error e => if Keyword.isLabelset w then labelset w s else .error e

mutual

/-- A type. -/
def type (s : Text) : Step Descriptor s := do
  let ⟨d, r, hr⟩ ← typeFrom (word s).value (word s).rest
  return ⟨d, r, Nat.le_trans hr (word s).le⟩
termination_by 4 * s.length + 1
decreasing_by
  have hle := (word s).le
  have hlt := @length_word_rest_lt s
  split
  · omega
  · rename_i hw
    have := hlt hw
    omega

/-- The type that the word `w` opens. -/
def typeFrom (w : Text) (s : Text) : Step Descriptor s :=
  if _hw : w = [] then unnamedType s
  else
    let w := Keyword.withoutNamespace w
    match Keyword.Opening.ofWord w with
    | .automaton => automaton w s
    | .context | .joined => context w s
    | .expressions usual => expressionset usual s
    | .expansions => expansionset s
    | .polynomials => polynomialset s
    | .tuple => tuple s
    | .const => do
      let ⟨d, r, hr⟩ ← type s
      match d with
      | .other name => return ⟨.other ("const ".toList ++ name), r, hr⟩
      | _ => .error .notATypeName
    | .terminal => weightset w s
    | .labelset => labelset w s
    | .opaqueName => opaqueName w s
termination_by 4 * s.length + (if w = [] then 0 else 3)
decreasing_by
  all_goals rw [if_neg _hw]
  all_goals omega

/-- The automaton type called `name`, its children in brackets. -/
def automaton (name : Text) (s : Text) : Step Descriptor s := do
  let ⟨r, hr⟩ ← expect '<' s
  let ⟨w, r₁, h₁⟩ := word r
  let ⟨first, r₂, h₂⟩ ← if opensContext w then firstContext w r₁ else typeFrom w r₁
  let ⟨others, r₃, h₃⟩ ← types r₂
  let ⟨r₄, h₄⟩ ← expect '>' r₃
  return ⟨.automaton name (first :: others), r₄, by omega⟩
termination_by 4 * s.length + 2
decreasing_by
  all_goals grind

/-- A tuple of the types in brackets. -/
def tuple (s : Text) : Step Descriptor s := do
  let ⟨r, hr⟩ ← expect '<' s
  let ⟨d, r₁, h₁⟩ ← type r
  let ⟨ds, r₂, h₂⟩ ← types r₁
  let ⟨r₃, h₃⟩ ← expect '>' r₂
  return ⟨.tuple (d :: ds), r₃, by omega⟩
termination_by 4 * s.length + 2

/-- The further types of a list, each after a comma. -/
def types (s : Text) : Step (List Descriptor) s :=
  if peek s = some ',' then do
    let ⟨r, hr⟩ ← expect ',' s
    let ⟨d, r₁, h₁⟩ ← type r
    let ⟨ds, r₂, h₂⟩ ← types r₁
    return ⟨d :: ds, r₂, by omega⟩
  else return ⟨[], s, Nat.le_refl _⟩
termination_by 4 * s.length

end

/-! ## Whole texts -/

/-- The descriptor of a step that has read the whole of its text, blanks at the end aside. -/
def finish {s : Text} (step : Step Descriptor s) : Except ReadError Descriptor := do
  let ⟨d, r, _⟩ ← step
  match Text.trimStart r with
  | [] => return d
  | c :: rest => .error (.trailing d.fullName (c :: rest))

/-- The context that makes up the whole of `s`. -/
def wholeContext (s : Text) : Except ReadError Descriptor :=
  let ⟨w, r, _⟩ := word s
  finish (context w r)

/-- The type that makes up the whole of `s`. -/
def wholeType (s : Text) : Except ReadError Descriptor := finish (type s)

end Reader

namespace Descriptor

/-- The descriptor read, or the error with the input it is about. -/
def reported (input : Text) : Except ReadError Descriptor → Except DescriptorError Descriptor
  | .ok d => .ok d
  | .error e => .error (.malformed input e.message)

/-- Reads a context description such as `lal_char(abc), zmin`. -/
def ofContext (text : Text) : Except DescriptorError Descriptor :=
  reported text (Reader.wholeContext (Stripping.decoration text))

/-- Reads a type: a context, an automaton type, a value set, a tuple or an opaque name. -/
def ofType (text : Text) : Except DescriptorError Descriptor :=
  reported text (Reader.wholeType (Stripping.quotes text))

end Descriptor

/-! ## Normalization -/

/-- A descriptor with its names. -/
structure Normalized where
  short : Text
  full : Text
  descriptor : Descriptor

/-- The descriptor with its names. -/
def Normalized.of (d : Descriptor) : Normalized := ⟨d.shortName, d.fullName, d⟩

/-- The context that `text` describes, with its names. -/
def normalizeContext (text : Text) : Except DescriptorError Normalized :=
  (Descriptor.ofContext text).map Normalized.of

/-- The type that `text` describes, with its names. -/
def normalizeType (text : Text) : Except DescriptorError Normalized :=
  (Descriptor.ofType text).map Normalized.of

end OnDemand
