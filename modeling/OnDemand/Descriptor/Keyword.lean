import OnDemand.Descriptor.Basic

/-!
# The words of descriptions

The tables of words that open a label set or a weight set, and what each one says about the text
that follows it.  The order of the label set words matters only for words such as `lal_char_b`,
which join a label set and a weight set: the first label set word that fits is taken.
-/

namespace OnDemand

/-- A shape of label set over an alphabet. -/
inductive Shape where
  /-- Single letters. -/
  | letters
  /-- Words of letters. -/
  | words
  /-- Single letters and the empty word. -/
  | nullableLetters
  deriving DecidableEq, Repr

/-- The label set of this shape over an alphabet. -/
def Shape.over (shape : Shape) (genset : Descriptor) : Descriptor :=
  match shape with
  | .letters => .letterset genset
  | .words => .wordset genset
  | .nullableLetters => .nullableset (.letterset genset)

/-- What a label set word announces. -/
inductive LabelForm where
  /-- A label set over the given letter type; an alphabet may follow. -/
  | lettered (shape : Shape) (letterType : Text)
  /-- A label set whose letter type, or else alphabet, may follow. -/
  | typed (shape : Shape)
  /-- An alphabet or a label set, to which the empty word is added. -/
  | nullable
  /-- The empty word alone. -/
  | one
  /-- A product. -/
  | product
  /-- An expression set; these are its identities when none are given. -/
  | expressions (identities : Identities)
  deriving DecidableEq, Repr

/-- What a weight set word announces. -/
inductive WeightForm where
  /-- The named weight set, with nothing to follow. -/
  | terminal
  /-- An expression set; these are its identities when none are given. -/
  | expressions (identities : Identities)
  /-- Polynomials over a context. -/
  | polynomials
  /-- A product. -/
  | product
  deriving DecidableEq, Repr

namespace Keyword

/-- The letter type of single characters. -/
def charLetters : Text := "char_letters".toList

/-- The letter type of strings. -/
def stringLetters : Text := "string_letters".toList

/-- The label set words. -/
def labelsets : List (Text × LabelForm) := [
  ("nullableset".toList, .nullable),
  ("lal_string".toList, .lettered .letters stringLetters),
  ("lan_string".toList, .lettered .nullableLetters stringLetters),
  ("law_string".toList, .lettered .words stringLetters),
  ("expressionset".toList, .expressions .usual),
  ("letterset".toList, .typed .letters),
  ("seriesset".toList, .expressions .distributive),
  ("tupleset".toList, .product),
  ("lal_char".toList, .lettered .letters charLetters),
  ("lan_char".toList, .lettered .nullableLetters charLetters),
  ("law_char".toList, .lettered .words charLetters),
  ("wordset".toList, .typed .words),
  ("oneset".toList, .one),
  ("lal".toList, .typed .letters),
  ("lan".toList, .nullable),
  ("lao".toList, .one),
  ("lat".toList, .product),
  ("law".toList, .typed .words)]

/-- The names of the weight sets that take no parameters. -/
def terminals : List Text :=
  ["b".toList, "f2".toList, "log".toList, "nmin".toList, "q".toList, "qmp".toList, "r".toList,
    "rmin".toList, "z".toList, "zmin".toList]

/-- The weight set words that take parameters. -/
def composites : List (Text × WeightForm) := [
  ("expressionset".toList, .expressions .usual),
  ("seriesset".toList, .expressions .distributive),
  ("polynomialset".toList, .polynomials),
  ("lat".toList, .product),
  ("tupleset".toList, .product)]

/-- What the label set word `w` announces. -/
def labelForm? (w : Text) : Option LabelForm := labelsets.lookup w

/-- Whether `w` is a label set word. -/
def isLabelset (w : Text) : Bool := (labelForm? w).isSome

/-- Whether `w` names a weight set that takes no parameters. -/
def isTerminal (w : Text) : Bool := terminals.contains w

/-- What the weight set word `w` announces. -/
def weightForm? (w : Text) : Option WeightForm :=
  if isTerminal w then some .terminal else composites.lookup w

/-- Whether `w` names an automaton type. -/
def isAutomaton (w : Text) : Bool := Text.endsWith "_automaton".toList w

/-- Whether `w` names a letter type. -/
def isLetterType (w : Text) : Bool :=
  w == "char".toList || w == "string".toList || w == charLetters || w == stringLetters

/-- The letter type `w`, where `char` and `string` are short for those of their letters. -/
def letterType (w : Text) : Text :=
  if w = "char".toList then charLetters
  else if w = "string".toList then stringLetters
  else w

/-- Whether `w` opens a descriptor also behind a namespace. -/
def isKeyword (w : Text) : Bool :=
  isAutomaton w || isLabelset w || isTerminal w || w == "context".toList ||
    w == "expansionset".toList || w == "polynomialset".toList

/--
The label set word and the weight set word that `w` joins by an underscore, the weight set word
being anything that is not empty.
-/
def splitJoined? (w : Text) : Option (Text × Text) :=
  labelsets.findSome? fun (l, _) =>
    match Text.dropPrefix? (l ++ ['_']) w with
    | some (c :: rest) => some (l, c :: rest)
    | _ => none

/-- What the first word of a type announces. -/
inductive Opening where
  | automaton
  | context
  | expressions (identities : Identities)
  | expansions
  | polynomials
  | tuple
  | const
  | terminal
  | labelset
  /-- A label set word and a weight set word joined by an underscore. -/
  | joined
  /-- A name of its own. -/
  | opaqueName
  deriving DecidableEq, Repr

/-- What the first word of a type announces. -/
def Opening.ofWord (w : Text) : Opening :=
  if isAutomaton w then .automaton
  else if w = "context".toList then .context
  else if w = "expressionset".toList then .expressions .usual
  else if w = "seriesset".toList then .expressions .distributive
  else if w = "expansionset".toList then .expansions
  else if w = "polynomialset".toList then .polynomials
  else if w = "std::tuple".toList then .tuple
  else if w = "const".toList then .const
  else if isTerminal w then .terminal
  else if isLabelset w then .labelset
  else if (splitJoined? w).isSome then .joined
  else .opaqueName

/-- The word `w` without the namespace before a word that opens a descriptor. -/
def withoutNamespace (w : Text) : Text :=
  match Text.dropPrefix? "vcsn::".toList w with
  | some rest => if isKeyword rest then rest else w
  | none => w

end Keyword
end OnDemand
