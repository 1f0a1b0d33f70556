import OnDemand.Descriptor.Basic

/-!
# Canonical names

Each descriptor has a full name, from which it reads back, and a short name, which leaves out the
alphabets and serves as the key of the registries.
-/

namespace OnDemand.Descriptor

/-- An alphabet between parentheses; a backslash goes before `)` and `\`. -/
def alphabet (generators : Text) : Text :=
  '(' :: generators.flatMap (fun c => if c = ')' ∨ c = '\\' then ['\\', c] else [c]) ++ [')']

/-- A name applied to its parameters. -/
def applied (head parameters : Text) : Text := head ++ '<' :: parameters ++ ['>']

mutual

/-- The name of the descriptor, with its alphabets when `full`. -/
def nameWith (full : Bool) : Descriptor → Text
  | .context l w =>
    applied "context".toList (l.nameWith full ++ ", ".toList ++ w.nameWith full)
  | .tupleset sets => applied "lat".toList (namesWith full sets)
  | .tuple sets => applied "std::tuple".toList (namesWith full sets)
  | .oneset => "lao".toList
  | .genset letters generators =>
    match full, generators with
    | true, some gens => letters ++ alphabet gens
    | _, _ => letters
  | .letterset g => applied "letterset".toList (g.nameWith full)
  | .wordset g => applied "wordset".toList (g.nameWith full)
  | .nullableset l => applied "lan".toList (l.nameWith full)
  | .expressionset c i =>
    applied "expressionset".toList (c.nameWith full) ++
      (if i = .usual then [] else '(' :: i.name ++ [')'])
  | .expansionset e => applied "expansionset".toList (e.nameWith full)
  | .weightset name => name
  | .automaton name children => applied name (namesWith full children)
  | .polynomialset c => applied "polynomialset".toList (c.nameWith full)
  | .other name => name

/-- The names of the descriptors, separated by commas. -/
def namesWith (full : Bool) : List Descriptor → Text
  | [] => []
  | [d] => d.nameWith full
  | d :: e :: ds => d.nameWith full ++ ", ".toList ++ namesWith full (e :: ds)

end

/-- The full name: the descriptor reads back from it. -/
def fullName (d : Descriptor) : Text := d.nameWith true

/-- The short name: alphabets are left out. -/
def shortName (d : Descriptor) : Text := d.nameWith false

end OnDemand.Descriptor
