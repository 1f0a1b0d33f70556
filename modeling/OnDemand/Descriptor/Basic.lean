import OnDemand.Descriptor.Identities
import OnDemand.Text.Quoted

/-!
# Descriptors

A descriptor is the parsed form of a context or type description such as `lal_char(abc), zmin` or
`mutable_automaton<lal_char, b>`: a tree of value sets.  The tree says nothing about which children
make sense where; the reader decides that.
-/

namespace OnDemand

/-- A context or type description, parsed. -/
inductive Descriptor where
  /-- A label set with a weight set. -/
  | context (labelset weightset : Descriptor)
  /-- A product of label or weight sets. -/
  | tupleset (sets : List Descriptor)
  /-- A plain tuple of types. -/
  | tuple (sets : List Descriptor)
  /-- The label set of the empty word alone. -/
  | oneset
  /-- An alphabet.  `none` is no alphabet at all, which the empty alphabet is not. -/
  | genset (letterType : Text) (generators : Option Text)
  | letterset (genset : Descriptor)
  | wordset (genset : Descriptor)
  /-- A label set with the empty word added. -/
  | nullableset (labelset : Descriptor)
  | expressionset (context : Descriptor) (identities : Identities)
  | expansionset (expressionset : Descriptor)
  | weightset (name : Text)
  | automaton (name : Text) (children : List Descriptor)
  | polynomialset (child : Descriptor)
  /-- An opaque type name, its parameters included. -/
  | other (name : Text)
  deriving Repr, Inhabited

/-- Why a description yields no descriptor. -/
inductive DescriptorError where
  /-- The text is no description: `message` says what is wrong with `input`. -/
  | malformed (input message : Text)
  /-- A `what` was built from no components. -/
  | emptyTuple (what : Text)
  deriving DecidableEq, Repr

/-- What is reported of the error. -/
def DescriptorError.message : DescriptorError → Text
  | .malformed input message => message ++ ": ".toList ++ Quoted.text input
  | .emptyTuple what => "empty ".toList ++ what

namespace Descriptor

/-! ## Building products -/

/-- The product of the sets, of which there must be one. -/
def tuplesetOf : List Descriptor → Except DescriptorError Descriptor
  | [] => .error (.emptyTuple "tupleset".toList)
  | sets => .ok (.tupleset sets)

/-- The tuple of the types, of which there must be one. -/
def tupleOf : List Descriptor → Except DescriptorError Descriptor
  | [] => .error (.emptyTuple "tuple".toList)
  | sets => .ok (.tuple sets)

/-! ## Questions -/

/-- The name of the descriptor's kind. -/
def kind : Descriptor → Text
  | .context .. => "context".toList
  | .tupleset _ => "tupleset".toList
  | .tuple _ => "tuple".toList
  | .oneset => "oneset".toList
  | .genset .. => "genset".toList
  | .letterset _ => "letterset".toList
  | .wordset _ => "wordset".toList
  | .nullableset _ => "nullableset".toList
  | .expressionset .. => "expressionset".toList
  | .expansionset _ => "expansionset".toList
  | .weightset _ => "weightset".toList
  | .automaton .. => "automaton".toList
  | .polynomialset _ => "polynomialset".toList
  | .other _ => "other".toList

mutual

/-- Whether the value set has the empty word.  A product has it when all its members do. -/
def hasOne : Descriptor → Bool
  | .oneset | .wordset _ | .nullableset _ | .expressionset .. | .expansionset _ => true
  | .tupleset sets | .tuple sets => allHaveOne sets
  | .context .. | .genset .. | .letterset _ | .weightset _ | .automaton .. | .polynomialset _
  | .other _ => false

/-- Whether every one of the value sets has the empty word. -/
def allHaveOne : List Descriptor → Bool
  | [] => true
  | d :: ds => d.hasOne && allHaveOne ds

end

/-- The label set and the weight set of a context. -/
def asContext? : Descriptor → Option (Descriptor × Descriptor)
  | .context l w => some (l, w)
  | _ => none

mutual

/-- The descriptor with no alphabet left in it. -/
def erase : Descriptor → Descriptor
  | .context l w => .context l.erase w.erase
  | .tupleset sets => .tupleset (eraseAll sets)
  | .tuple sets => .tuple (eraseAll sets)
  | .oneset => .oneset
  | .genset letters _ => .genset letters none
  | .letterset g => .letterset g.erase
  | .wordset g => .wordset g.erase
  | .nullableset l => .nullableset l.erase
  | .expressionset c i => .expressionset c.erase i
  | .expansionset e => .expansionset e.erase
  | .weightset name => .weightset name
  | .automaton name children => .automaton name (eraseAll children)
  | .polynomialset c => .polynomialset c.erase
  | .other name => .other name

/-- The descriptors with no alphabet left in them. -/
def eraseAll : List Descriptor → List Descriptor
  | [] => []
  | d :: ds => d.erase :: eraseAll ds

end

end Descriptor
end OnDemand
