import OnDemand.Value

/-!
# Entry points and operations

Registries hold bare addresses of entry points.  What arguments an entry point takes is a matter of
the operation it is registered for.
-/

namespace OnDemand

/-- The address of an entry point. -/
structure Entry where
  address : Nat
  /-- No entry point is at the null address. -/
  ne_zero : address ≠ 0
  deriving DecidableEq, Repr

/-- What an entry point takes or gives back. -/
inductive OperandKind where
  | value
  | string
  | direction
  | bool
  | unsigned
  /-- A number that is part of its type. -/
  | integral
  deriving DecidableEq, Repr

/-- The name of the kind. -/
def OperandKind.text : OperandKind → Text
  | .value => "value".toList
  | .string => "string".toList
  | .direction => "direction".toList
  | .bool => "bool".toList
  | .unsigned => "unsigned".toList
  | .integral => "integral".toList

/-- The type of entry points: what they take and what they give back, if they do not fail. -/
structure EntryType where
  arguments : List OperandKind
  result : OperandKind
  deriving DecidableEq, Repr

/-- How an entry type is shown. -/
def EntryType.text (t : EntryType) : Text :=
  '(' :: Text.joinWith ", ".toList (t.arguments.map OperandKind.text) ++ ") -> ".toList ++
    t.result.text

/-- An operation: the name of its registry, and the type that its entry points have. -/
structure Operation where
  name : Text
  entryType : EntryType
  deriving DecidableEq, Repr

/-- An entry point with what it is called on. -/
structure Invocation where
  entry : Entry
  arguments : List Operand

end OnDemand
