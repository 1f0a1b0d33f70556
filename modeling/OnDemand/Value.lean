import OnDemand.Signature

/-!
# Values and operands

A value is an operand known only by the names of its type.  The operands of a call, values and plain
data alike, name the signature under which the call is looked up.
-/

namespace OnDemand

/-- What a value carries. -/
inductive Payload where
  | nothing
  | unsigned (n : UInt32)
  | int (n : Int32)
  deriving DecidableEq, Repr

namespace Payload

/-- The unsigned number carried. -/
def asUnsigned? : Payload → Option UInt32
  | .unsigned n => some n
  | _ => none

/-- The signed number carried. -/
def asInt? : Payload → Option Int32
  | .int n => some n
  | _ => none

end Payload

/-- An operand known by the short and the full name of its type. -/
structure Value where
  short : Text
  full : Text
  payload : Payload := .nothing
  deriving DecidableEq, Repr

namespace Value

/-- The value of the described type that carries `payload`. -/
def typed (description : Text) (payload : Payload) : Except DescriptorError Value :=
  (normalizeType description).map fun n => ⟨n.short, n.full, payload⟩

end Value

/-- Which way an operation follows the transitions. -/
inductive Direction where
  | forward
  | backward
  deriving DecidableEq, Repr

/-- How a direction is shown. -/
def Direction.text : Direction → Text
  | .forward => "Forward".toList
  | .backward => "Backward".toList

/-- An operand of a call. -/
inductive Operand where
  | bool (b : Bool)
  | unsigned (n : UInt32)
  | int (n : Int32)
  | float (x : Float32)
  | string (t : Text)
  /-- A number that may be absent. -/
  | optional (n : Option UInt32)
  /-- A number that is part of its type. -/
  | integral (n : UInt32)
  | direction (d : Direction)
  | identities (i : Identities)
  | value (v : Value)

namespace Operand

/-- The canonical name of the operand's type. -/
def typeName : Operand → Text
  | .bool _ => "bool".toList
  | .unsigned _ => "unsigned".toList
  | .int _ => "int".toList
  | .float _ => "float".toList
  | .string _ => "const std::string".toList
  | .optional _ => "boost::optional<unsigned>".toList
  | .integral n => "std::integral_constant<unsigned, ".toList ++ Text.ofNat n.toNat ++ ">".toList
  | .direction _ => "vcsn::direction".toList
  | .identities _ => "vcsn::rat::identities".toList
  | .value v => v.short

end Operand

/-- The signature of a call with these operands. -/
def Signature.ofOperands (operands : List Operand) : Signature := operands.map Operand.typeName

end OnDemand
