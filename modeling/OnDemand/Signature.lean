import OnDemand.Descriptor.Reader

/-!
# Signatures

A signature is the list of the canonical type names that identify one instance of an operation.
Signatures are ordered part by part.
-/

namespace OnDemand

/-- The type names that identify an instance of an operation. -/
abbrev Signature := List Text

namespace Signature

/-- How a signature is shown: its parts in parentheses. -/
def text (s : Signature) : Text := '(' :: Text.joinWith ", ".toList s ++ [')']

/-- The signature of the short names of the described types. -/
def normalized (descriptions : List Text) : Except DescriptorError Signature :=
  descriptions.mapM fun t => (normalizeType t).map Normalized.short

/-- The signatures in order. -/
def sorted (signatures : List Signature) : List Signature :=
  signatures.mergeSort fun s t => ¬ t < s

end Signature
end OnDemand
