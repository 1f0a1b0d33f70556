import OnDemand.Operations

/-!
# Stand-ins

Entry points that only tell what they were called on.  There are a few for each type of entry point,
told apart by a number; the last of them fails.
-/

namespace OnDemand.StandIn

/-- The stand-in with this number. -/
def entry (number : Nat) : Entry := ⟨number + 1, Nat.succ_ne_zero number⟩

/-- The number of a stand-in. -/
def number (e : Entry) : Nat := e.address - 1

/-- How a stand-in is shown. -/
def text (e : Entry) : Text := 'e' :: Text.ofNat (number e)

/-- The number of the stand-in that fails. -/
def failing : Nat := 3

/-- How a flag is shown. -/
def flagText (b : Bool) : Text := (if b then "true" else "false").toList

/-- How an operand is shown: a value by its type, and so is what no entry point takes. -/
def shown : Operand → Text
  | .bool b => flagText b
  | .unsigned n => Text.ofNat n.toNat
  | .string t => t
  | .integral n => Text.ofNat n.toNat
  | .direction d => d.text
  | operand => operand.typeName

/-- What a stand-in tells of an operand in full, where `strings` says whether strings count. -/
def fullyShown? (strings : Bool) : Operand → Option Text
  | .value v => some v.full
  | .string t => if strings then some t else none
  | _ => none

/-- Texts separated by commas. -/
def commas (ts : List Text) : Text := Text.joinWith ", ".toList ts

/-- What a stand-in of this type tells of its operands. -/
def labels (t : EntryType) (operands : List Operand) : Text :=
  if t.arguments = [.string] then "context".toList else commas (operands.map shown)

/-- What a stand-in of this type tells of its operands in full. -/
def fullLabels (t : EntryType) (operands : List Operand) : Text :=
  commas (operands.filterMap
    (fullyShown? (t.arguments = [.string] ∨ t.arguments = [.value, .string])))

/-- What calling a stand-in of this type gives, or the message that it fails with. -/
def perform (t : EntryType) (i : Invocation) : Except Text Operand :=
  let name := text i.entry
  if number i.entry = failing then
    .error (name ++ " rejects (".toList ++ labels t i.arguments ++ ")".toList)
  else if t.result = .bool then .ok (.bool (number i.entry = 1))
  else
    .ok (.value {
      short := name ++ '(' :: labels t i.arguments ++ ")".toList
      full := name ++ '(' :: fullLabels t i.arguments ++ ")".toList })

end OnDemand.StandIn
