import OnDemand.Text.Blank

/-!
# Identities

The sets of identities an expression set may apply when it builds expressions, and their names.
-/

namespace OnDemand

/-- Which identities an expression set applies. -/
inductive Identities where
  | none
  | trivial
  | associative
  | linear
  | distributive
  deriving DecidableEq, Repr

namespace Identities

/-- The identities that go without saying. -/
def usual : Identities := .associative

/-- The canonical name. -/
def name : Identities → Text
  | .none => "none".toList
  | .trivial => "trivial".toList
  | .associative => "associative".toList
  | .linear => "linear".toList
  | .distributive => "distributive".toList

/-- Each accepted name with what it means; `series` is a second name. -/
def names : List (Text × Identities) := [
  ("none".toList, .none),
  ("trivial".toList, .trivial),
  ("associative".toList, .associative),
  ("linear".toList, .linear),
  ("distributive".toList, .distributive),
  ("series".toList, .distributive)]

/-- The identities named by `t`, blanks around it aside. -/
def ofText? (t : Text) : Option Identities := names.lookup (Text.trim t)

/-- What is reported of a text that names no identities. -/
def unknownMessage (t : Text) : Text := "invalid identities: ".toList ++ Text.trim t

theorem ofText?_name (i : Identities) : ofText? i.name = some i := by
  cases i <;> decide

end Identities
end OnDemand
