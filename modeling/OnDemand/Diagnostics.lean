import OnDemand.Text.Blank

/-!
# Assertions in compiler reports

A compiler that evaluates a failed assertion says so in one of four ways.  Each way has a mark
before the message and an ending after it, and the message runs as far along its line as the ending
allows.  A report is searched once for each way; the messages found are then put in the order in
which they start.
-/

namespace OnDemand.Diagnostics

/-- One way to announce an assertion. -/
structure Form where
  /-- What stands before the message. -/
  mark : Text
  /-- What stands after the message. -/
  ending : Text
  /-- Whether the line must end after that. -/
  endsLine : Bool
  deriving DecidableEq, Repr

/-- The four ways. -/
def forms : List Form := [
  ⟨"evaluation panicked: ".toList, [], true⟩,
  ⟨"the evaluated program panicked at '".toList, "', ".toList, false⟩,
  ⟨"static assertion failed: ".toList, [], true⟩,
  ⟨"static_assert failed \"".toList, "\"".toList, true⟩]

/-- Whether a line ends before this text. -/
def startsAfresh : Text → Bool
  | [] => true
  | c :: _ => c == '\n'

namespace Form

/-- What follows the ending of a message, if the message ends here. -/
def close? (form : Form) (t : Text) : Option Text :=
  (Text.dropPrefix? form.ending t).filter fun rest => !form.endsLine || startsAfresh rest

/-- The longest message that starts here and ends on the same line, and what follows its ending. -/
def message? (form : Form) : Text → Option (Text × Text)
  | [] => (form.close? []).map fun rest => ([], rest)
  | c :: t =>
    -- A longer message is preferred to one that ends here.
    match if c = '\n' then none else form.message? t with
    | some (m, rest) => some (c :: m, rest)
    | none => (form.close? (c :: t)).map fun rest => ([], rest)

/-- A message that is announced here, and how many characters announce it. -/
def announced? (form : Form) (t : Text) : Option (Text × Nat) := do
  let (m, rest) ← form.message? (← Text.dropPrefix? form.mark t)
  return (m, t.length - rest.length)

/--
The messages announced in a text, each after the place where it starts.  The text stands at the
place `here`, and its first `taken` characters belong to a message already found.
-/
def search (form : Form) : (here taken : Nat) → Text → List (Nat × Text)
  | _, _, [] => []
  | here, taken + 1, _ :: t => form.search (here + 1) taken t
  | here, 0, c :: t =>
    match form.announced? (c :: t) with
    | some (m, length) => (here + form.mark.length, m) :: form.search (here + 1) (length - 1) t
    | none => form.search (here + 1) 0 t

end Form

/-- The messages announced in any way, in the order in which they start. -/
def messages (report : Text) : List Text :=
  ((forms.flatMap fun form => form.search 0 0 report).mergeSort fun a b => a.1 ≤ b.1).map Prod.snd

/-- The assertions reported: trimmed, none empty, once each. -/
def assertions (report : Text) : List Text :=
  (((messages report).map Text.trim).filter fun message => !message.isEmpty).eraseDups

end OnDemand.Diagnostics
