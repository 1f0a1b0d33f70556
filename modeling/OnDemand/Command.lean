import OnDemand.Path

/-!
# Command lines

A program with its arguments, as a process can be given them, and the one-line form of it that
reports show.
-/

namespace OnDemand

/-- A program to run. -/
structure Command where
  program : Path
  arguments : List Text
  /-- The variables set for it. -/
  environment : List (Text × Text) := []
  deriving DecidableEq, Repr

namespace Command

/-! ## Starting -/

/-- Whether a process can be given the text: texts end at the first NUL. -/
def isPassable (t : Text) : Bool := t.all (· != '\x00')

/-- What a process is given for a text: one that cannot be passed is not kept. -/
def passed (t : Text) : Text := if isPassable t then t else "<string-with-nul>".toList

/-- The program and the arguments, in order. -/
def words (c : Command) : List Text := c.program :: c.arguments

/-- The most bytes that a word has. -/
def longestWord : Nat := 131071

/-- Why no process can be started for the command, if none can. -/
def obstacle? (c : Command) : Option Text :=
  if !c.words.all isPassable then some "nul byte found in provided data".toList
  else if c.words.any fun word => longestWord < Text.byteSize word then
    some "Argument list too long (os error 7)".toList
  else none

/-! ## Showing -/

/-- Whether a shell would not take the character as it is, or a reader might not. -/
def isSpecial (c : Char) : Bool :=
  c == ' ' || c == '<' || c == '>' || c == '(' || c == ')' || c == '\'' || c == '"'

/-- The word between single quotes; a single quote in it is taken out of them. -/
def quoted (word : Text) : Text :=
  '\'' :: Text.replace '\'' "'\\''".toList word ++ ['\'']

/-- The word as a report shows it: quoted when it is empty or has a special character. -/
def shown (word : Text) : Text :=
  if word.isEmpty || word.any isSpecial then quoted word else word

/-- The command on one line, as far as it can be passed. -/
def render (c : Command) : Text :=
  Text.joinWith " ".toList (c.words.map fun word => shown (passed word))

end Command
end OnDemand
