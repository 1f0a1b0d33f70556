import OnDemand.Text.Blank
import OnDemand.Settings.Token
import OnDemand.Settings.Moment
import OnDemand.Table

/-!
# Statements of settings files

A settings file is a list of statements: a key gets a value, or a table begins.  Values are those
that some setting can have.
-/

namespace OnDemand.Settings

/-- A value that a setting can have. -/
inductive Item where
  | text (t : Text)
  | flag (b : Bool)
  | texts (ts : List Text)
  | table (entries : List (Text × Text))
  deriving DecidableEq, Repr

/-- A line of a settings file.  A key is a path through tables. -/
inductive Statement where
  | assign (key : List Text) (item : Item)
  | open (key : List Text)
  deriving DecidableEq, Repr

/-! ## Reading -/

/-- The tokens between line ends, where those within brackets end no line. -/
def statementLines (depth : Nat) : List Token → List (List Token)
  | [] => [[]]
  | token :: tokens =>
    let add (ls : List (List Token)) :=
      match ls with
      | [] => [[token]]
      | l :: ls => (token :: l) :: ls
    -- Line ends within brackets are left for the reader of the value.
    if token = .lineEnd ∧ depth = 0 then [] :: statementLines 0 tokens
    else if token = .mark '[' ∨ token = .mark '{' then add (statementLines (depth + 1) tokens)
    else if token = .mark ']' ∨ token = .mark '}' then add (statementLines (depth - 1) tokens)
    else add (statementLines depth tokens)

/-- Whether the token is not a blank. -/
def Token.isSolid : Token → Bool
  | .blank _ => false
  | _ => true

/-- The token as one part of a key. -/
def Token.key? : Token → Option Text
  | .word w => if w.all isKeyCharacter then some w else none
  | .string t true => some t
  | _ => none

/-- A key: parts with dots between them. -/
def key? : List Token → Option (List Text)
  | [token] => token.key?.map ([·])
  | token :: .mark '.' :: tokens => do return (← token.key?) :: (← key? tokens)
  | _ => none

/--
The strings of a list up to its closing bracket, a comma at the end aside; `ready` says whether a
string may come next.
-/
def elements? (ready : Bool) : List Token → Option (List Text)
  | [.mark ']'] => some []
  | .string t _ :: tokens => if ready then (elements? false tokens).map (t :: ·) else none
  | .mark ',' :: tokens => if ready then none else elements? true tokens
  | _ => none

/--
The entries of a table up to its closing brace, a comma at the end aside; `ready` says whether an
entry may come next.
-/
def entries? (ready : Bool) : List Token → Option (List (Text × Text))
  | [.mark '}'] => some []
  | .mark ',' :: tokens => if ready then none else entries? true tokens
  | token :: .mark '=' :: .string t _ :: tokens =>
    if ready then do return (← token.key?, t) :: (← entries? false tokens) else none
  | _ => none

/-- What a token that is no string looks like within a line. -/
def Token.text? : Token → Option Text
  | .word w => some w
  | .mark c | .blank c => some [c]
  | .string _ _ | .lineEnd => none

/-- The moment that the tokens make up; a blank may separate its parts. -/
def moment? (tokens : List Token) : Option Moment := do
  Moment.ofText? (Text.trim (← tokens.mapM Token.text?).flatten)

/-- The key under which a moment stands for a table. -/
def momentKey : Text := "$__toml_private_datetime".toList

/--
The value that the tokens make up.  Line ends within brackets do not count, and a moment is a table
with one entry.
-/
def item? (tokens : List Token) : Option Item :=
  match tokens.filter fun token => token.isSolid && token ≠ .lineEnd with
  | [.string t _] => some (.text t)
  | .mark '[' :: inner => (elements? true inner).map .texts
  | .mark '{' :: inner => (entries? true inner).map .table
  | inner =>
    if inner = [.word "true".toList] then some (.flag true)
    else if inner = [.word "false".toList] then some (.flag false)
    else (moment? tokens).map fun m => .table [(momentKey, m.text)]

/-- The key and the value that the tokens make up. -/
def assignment? (line : List Token) : Option Statement :=
  match line.span (· ≠ .mark '=') with
  | (left, _ :: right) => do return .assign (← key? (left.filter Token.isSolid)) (← item? right)
  | (_, []) => none

/-- The statement that the tokens of a line make up. -/
def statement? (line : List Token) : Option Statement :=
  match line.filter Token.isSolid with
  | .mark '[' :: tokens =>
    if tokens.getLast? = some (.mark ']') then (key? tokens.dropLast).map .open else none
  | _ => assignment? line

/-- The statements of a settings file. -/
def statements? (file : Text) : Option (List Statement) := do
  let lines := statementLines 0 (← tokens file)
  (lines.filter fun l => l.any Token.isSolid).mapM statement?

end OnDemand.Settings
