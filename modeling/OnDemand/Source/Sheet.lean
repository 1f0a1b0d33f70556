import OnDemand.Text.Basic

/-!
# Sheets of source text

A sheet is a source file in the making: a body written line by line at an indentation level, the
imports it needs, and the linker arguments it asks for.  Imports and arguments are kept in the order
of their first mention, once each.  `Sheet.write` follows a list of marks up to the first one that
cannot be followed.
-/

namespace OnDemand

/-- A kind of name for which there is no type to write. -/
structure Unsupported where
  kind : Text
  name : Text
  deriving DecidableEq, Repr

/-- What is reported of an unsupported name. -/
def Unsupported.message (u : Unsupported) : Text :=
  "unsupported ".toList ++ u.kind ++ ": ".toList ++ u.name

/-- A source file in the making. -/
structure Sheet where
  /-- The body, last character first. -/
  reversed : Text := []
  /-- How many tabs a line starts with. -/
  level : Nat := 0
  /-- Whether the next character starts a line. -/
  fresh : Bool := true
  /-- The imports. -/
  uses : List Text := []
  /-- The imports written after the others. -/
  lateUses : List Text := []
  linkArgs : List Text := []
  deriving DecidableEq, Repr

/-- One thing to do on a sheet. -/
inductive Mark where
  | use (item : Text)
  | useLate (item : Text)
  | link (argument : Text)
  | text (t : Text)
  | newline
  | indent
  | dedent
  /-- No type can be written here. -/
  | refuse (what : Unsupported)
  deriving DecidableEq, Repr

namespace Sheet

/-- The body. -/
def body (s : Sheet) : Text := s.reversed.reverse

/-! ## Writing -/

/-- Ends the line. -/
def newline (s : Sheet) : Sheet := { s with reversed := '\n' :: s.reversed, fresh := true }

/-- Writes a character; the first of a line is indented. -/
def put (s : Sheet) (c : Char) : Sheet :=
  if c = '\n' then s.newline
  else if s.fresh then
    { s with reversed := c :: List.replicate s.level '\t' ++ s.reversed, fresh := false }
  else { s with reversed := c :: s.reversed }

/-- Writes a text, which may have several lines. -/
def emit (s : Sheet) (t : Text) : Sheet := t.foldl put s

/-- Writes a text and ends the line. -/
def line (s : Sheet) (t : Text) : Sheet := (s.emit t).newline

/-- One tab more from the next line on. -/
def indent (s : Sheet) : Sheet := { s with level := s.level + 1 }

/-- One tab less from the next line on, if there is one. -/
def dedent (s : Sheet) : Sheet := { s with level := s.level - 1 }

/-! ## Imports and linker arguments -/

/-- The items with `x` at their end, unless it is among them. -/
def mention (x : Text) (xs : List Text) : List Text := if x ∈ xs then xs else xs ++ [x]

/-- Asks for an import. -/
def use (s : Sheet) (item : Text) : Sheet := { s with uses := mention item s.uses }

/-- Asks for an import that is written after the others. -/
def useLate (s : Sheet) (item : Text) : Sheet := { s with lateUses := mention item s.lateUses }

/-- Asks for a linker argument. -/
def link (s : Sheet) (argument : Text) : Sheet :=
  { s with linkArgs := mention argument s.linkArgs }

/-! ## Marks -/

/-- Follows one mark. -/
def follow (s : Sheet) : Mark → Except Unsupported Sheet
  | .use item => .ok (s.use item)
  | .useLate item => .ok (s.useLate item)
  | .link argument => .ok (s.link argument)
  | .text t => .ok (s.emit t)
  | .newline => .ok s.newline
  | .indent => .ok s.indent
  | .dedent => .ok s.dedent
  | .refuse what => .error what

/--
Follows the marks in order.  At one that refuses, the sheet stays as it is then, and the refusal is
given beside it.
-/
def write (s : Sheet) : List Mark → Sheet × Option Unsupported
  | [] => (s, none)
  | m :: ms =>
    match s.follow m with
    | .ok s' => s'.write ms
    | .error what => (s, some what)

/-! ## The finished file -/

/-- The fixed head of every file. -/
def preamble : Text :=
  ("// Generated by the vcsn dyn runtime. Do not edit.\n" ++
    "#![allow(unused_imports, non_camel_case_types, non_snake_case, clippy::all)]\n").toList

/-- The line that imports `item`. -/
def useLine (item : Text) : Text := "use ".toList ++ item ++ ";\n".toList

/-- The file: its head, the imports, the late imports and the body, a blank line between each. -/
def finish (s : Sheet) : Text :=
  preamble ++ '\n' :: s.uses.flatMap useLine ++ '\n' :: s.lateUses.flatMap useLine ++
    '\n' :: s.body

end Sheet
end OnDemand
