import OnDemand.Text.Basic

/-!
# Paths

Paths are texts with slashes between their components.  Empty components mean nothing, and neither
does a dot, unless the path begins with it.
-/

namespace OnDemand

/-- The path of a file or directory. -/
abbrev Path := Text

namespace Path

/-- Whether the path starts at the root. -/
def isAbsolute (p : Path) : Bool := p.head? == some '/'

/-- The path `q` as seen from `p`; an absolute path is the same from everywhere. -/
def join (p q : Path) : Path :=
  if isAbsolute q then q
  else if p.isEmpty || p.getLast? == some '/' then p ++ q
  else p ++ '/' :: q

/-- Whether a piece between slashes says nothing about where the path leads. -/
def isIdle (piece : Text) : Bool := piece.isEmpty || piece == ".".toList

/-- The pieces that say where the path leads. -/
def steps (p : Path) : List Text := (Text.splitAt '/' p).filter fun piece => !isIdle piece

/--
How the path begins, which is `/` for an absolute path, `.` for one that begins with a dot and
nothing for another, and the rest of it.
-/
def start (p : Path) : Text × Text :=
  match p with
  | '/' :: rest => ("/".toList, rest)
  | ['.'] => (".".toList, [])
  | '.' :: '/' :: rest => (".".toList, '/' :: rest)
  | p => ([], p)

/-- The components: the beginning, if there is one, and the steps after it. -/
def components (p : Path) : List Text :=
  let (lead, rest) := start p
  if lead.isEmpty then steps rest else lead :: steps rest

/-- The components of `p` below `base`, if it lies there. -/
def componentsBelow? (base p : Path) : Option (List Text) :=
  Text.dropPrefix? (components base) (components p)

/-- The pieces without the idle ones at the end. -/
def trimmedEnd (pieces : List Text) : List Text := (pieces.reverse.dropWhile isIdle).reverse

/-- The pieces without the idle ones at either end. -/
def trimmed (pieces : List Text) : List Text := trimmedEnd (pieces.dropWhile isIdle)

/-- The path without its last component. -/
def parent? (p : Path) : Option Path :=
  let (lead, rest) := start p
  match (trimmedEnd (Text.splitAt '/' rest)) with
  -- What stands before a lone dot is the empty path; before the root there is nothing.
  | [] => if lead = ".".toList then some [] else none
  | piece :: more =>
    some (lead ++ Text.joinWith "/".toList (trimmedEnd (piece :: more).dropLast))

/-- The path with a leading `~` replaced by the home directory. -/
def expandTilde (home p : Path) : Path :=
  match Text.splitAt '/' p with
  | first :: rest =>
    if first = "~".toList then join home (Text.joinWith "/".toList (trimmed rest)) else p
  | [] => p

/-- The path with `ending` written after it. -/
def withEnding (p : Path) (ending : Text) : Path := p ++ ending

end Path
end OnDemand
