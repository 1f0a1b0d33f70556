import OnDemand.Text.Printable
import OnDemand.Text.Combining

/-!
# Quoted text

A text as a string literal: between double quotes, with escapes for the quote, the backslash, the
usual controls, and every character that would not show as itself.  `read?` takes a literal off the
front of a text and undoes the escapes.
-/

namespace OnDemand.Quoted

/-- The escape of `c` by its code point. -/
def codePoint (c : Char) : Text :=
  "\\u\x7b".toList ++ Text.ofNatHex c.toNat ++ "\x7d".toList

/-- How `c` is written between the quotes. -/
def character (c : Char) : Text :=
  if c = '\x00' then "\\0".toList
  else if c = '\t' then "\\t".toList
  else if c = '\r' then "\\r".toList
  else if c = '\n' then "\\n".toList
  else if c = '\\' then "\\\\".toList
  else if c = '"' then "\\\"".toList
  -- Plain letters are common and need no look at the tables.
  else if 0x20 ≤ c.toNat && c.toNat < 0x7F then [c]
  else if isCombining c || !isPrintable c then codePoint c
  else [c]

/-- The literal of `t`. -/
def text (t : Text) : Text := '"' :: t.flatMap character ++ ['"']

/-- The literals of the texts, in brackets and separated by commas. -/
def list (ts : List Text) : Text :=
  '[' :: Text.joinWith ", ".toList (ts.map text) ++ [']']

/-! ## Reading a literal -/

/-- The value of a hexadecimal digit. -/
def hexDigit? (c : Char) : Option Nat :=
  if '0' ≤ c ∧ c ≤ '9' then some (c.toNat - '0'.toNat)
  else if 'a' ≤ c ∧ c ≤ 'f' then some (c.toNat - 'a'.toNat + 10)
  else if 'A' ≤ c ∧ c ≤ 'F' then some (c.toNat - 'A'.toNat + 10)
  else none

/-- The value of a non-empty run of hexadecimal digits. -/
def hexValue? : Text → Option Nat
  | [] => none
  | ds => ds.foldl (fun n d => do return (← n) * 16 + (← hexDigit? d)) (some 0)

/-- The character with code point `n`, if there is one. -/
def ofCodePoint? (n : Nat) : Option Char :=
  if h : n.isValidChar then some (Char.ofNatAux n h) else none

/-- Where a reader of a literal stands. -/
inductive State where
  /-- Between characters. -/
  | plain
  /-- After a backslash. -/
  | escape
  /-- After a backslash and `u`. -/
  | openBrace
  /-- Among the digits of a code point, those read so far in reverse. -/
  | digits (ds : Text)

/-- The characters up to the closing quote, escapes undone, and the text after that quote. -/
def body? : State → Text → Option (Text × Text)
  | _, [] => none
  | .plain, c :: t =>
    if c = '"' then some ([], t)
    else if c = '\\' then body? .escape t
    else (body? .plain t).map fun (a, r) => (c :: a, r)
  | .escape, c :: t =>
    let put (d : Char) := (body? .plain t).map fun (a, r) => (d :: a, r)
    if c = '0' then put '\x00'
    else if c = 't' then put '\t'
    else if c = 'r' then put '\r'
    else if c = 'n' then put '\n'
    else if c = '\\' ∨ c = '"' ∨ c = '\'' then put c
    else if c = 'u' then body? .openBrace t
    else none
  | .openBrace, c :: t => if c = '{' then body? (.digits []) t else none
  | .digits ds, c :: t =>
    if c = '}' then do
      let d ← ofCodePoint? (← hexValue? ds.reverse)
      let (a, r) ← body? .plain t
      return (d :: a, r)
    else body? (.digits (c :: ds)) t

/-- The text whose literal begins `t`, and what follows the literal. -/
def read? : Text → Option (Text × Text)
  | c :: t => if c = '"' then body? .plain t else none
  | [] => none

/-- The texts whose literals begin `t`, up to a closing bracket; there are at most `n` of them. -/
def listBody? : (n : Nat) → Text → Option (List Text)
  | 0, _ => none
  | n + 1, t => do
    let (a, r) ← read? t
    match r with
    | ']' :: _ => some [a]
    | ',' :: ' ' :: r => (listBody? n r).map (a :: ·)
    | _ => none

/-- The texts whose literals, in brackets, begin `t`. -/
def readList? : Text → Option (List Text)
  | '[' :: ']' :: _ => some []
  | '[' :: r => listBody? r.length r
  | _ => none

end OnDemand.Quoted
