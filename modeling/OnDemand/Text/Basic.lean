/-!
# Text

Text is a list of characters.  This module holds the cuts and joins the rest of the library is
written with: dropping a known beginning or ending, splitting at a character, joining with a
separator, and the lines of a report.
-/

namespace OnDemand

/-- Text, one code point an element. -/
abbrev Text := List Char

namespace Text

/-! ## Known beginnings and endings -/

/-- The rest of a list after the beginning `p`, when it begins so. -/
def dropPrefix? {α : Type} [DecidableEq α] : (p t : List α) → Option (List α)
  | [], t => some t
  | _ :: _, [] => none
  | c :: p, d :: t => if c = d then dropPrefix? p t else none

/-- What stands before the ending `s` of `t`, when `t` ends so. -/
def dropSuffix? (s t : Text) : Option Text :=
  (dropPrefix? s.reverse t.reverse).map List.reverse

/-- Whether `t` begins with `p`. -/
def beginsWith (p t : Text) : Bool := (dropPrefix? p t).isSome

/-- Whether `t` ends with `s`. -/
def endsWith (s t : Text) : Bool := (dropSuffix? s t).isSome

/-- What stands before and after the first occurrence of `p` in `t`. -/
def splitFirst? (p : Text) : Text → Option (Text × Text)
  | [] => (dropPrefix? p []).map fun r => ([], r)
  | c :: t =>
    match dropPrefix? p (c :: t) with
    | some r => some ([], r)
    | none => (splitFirst? p t).map fun (a, r) => (c :: a, r)

/-- Whether `p` occurs in `t`. -/
def contains (p t : Text) : Bool := (splitFirst? p t).isSome

/-! ## Splitting and joining -/

/-- The pieces of `t` between the characters that satisfy `p`: one more than there are such. -/
def splitWhere (p : Char → Bool) : Text → List Text
  | [] => [[]]
  | c :: t =>
    if p c then [] :: splitWhere p t
    else
      match splitWhere p t with
      | [] => [[c]]
      | piece :: rest => (c :: piece) :: rest

/-- The pieces of `t` between the occurrences of `c`. -/
def splitAt (c : Char) (t : Text) : List Text := splitWhere (· == c) t

/-- The pieces in order, with `sep` between neighbours. -/
def joinWith (sep : Text) : List Text → Text
  | [] => []
  | [t] => t
  | t :: u :: rest => t ++ sep ++ joinWith sep (u :: rest)

/-- Each occurrence of the character `c` replaced by the text `u`. -/
def replace (c : Char) (u t : Text) : Text :=
  t.flatMap fun d => if d = c then u else [d]

/-- A line without the carriage return that may end it. -/
def withoutReturn (t : Text) : Text :=
  (dropSuffix? ['\r'] t).getD t

/--
The lines of a report.  A newline ends a line, with the carriage return before it if there is one,
and what follows the last newline is a line only when it is not empty.
-/
def lines (t : Text) : List Text :=
  let pieces := splitAt '\n' t
  let ended := pieces.dropLast.map withoutReturn
  match pieces.getLast? with
  | some (c :: last) => ended ++ [c :: last]
  | _ => ended

/-! ## Numbers -/

/-- The size of a text in bytes. -/
def byteSize : Text → Nat
  | [] => 0
  | c :: t => c.utf8Size + byteSize t

/-- The decimal digits of `n`. -/
def ofNat (n : Nat) : Text := Nat.toDigits 10 n

/-- The digits of `n` to base sixteen, letters small. -/
def ofNatHex (n : Nat) : Text := Nat.toDigits 16 n

end Text
end OnDemand
