import OnDemand.Text.Blank

/-!
# Words and raw parameters

The characters that make up the words of a description, and the canonical spacing of raw type
parameters: no blank around a bracket, one space after a comma, one space between two words.
-/

namespace OnDemand

/-- Whether `c` can begin a word. -/
def startsWord (c : Char) : Bool := c.isAlphanum || c == '_'

/-- Whether `c` can stand within a word. -/
def inWord (c : Char) : Bool := c.isAlphanum || c == '_' || c == ':'

namespace Parameters

/--
The canonical spacing of the rest of the parameters, where `last` is the last character written and
`gap` says whether blanks have been passed over since.
-/
def spaced (last : Option Char) (gap : Bool) : Text → Text
  | [] => []
  | c :: t =>
    if isBlank c then spaced last true t
    else
      -- Blanks mean something only between two words.
      let between : Text := if gap && inWord c && last.any inWord then [' '] else []
      if c = ',' then between ++ c :: ' ' :: spaced (some ' ') false t
      else between ++ c :: spaced (some c) false t

/-- The raw parameters `t` in canonical spacing. -/
def canonical (t : Text) : Text := spaced none false t

end Parameters
end OnDemand
