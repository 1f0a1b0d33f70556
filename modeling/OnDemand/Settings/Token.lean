import OnDemand.Text.Quoted

/-!
# Tokens of settings files

A settings file is made of bare words, strings, a few marks, blanks and line ends; comments stand
between them.  Tokens are read one character at a time: `Scan` is what has been read of the token at
hand, and `Scan.step` takes one more character, or refuses it.
-/

namespace OnDemand.Settings

/-- A token of a settings file. -/
inductive Token where
  /-- A run of letters, digits, underscores, hyphens, colons and pluses. -/
  | word (t : Text)
  /-- A string; only one written in `simple` quotes can be a key. -/
  | string (t : Text) (simple : Bool)
  /-- One of `=`, `.`, `,` and the brackets and braces. -/
  | mark (c : Char)
  /-- A space or a tab. -/
  | blank (c : Char)
  | lineEnd
  deriving DecidableEq, Repr

/-- The two kinds of quote.  Backslashes escape only between double quotes. -/
inductive Quote where
  | double
  | single
  deriving DecidableEq, Repr

/-- The character of the quote. -/
def Quote.char : Quote → Char
  | .double => '"'
  | .single => '\''

/-- A string in the making, its characters in reverse. -/
structure Draft where
  quote : Quote
  /-- Whether it began with three quotes. -/
  long : Bool
  reversed : Text := []
  deriving DecidableEq, Repr

namespace Draft

/-- The draft with one more character. -/
def push (d : Draft) (c : Char) : Draft := { d with reversed := c :: d.reversed }

/-- The draft with `n` more of its quotes. -/
def pushQuotes (d : Draft) (n : Nat) : Draft :=
  { d with reversed := List.replicate n d.quote.char ++ d.reversed }

/-- The finished string. -/
def token (d : Draft) : Token := .string d.reversed.reverse (!d.long)

end Draft

/-- What has been read of the token at hand. -/
inductive Scan where
  /-- Nothing. -/
  | between
  /-- A carriage return, which a newline must follow. -/
  | lineReturn
  | comment
  /-- A word, in reverse. -/
  | word (reversed : Text)
  /-- The one or two quotes at the beginning of a string. -/
  | quotes (quote : Quote) (second : Bool)
  /-- The three quotes of a long string; a line end after them does not count. -/
  | opened (quote : Quote)
  /-- The same and a carriage return. -/
  | openedReturn (quote : Quote)
  /-- The inside of a string, and after it a run of quotes that may belong to its end. -/
  | inside (draft : Draft) (run : Nat)
  /-- A carriage return inside a long string. -/
  | insideReturn (draft : Draft)
  /-- A backslash. -/
  | escape (draft : Draft)
  /-- The digits of a code point, of which `left` more must come. -/
  | code (draft : Draft) (left value : Nat)
  /-- A backslash at the end of a line, which hides blanks and line ends. -/
  | folded (draft : Draft) (ended : Bool)
  /-- The same and a carriage return. -/
  | foldedReturn (draft : Draft)
  deriving DecidableEq, Repr

/-- Whether `c` may stand in a comment or a string, line ends and quotes aside. -/
def isPlain (c : Char) : Bool := c == '\t' || (0x20 ≤ c.toNat && c != '\x7f')

/-- Whether `c` may stand in a word that is a key. -/
def isKeyCharacter (c : Char) : Bool := c.isAlphanum || c == '_' || c == '-'

/-- Whether `c` may stand in a word; a time of day has colons, and a plus may follow it. -/
def isWordCharacter (c : Char) : Bool := isKeyCharacter c || c == ':' || c == '+'

/-- Whether `c` is a space or a tab. -/
def isSpace (c : Char) : Bool := c == ' ' || c == '\t'

/-- What a backslash and `c` stand for. -/
def simpleEscape? (c : Char) : Option Char :=
  [('b', '\x08'), ('t', '\t'), ('n', '\n'), ('f', '\x0c'), ('r', '\r'), ('e', '\x1b'),
    ('"', '"'), ('\\', '\\')].lookup c

/-- How many digits of a code point follow a backslash and `c`. -/
def codeLength? (c : Char) : Option Nat := [('x', 2), ('u', 4), ('U', 8)].lookup c

namespace Scan

/-- One more character where no token has begun. -/
def begin (c : Char) : Option (Scan × List Token) :=
  if isSpace c then some (.between, [.blank c])
  else if c = '\n' then some (.between, [.lineEnd])
  else if c = '\r' then some (.lineReturn, [])
  else if c = '#' then some (.comment, [])
  else if c = '"' then some (.quotes .double false, [])
  else if c = '\'' then some (.quotes .single false, [])
  else if c ∈ ['=', '.', ',', '[', ']', '{', '}'] then some (.between, [.mark c])
  else if isWordCharacter c then some (.word [c], [])
  else none

/-- One more character after a finished token. -/
def beginAfter (token : Token) (c : Char) : Option (Scan × List Token) :=
  (begin c).map fun (s, ts) => (s, token :: ts)

/-- One more character inside a string, which is not its quote. -/
def character (d : Draft) (c : Char) : Option Scan :=
  if c = '\\' ∧ d.quote = .double then some (.escape d)
  else if isPlain c then some (.inside (d.push c) 0)
  else if d.long then
    if c = '\n' then some (.inside (d.push c) 0)
    else if c = '\r' then some (.insideReturn d)
    else none
  else none

/-- One more character inside a string, after a run of its quotes. -/
def inString (d : Draft) (run : Nat) (c : Char) : Option (Scan × List Token) :=
  if c = d.quote.char then
    if !d.long then some (.between, [d.token])
    -- Three quotes end the string, and no more than two before them can belong to it.
    else if run = 4 then some (.between, [(d.pushQuotes 2).token])
    else some (.inside d (run + 1), [])
  else if 3 ≤ run then beginAfter (d.pushQuotes (run - 3)).token c
  else (character (d.pushQuotes run) c).map (·, [])

/-- One more character, and the tokens that it finishes. -/
def step : Scan → Char → Option (Scan × List Token)
  | .between, c => begin c
  | .lineReturn, c => if c = '\n' then some (.between, [.lineEnd]) else none
  | .comment, c =>
    if c = '\n' then some (.between, [.lineEnd])
    else if c = '\r' then some (.lineReturn, [])
    else if isPlain c then some (.comment, [])
    else none
  | .word w, c =>
    if isWordCharacter c then some (.word (c :: w), []) else beginAfter (.word w.reverse) c
  | .quotes q false, c =>
    if c = q.char then some (.quotes q true, []) else inString ⟨q, false, []⟩ 0 c
  -- Two quotes are an empty string, unless a third one makes them begin a long string.
  | .quotes q true, c =>
    if c = q.char then some (.opened q, []) else beginAfter (.string [] true) c
  | .opened q, c =>
    if c = '\n' then some (.inside ⟨q, true, []⟩ 0, [])
    else if c = '\r' then some (.openedReturn q, [])
    else inString ⟨q, true, []⟩ 0 c
  | .openedReturn q, c => if c = '\n' then some (.inside ⟨q, true, []⟩ 0, []) else none
  | .inside d run, c => inString d run c
  | .insideReturn d, c =>
    if c = '\n' then some (.inside ((d.push '\r').push c) 0, []) else none
  | .escape d, c =>
    match simpleEscape? c, codeLength? c with
    | some e, _ => some (.inside (d.push e) 0, [])
    | none, some n => some (.code d n 0, [])
    | none, none =>
      if !d.long then none
      else if isSpace c then some (.folded d false, [])
      else if c = '\n' then some (.folded d true, [])
      else if c = '\r' then some (.foldedReturn d, [])
      else none
  | .code d left value, c => do
    let value := value * 16 + (← Quoted.hexDigit? c)
    if left ≤ 1 then return (.inside (d.push (← Quoted.ofCodePoint? value)) 0, [])
    else return (.code d (left - 1) value, [])
  | .folded d ended, c =>
    if isSpace c then some (.folded d ended, [])
    else if c = '\n' then some (.folded d true, [])
    else if c = '\r' then some (.foldedReturn d, [])
    else if ended then inString d 0 c
    else none
  | .foldedReturn d, c => if c = '\n' then some (.folded d true, []) else none

/-- The token that the end of the file finishes. -/
def finish : Scan → Option (List Token)
  | .between | .comment => some []
  | .word w => some [.word w.reverse]
  | .quotes _ true => some [.string [] true]
  | .inside d run => if d.long && 3 ≤ run then some [(d.pushQuotes (run - 3)).token] else none
  | _ => none

/-- The tokens of the rest of a file. -/
def tokens : Scan → Text → Option (List Token)
  | s, [] => finish s
  | s, c :: t => do
    let (s', found) ← s.step c
    return found ++ (← tokens s' t)

end Scan

/-- The tokens of a settings file; a byte order mark before them does not count. -/
def tokens (file : Text) : Option (List Token) :=
  match file with
  | '\ufeff' :: rest => Scan.tokens .between rest
  | _ => Scan.tokens .between file

end OnDemand.Settings
