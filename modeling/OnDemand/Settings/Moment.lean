import OnDemand.Text.Basic

/-!
# Dates and times

A value of a settings file can be a day, a time of day or both, and both together can say how far
the clock is ahead of universal time.  `Moment.ofText?` reads one and `Moment.text` writes it: with
capital letters, and with no zeros at the end of a fraction.
-/

namespace OnDemand.Settings

/-- A day of the calendar. -/
structure Date where
  year : Nat
  month : Nat
  day : Nat
  deriving DecidableEq, Repr

/-- The seconds of a time of day. -/
structure Seconds where
  whole : Nat
  /-- The billionths of a second after them, if there is a fraction. -/
  billionths : Option Nat
  deriving DecidableEq, Repr

/-- A time of day. -/
structure Time where
  hour : Nat
  minute : Nat
  seconds : Option Seconds
  deriving DecidableEq, Repr

/-- How a clock stands to universal time. -/
inductive Offset where
  /-- The clock shows universal time. -/
  | universal
  /-- The clock is ahead by so many minutes. -/
  | ahead (minutes : Int)
  deriving DecidableEq, Repr

/-- A day, a time of day, or both. -/
inductive Moment where
  | date (d : Date)
  | time (t : Time)
  | both (d : Date) (t : Time) (offset : Option Offset)
  deriving DecidableEq, Repr

/-! ## The calendar -/

/-- Whether the year has a day more than others. -/
def isLeapYear (year : Nat) : Bool := year % 4 == 0 && (year % 100 != 0 || year % 400 == 0)

/-- How many days the month of the year has. -/
def daysOfMonth (year month : Nat) : Nat :=
  if month = 2 then if isLeapYear year then 29 else 28
  else if [4, 6, 9, 11].contains month then 30
  else 31

/-- Whether the calendar has the day. -/
def Date.isValid (d : Date) : Bool :=
  1 ≤ d.month && d.month ≤ 12 && 1 ≤ d.day && d.day ≤ daysOfMonth d.year d.month

/-! ## Reading -/

/-- The number that the digits write. -/
def numberOf (ds : Text) : Nat := ds.foldl (fun n d => 10 * n + (d.toNat - '0'.toNat)) 0

/-- The number that the first `n` characters, all of them digits, write, and what follows them. -/
def number? (n : Nat) (t : Text) : Option (Nat × Text) :=
  let ds := t.take n
  if ds.length = n ∧ ds.all Char.isDigit then some (numberOf ds, t.drop n) else none

/-- The day at the beginning of `t`, and what follows it. -/
def Date.read? (t : Text) : Option (Date × Text) := do
  let (year, t) ← number? 4 t
  let (month, t) ← number? 2 (← Text.dropPrefix? ['-'] t)
  let (day, t) ← number? 2 (← Text.dropPrefix? ['-'] t)
  let d : Date := ⟨year, month, day⟩
  if d.isValid then some (d, t) else none

/-- The billionths that the digits of a fraction write; more than nine digits do not count. -/
def billionthsOf (ds : Text) : Nat := numberOf ((ds ++ List.replicate 9 '0').take 9)

/-- The seconds at the beginning of `t`, and what follows them; 60 is a leap second. -/
def Seconds.read? (t : Text) : Option (Seconds × Text) := do
  let (whole, t) ← number? 2 t
  if 60 < whole then none
  else
    match t with
    | '.' :: t =>
      match t.span Char.isDigit with
      | ([], _) => none
      | (ds, t) => some (⟨whole, some (billionthsOf ds)⟩, t)
    | t => some (⟨whole, none⟩, t)

/-- The hours and the minutes at the beginning of `t`, and what follows them. -/
def clock? (t : Text) : Option (Nat × Nat × Text) := do
  let (hour, t) ← number? 2 t
  let (minute, t) ← number? 2 (← Text.dropPrefix? [':'] t)
  if hour < 24 ∧ minute < 60 then some (hour, minute, t) else none

/-- The time of day at the beginning of `t`, and what follows it. -/
def Time.read? (t : Text) : Option (Time × Text) := do
  let (hour, minute, t) ← clock? t
  match t with
  | ':' :: t => (Seconds.read? t).map fun (s, t) => (⟨hour, minute, some s⟩, t)
  | t => some (⟨hour, minute, none⟩, t)

/-- The offset that is all of `t`. -/
def Offset.ofText? : Text → Option Offset
  | ['Z'] | ['z'] => some .universal
  | sign :: t => do
    let (hour, minute, t) ← clock? t
    let minutes : Int := 60 * hour + minute
    if t ≠ [] then none
    else if sign = '+' then some (.ahead minutes)
    else if sign = '-' then some (.ahead (-minutes))
    else none
  | [] => none

/-- What separates a time of day from the day before it. -/
def isSeparator (c : Char) : Bool := c == 'T' || c == 't' || c == ' '

namespace Moment

/-- The time of day that is all of `t`. -/
def ofTime? (t : Text) : Option Moment :=
  match Time.read? t with
  | some (clock, []) => some (.time clock)
  | _ => none

/-- The moment that a day and the text after it make up. -/
def ofDate? (d : Date) : Text → Option Moment
  | [] => some (.date d)
  | c :: t => do
    if isSeparator c then
      match ← Time.read? t with
      | (clock, []) => some (.both d clock none)
      | (clock, t) => (Offset.ofText? t).map fun offset => .both d clock (some offset)
    else none

/-- The moment that is all of `t`. -/
def ofText? (t : Text) : Option Moment :=
  match Date.read? t with
  | some (d, rest) => ofDate? d rest
  | none => ofTime? t

end Moment

/-! ## Writing -/

/-- The digits of `n`, with zeros before them where there are fewer than `width`. -/
def padded (width n : Nat) : Text :=
  List.replicate (width - (Text.ofNat n).length) '0' ++ Text.ofNat n

/-- The written day. -/
def Date.text (d : Date) : Text :=
  padded 4 d.year ++ '-' :: padded 2 d.month ++ '-' :: padded 2 d.day

/-- The written hours and minutes. -/
def clockText (hour minute : Nat) : Text := padded 2 hour ++ ':' :: padded 2 minute

/-- The digits of a fraction, as few as there can be but not none. -/
def fractionText (billionths : Nat) : Text :=
  match ((padded 9 billionths).reverse.dropWhile (· == '0')).reverse with
  | [] => ['0']
  | ds => ds

/-- The written seconds. -/
def Seconds.text (s : Seconds) : Text :=
  padded 2 s.whole ++
    match s.billionths with
    | some n => '.' :: fractionText n
    | none => []

/-- The written time of day. -/
def Time.text (t : Time) : Text :=
  clockText t.hour t.minute ++
    match t.seconds with
    | some s => ':' :: s.text
    | none => []

/-- The written offset. -/
def Offset.text : Offset → Text
  | .universal => ['Z']
  | .ahead minutes =>
    (if minutes < 0 then '-' else '+') ::
      clockText (minutes.natAbs / 60) (minutes.natAbs % 60)

/-- The written moment. -/
def Moment.text : Moment → Text
  | .date d => d.text
  | .time t => t.text
  | .both d t none => d.text ++ 'T' :: t.text
  | .both d t (some offset) => d.text ++ 'T' :: t.text ++ offset.text

end OnDemand.Settings
