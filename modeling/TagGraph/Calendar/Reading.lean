import TagGraph.Calendar.Instant
import TagGraph.Number.Decimal
import TagGraph.Text.Blank

/-!
# Reading dates

A text denotes an instant in one of three forms, tried in this order: a full timestamp with an
offset, a date with a time of day in universal time, and a date alone, which is its midnight.

The timestamp is strict about the number of digits. The other two allow fewer digits, white space
before a number, and a sign before the year, which may then have any number of digits.
-/

namespace TagGraph.Calendar

/-! ## Parts -/

/-- The number that leading digits write, at least `least` of them and at most `most`, and what
follows them. -/
def digits? (least most : Nat) (cs : List Char) : Option (Nat × List Char) :=
  let run := (cs.takeWhile Decimal.isDigit).take most
  if least ≤ run.length then some (Decimal.digitsValue run, cs.drop run.length) else none

/-- What follows the character `c`, if it stands in front. -/
def after? (c : Char) : List Char → Option (List Char)
  | d :: cs => if d = c then some cs else none
  | [] => none

/-- The nanoseconds behind a point, if there is one. Digits after the ninth are passed over. -/
def fraction? : List Char → Option (Nat × List Char)
  | '.' :: cs =>
    let run := cs.takeWhile Decimal.isDigit
    if run.isEmpty then none
    else
      let kept := run.take 9
      some (Decimal.digitsValue kept * 10 ^ (9 - kept.length), cs.dropWhile Decimal.isDigit)
  | cs => some (0, cs)

/-! ## Timestamps with an offset -/

/-- The sign of an offset: plus, hyphen or the minus sign. -/
def offsetSign? : List Char → Option (Bool × List Char)
  | '+' :: cs => some (false, cs)
  | '-' :: cs => some (true, cs)
  | '−' :: cs => some (true, cs)
  | _ => none

/-- An offset at the end of a timestamp, in minutes: `Z`, or hours and minutes below a day. -/
def offset? : List Char → Option Int
  | ['Z'] => some 0
  | ['z'] => some 0
  | cs => do
    let (negative, cs) ← offsetSign? cs
    let (hours, cs) ← digits? 2 2 cs
    let cs ← after? ':' cs
    let (minutes, cs) ← digits? 2 2 cs
    if cs.isEmpty && hours < 24 && minutes < 60 then
      some (if negative then -(60 * hours + minutes : Nat) else (60 * hours + minutes : Nat))
    else none

/-- A timestamp: four digits of the year, two of all else, `T` or a blank before the time. -/
def timestamp? (cs : List Char) : Option Int := do
  let (year, cs) ← digits? 4 4 cs
  let cs ← after? '-' cs
  let (month, cs) ← digits? 2 2 cs
  let cs ← after? '-' cs
  let (day, cs) ← digits? 2 2 cs
  let cs ← after? 'T' cs <|> after? 't' cs <|> after? ' ' cs
  let (hour, cs) ← digits? 2 2 cs
  let cs ← after? ':' cs
  let (minute, cs) ← digits? 2 2 cs
  let cs ← after? ':' cs
  let (second, cs) ← digits? 2 2 cs
  let (nanosecond, cs) ← fraction? cs
  let offset ← offset? cs
  instant? ⟨year, month, day⟩ ⟨hour, minute, second, nanosecond⟩ offset

/-! ## Dates without an offset -/

/-- A number of one or two digits, with white space before it. -/
def loose? (cs : List Char) : Option (Nat × List Char) :=
  digits? 1 2 (Text.trimLeft cs)

/-- A year: up to four digits, or a sign and any number of digits, with white space before it. -/
def year? (cs : List Char) : Option (Int × List Char) :=
  match Text.trimLeft cs with
  | '-' :: cs => (digits? 1 cs.length cs).map fun (year, rest) => (-(year : Int), rest)
  | '+' :: cs => (digits? 1 cs.length cs).map fun (year, rest) => ((year : Int), rest)
  | cs => (digits? 1 4 cs).map fun (year, rest) => ((year : Int), rest)

/-- A date in front, and what follows it. -/
def date? (cs : List Char) : Option (Date × List Char) := do
  let (year, cs) ← year? cs
  let cs ← after? '-' cs
  let (month, cs) ← loose? cs
  let cs ← after? '-' cs
  let (day, cs) ← loose? cs
  some (⟨year, month, day⟩, cs)

/-- A time of day, to the end of the text. -/
def time? (cs : List Char) : Option Time := do
  let (hour, cs) ← loose? cs
  let cs ← after? ':' cs
  let (minute, cs) ← loose? cs
  let cs ← after? ':' cs
  let (second, cs) ← loose? cs
  let (nanosecond, cs) ← fraction? cs
  if cs.isEmpty then some ⟨hour, minute, second, nanosecond⟩ else none

/-- A date and a time of day with `T` between them, in universal time. -/
def dateTime? (cs : List Char) : Option Int := do
  let (date, cs) ← date? cs
  let cs ← after? 'T' cs
  let time ← time? cs
  instant? date time 0

/-- A date alone: its midnight in universal time. -/
def dateOnly? (cs : List Char) : Option Int := do
  let (date, cs) ← date? cs
  if cs.isEmpty then instant? date .midnight 0 else none

/-! ## All forms -/

/-- The instant that a text denotes, over its characters. White space around the text is passed
over. -/
def ofChars? (cs : List Char) : Option Int :=
  let cs := Text.trimChars cs
  timestamp? cs <|> dateTime? cs <|> dateOnly? cs

/-- The instant that a text denotes, in milliseconds since 1970. -/
def ofString? (s : String) : Option Int :=
  ofChars? s.toList

end TagGraph.Calendar
