import LexicalPaths.Text.Basic

/-!
# Dates and times

Calendar dates, times of day, and the two together, with or without an offset from universal time.
-/

namespace LexicalPaths

/-- A calendar date. -/
structure Date where
  year : Nat
  month : Nat
  day : Nat
deriving DecidableEq

/-- A time of day, to the microsecond. -/
structure TimeOfDay where
  hour : Nat
  minute : Nat
  second : Nat
  microsecond : Nat
deriving DecidableEq

/-- A point in time, as a configuration document can name it. -/
inductive Moment where
  | date (date : Date)
  | time (time : TimeOfDay)
  /-- A date with a time, and the offset in minutes from universal time if it is known. -/
  | dateTime (date : Date) (time : TimeOfDay) (offset? : Option Int)
deriving DecidableEq

/-- The digits of `n`, padded with zeros to `width`. -/
def padded (width n : Nat) : Text :=
  let digits := Nat.toDigits 10 n
  List.replicate (width - digits.length) '0' ++ digits

/-- Whether the year has a 29th of February. -/
def isLeapYear (year : Nat) : Bool :=
  (year % 4 == 0 && year % 100 != 0) || year % 400 == 0

def daysInMonth (year month : Nat) : Nat :=
  match month with
  | 2 => if isLeapYear year then 29 else 28
  | 4 | 6 | 9 | 11 => 30
  | _ => 31

def Date.isValid (d : Date) : Bool :=
  1 ≤ d.year && d.year ≤ 9999 && 1 ≤ d.month && d.month ≤ 12 && 1 ≤ d.day &&
    d.day ≤ daysInMonth d.year d.month

/-- The date as year, month and day. -/
def Date.toText (d : Date) : Text :=
  padded 4 d.year ++ ['-'] ++ padded 2 d.month ++ ['-'] ++ padded 2 d.day

/-- The time as hours, minutes and seconds, with a fraction if there is one. -/
def TimeOfDay.toText (t : TimeOfDay) : Text :=
  padded 2 t.hour ++ [':'] ++ padded 2 t.minute ++ [':'] ++ padded 2 t.second ++
    if t.microsecond = 0 then [] else '.' :: padded 6 t.microsecond

def offsetText (minutes : Int) : Text :=
  (if minutes < 0 then ['-'] else ['+']) ++ padded 2 (minutes.natAbs / 60) ++ [':'] ++
    padded 2 (minutes.natAbs % 60)

def Moment.toText : Moment → Text
  | .date d => d.toText
  | .time t => t.toText
  | .dateTime d t offset? =>
    d.toText ++ [' '] ++ t.toText ++ (offset?.map offsetText).getD []

def commaNumbers (numbers : List Nat) : Text :=
  Text.joinWith [',', ' '] (numbers.map (Nat.toDigits 10))

def dropZeroEnds (numbers : List Nat) : List Nat :=
  let numbers := if numbers.getLast? = some 0 then numbers.dropLast else numbers
  if numbers.getLast? = some 0 then numbers.dropLast else numbers

def offsetLiteral (minutes : Int) : Text :=
  if minutes = 0 then "datetime.timezone.utc".toList
  else
    let days := minutes.fdiv 1440
    let seconds := minutes.fmod 1440 * 60
    "datetime.timezone(datetime.timedelta(".toList ++
      (if days = 0 then [] else "days=".toList ++ (toString days).toList ++
        if seconds = 0 then [] else [',', ' ']) ++
      (if seconds = 0 then [] else "seconds=".toList ++ (toString seconds).toList) ++ [')', ')']

def Moment.literal : Moment → Text
  | .date d => "datetime.date(".toList ++ commaNumbers [d.year, d.month, d.day] ++ [')']
  | .time t =>
    "datetime.time(".toList ++
      commaNumbers ([t.hour, t.minute] ++ dropZeroEnds [t.second, t.microsecond]) ++ [')']
  | .dateTime d t offset? =>
    "datetime.datetime(".toList ++
      commaNumbers ([d.year, d.month, d.day, t.hour, t.minute] ++
        dropZeroEnds [t.second, t.microsecond]) ++
      (match offset? with
        | some minutes => ", tzinfo=".toList ++ offsetLiteral minutes
        | none => []) ++ [')']

end LexicalPaths
