import LexicalPaths.Datum.Basic
import LexicalPaths.Text.Digits
import LexicalPaths.Toml.Error

/-!
# Dates and times of TOML documents

A date, a time of day, or a date and a time with an optional offset from universal time.
-/

namespace LexicalPaths.Toml

/-- The number that exactly `count` digits at the beginning of a text spell, and the rest. -/
def fixedNumber? (count : Nat) (t : Text) : Option (Nat × Text) :=
  let found := t.take count
  if found.length = count ∧ found.all Char.isDigit then
    some (Text.natOfDigits 10 found, t.drop count)
  else none

/-- The text behind the character `c`, if it starts with it. -/
def after? (c : Char) : Text → Option Text
  | x :: t => if x = c then some t else none
  | [] => none

/-- The date at the beginning of a text; its day may still be missing from the calendar. -/
def date? (t : Text) : Option (Date × Text) := do
  let (year, t) ← fixedNumber? 4 t
  let t ← after? '-' t
  let (month, t) ← fixedNumber? 2 t
  let t ← after? '-' t
  let (day, t) ← fixedNumber? 2 t
  if 1 ≤ month ∧ month ≤ 12 ∧ 1 ≤ day ∧ day ≤ 31 then some (⟨year, month, day⟩, t) else none

/-- The microseconds that the digits of a fraction of a second spell; further digits are cut. -/
def microseconds (digits : Text) : Nat :=
  let found := digits.take 6
  Text.natOfDigits 10 (found ++ List.replicate (6 - found.length) '0')

/-- The fraction of a second at the beginning of a text, in microseconds. -/
def secondFraction : Text → Nat × Text
  | '.' :: t =>
    match Text.spanDigits t with
    | ([], _) => (0, '.' :: t)
    | (found, rest) => (microseconds found, rest)
  | t => (0, t)

def hourMinute? (t : Text) : Option ((Nat × Nat) × Text) := do
  let (hour, t) ← fixedNumber? 2 t
  let t ← after? ':' t
  let (minute, t) ← fixedNumber? 2 t
  if hour ≤ 23 ∧ minute ≤ 59 then some ((hour, minute), t) else none

def time? (t : Text) : Option (TimeOfDay × Text) := do
  let ((hour, minute), t) ← hourMinute? t
  let t ← after? ':' t
  let (second, t) ← fixedNumber? 2 t
  if 59 < second then none
  else
    let (fraction, t) := secondFraction t
    some (⟨hour, minute, second, fraction⟩, t)

/-- The offset from universal time at the beginning of a text, in minutes, if there is one. -/
def offset (t : Text) : Option Int × Text :=
  match t with
  | [] => (none, [])
  | c :: rest =>
    if c = 'Z' ∨ c = 'z' then (some 0, rest)
    else if c = '+' ∨ c = '-' then
      match hourMinute? rest with
      | some ((hour, minute), rest) =>
        let minutes : Int := 60 * hour + minute
        (some (if c = '-' then -minutes else minutes), rest)
      | none => (none, t)
    else (none, t)

/-- The time behind a date: a `T` or a space, and a time of day. -/
def timeAfterDate? : Text → Option (TimeOfDay × Text)
  | c :: t => if c = 'T' ∨ c = 't' ∨ c = ' ' then time? t else none
  | [] => none

/-- The date at the beginning of a text, with its time if it has one. -/
def dated (date : Date) (t : Text) : Moment × Text :=
  match timeAfterDate? t with
  | some (time, rest) =>
    let (offset?, rest) := offset rest
    (.dateTime date time offset?, rest)
  | none => (.date date, t)

/-- The date or time at the beginning of a text; `none` if there is neither. -/
def readMoment? (t : Text) : Option (Read Datum) :=
  match date? t, time? t with
  | some (date, rest), _ =>
    if date.isValid then
      let (moment, rest) := dated date rest
      some (.ok (.moment moment, rest))
    else some (fail t)
  | none, some (time, rest) => some (.ok (.moment (.time time), rest))
  | none, none => none

end LexicalPaths.Toml
