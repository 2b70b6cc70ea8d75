import Heed.Toml.Scanner

/-!
# Dates and times

A date, a time, or both, then possibly with an offset. Fractions of a second are kept to nine digits.
-/

set_option autoImplicit false

namespace Heed.Toml

open Scanner

structure Date where
  year : Nat
  month : Nat
  day : Nat
deriving DecidableEq, Repr

structure Time where
  hour : Nat
  minute : Nat
  second : Nat
  nanosecond : Nat
deriving DecidableEq, Repr

inductive Offset where
  | universal
  /-- So many minutes ahead of universal time, or behind it. -/
  | ahead (minutes : Nat)
  | behind (minutes : Nat)
deriving DecidableEq, Repr

structure DateTime where
  date : Option Date
  time : Option Time
  offset : Option Offset
deriving DecidableEq, Repr

/-! ## Reading -/

def fieldOf (count least greatest : Nat) : Scanner Nat := do
  let value := numeral 10 (← digits isDecimal count)
  if least ≤ value ∧ value ≤ greatest then return value else failure

namespace Date

def isLeapYear (year : Nat) : Bool := year % 4 == 0 && (year % 100 != 0 || year % 400 == 0)

def daysIn (year month : Nat) : Nat :=
  match month with
  | 2 => if isLeapYear year then 29 else 28
  | 4 | 6 | 9 | 11 => 30
  | _ => 31

def scan : Scanner Date := do
  let year ← fieldOf 4 0 9999
  expect '-'
  let month ← fieldOf 2 1 12
  expect '-'
  let day ← fieldOf 2 1 (daysIn year month)
  return { year, month, day }

end Date

namespace Time

/-- Nanoseconds from the digits after the point. Digits beyond the ninth are dropped. -/
def nanoseconds (digits : List Char) : Nat :=
  let kept := digits.take 9
  numeral 10 kept * Nat.pow 10 (9 - kept.length)

def fraction : Scanner Nat := do
  expect '.'
  let first ← satisfy isDecimal
  return nanoseconds (first :: (← takeRun isDecimal))

def scan : Scanner Time := do
  let hour ← fieldOf 2 0 23
  expect ':'
  let minute ← fieldOf 2 0 59
  expect ':'
  let second ← fieldOf 2 0 60
  let nanosecond := (← perhaps fraction).getD 0
  return { hour, minute, second, nanosecond }

end Time

namespace Offset

def minutes : Scanner Nat := do
  let hours ← fieldOf 2 0 23
  expect ':'
  return hours * 60 + (← fieldOf 2 0 59)

def scan : Scanner Offset := do
  match ← satisfy (fun _ => true) with
  | 'Z' | 'z' => return .universal
  | '+' => .ahead <$> minutes
  | '-' => .behind <$> minutes
  | _ => failure

end Offset

namespace DateTime

def isSeparator (char : Char) : Bool := char == 'T' || char == 't' || char == ' '

def timeOfDay : Scanner (Time × Option Offset) := do
  discard (satisfy isSeparator)
  let time ← Time.scan
  return (time, ← perhaps Offset.scan)

def dated : Scanner DateTime := do
  let date ← Date.scan
  match ← perhaps timeOfDay with
  | some (time, offset) => return { date := some date, time := some time, offset }
  | none => return { date := some date, time := none, offset := none }

def undated : Scanner DateTime := do
  return { date := none, time := some (← Time.scan), offset := none }

def scan : Scanner DateTime := either dated undated

def ofText? (text : String) : Option DateTime := do
  let (dateTime, rest) ← scan text.toList
  if rest.isEmpty then return dateTime else none

/-! ## Writing -/

def padded (width value : Nat) : String :=
  let digits := Nat.toDigits 10 value
  String.ofList (List.replicate (width - digits.length) '0' ++ digits)

def dateText (date : Date) : String :=
  padded 4 date.year ++ "-" ++ padded 2 date.month ++ "-" ++ padded 2 date.day

def fractionText (nanosecond : Nat) : String :=
  let digits := (padded 9 nanosecond).toList
  String.ofList (digits.reverse.dropWhile (· == '0')).reverse

def timeText (time : Time) : String :=
  let clock := padded 2 time.hour ++ ":" ++ padded 2 time.minute ++ ":" ++ padded 2 time.second
  if time.nanosecond = 0 then clock else clock ++ "." ++ fractionText time.nanosecond

def minutesText (minutes : Nat) : String := padded 2 (minutes / 60) ++ ":" ++ padded 2 (minutes % 60)

def offsetText : Offset → String
  | .universal => "Z"
  | .ahead minutes => "+" ++ minutesText minutes
  | .behind minutes => (if minutes = 0 then "+" else "-") ++ minutesText minutes

def text (dateTime : DateTime) : String :=
  let date := (dateTime.date.map dateText).getD ""
  let time := (dateTime.time.map timeText).getD ""
  let separator := if dateTime.date.isSome && dateTime.time.isSome then "T" else ""
  date ++ separator ++ time ++ (dateTime.offset.map offsetText).getD ""

end DateTime

end Heed.Toml
