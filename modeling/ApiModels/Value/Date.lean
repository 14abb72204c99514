/-
ApiModels.Value.Date — dates and times of day.

A date may have a time of day, and that may state its distance from
universal time. Two dates can be compared only if they say equally much:
both are without a time, or both have one and both or neither state the
distance. `Date.instant` puts such dates on one scale.

A date is written in two ways: `Date.display` as a calendar and a clock
show it, `Date.constructed` as the call that makes it.
-/

namespace ApiModels

/-- The time of day of a timestamp, with its distance from universal time if it is stated. -/
structure Clock where
  hour : Nat
  minute : Nat
  second : Nat
  microsecond : Nat
  offsetSeconds : Option Int
  deriving DecidableEq, Repr

/-- A calendar date, possibly with a time of day. -/
structure Date where
  year : Nat
  month : Nat
  day : Nat
  clock : Option Clock
  deriving DecidableEq, Repr

namespace Date

/-! ## The calendar -/

/-- A year with a day more. -/
def isLeap (year : Nat) : Bool :=
  year % 4 == 0 && (year % 100 != 0 || year % 400 == 0)

/-- The number of days of a month. -/
def daysOf (year month : Nat) : Nat :=
  if month == 2 then (if isLeap year then 29 else 28)
  else if [4, 6, 9, 11].contains month then 30
  else 31

/-- The number of a day, counted from the first day of year one, which has the number one. -/
def dayNumber (d : Date) : Nat :=
  let before := d.year - 1
  let inYear := (List.range' 1 (d.month - 1)).foldl (fun days m => days + daysOf d.year m) 0
  365 * before + before / 4 - before / 100 + before / 400 + inYear + d.day

/-- Microseconds in universal time; without a stated distance the clock itself is taken for it. -/
def instant (d : Date) : Int :=
  match d.clock with
  | none => d.dayNumber * 86400000000
  | some c =>
    (d.dayNumber * 86400 + c.hour * 3600 + c.minute * 60 + c.second - c.offsetSeconds.getD 0)
      * 1000000 + c.microsecond

/-- The dates say equally much, so that one can come before the other. -/
def comparable (d e : Date) : Bool :=
  match d.clock, e.clock with
  | none, none => true
  | some c, some c' => c.offsetSeconds.isSome == c'.offsetSeconds.isSome
  | _, _ => false

/-- The dates are the same. -/
def same (d e : Date) : Bool := d.comparable e && d.instant == e.instant

/-- The first date is before the second. -/
def below (d e : Date) : Bool := d.comparable e && decide (d.instant < e.instant)

end Date

/-! ## As text -/

/-- A number with leading zeros up to `width` digits. -/
def paddedDigits (width n : Nat) : String :=
  let digits := Nat.toDigits 10 n
  String.ofList (List.replicate (width - digits.length) '0' ++ digits)

/-- A time of day: `hh:mm:ss`, then microseconds and distance from universal time if any. -/
def Clock.display (c : Clock) : String :=
  let fraction := if c.microsecond = 0 then "" else "." ++ paddedDigits 6 c.microsecond
  let offset := match c.offsetSeconds with
    | none => ""
    | some s =>
      let minutes := s.natAbs / 60
      (if s < 0 then "-" else "+") ++ paddedDigits 2 (minutes / 60) ++ ":"
        ++ paddedDigits 2 (minutes % 60)
  paddedDigits 2 c.hour ++ ":" ++ paddedDigits 2 c.minute ++ ":" ++ paddedDigits 2 c.second
    ++ fraction ++ offset

/-- A date as year, month and day; `mark` stands before a time of day. -/
def Date.display (mark : String) (d : Date) : String :=
  paddedDigits 4 d.year ++ "-" ++ paddedDigits 2 d.month ++ "-" ++ paddedDigits 2 d.day ++
    match d.clock with
    | none => ""
    | some c => mark ++ c.display

/-- A span of seconds as the call that makes it, in whole days and the seconds after them. -/
def constructedSpan (seconds : Int) : String :=
  let days := Int.fdiv seconds 86400
  let rest := Int.fmod seconds 86400
  let parts :=
    (if days = 0 then [] else ["days=" ++ toString days]) ++
    (if rest = 0 then [] else ["seconds=" ++ toString rest])
  "datetime.timedelta(" ++ (if parts.isEmpty then "0" else ", ".intercalate parts) ++ ")"

/-- The parts of a time of day in a call: seconds and smaller parts only where they are not zero. -/
def Clock.constructedParts (c : Clock) : List String :=
  [toString c.hour, toString c.minute] ++
    (if c.microsecond ≠ 0 then [toString c.second, toString c.microsecond]
     else if c.second ≠ 0 then [toString c.second]
     else []) ++
    match c.offsetSeconds with
    | none => []
    | some 0 => ["tzinfo=datetime.timezone.utc"]
    | some s => ["tzinfo=datetime.timezone(" ++ constructedSpan s ++ ")"]

/-- A date as the call that makes it. -/
def Date.constructed (d : Date) : String :=
  let parts := [toString d.year, toString d.month, toString d.day]
  match d.clock with
  | none => "datetime.date(" ++ ", ".intercalate parts ++ ")"
  | some c => "datetime.datetime(" ++ ", ".intercalate (parts ++ c.constructedParts) ++ ")"

end ApiModels
