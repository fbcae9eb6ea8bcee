namespace CrashCourier.Moment

/-- A number in decimal with leading zeros up to a width. -/
def padded (width n : Nat) : String :=
  let digits := (toString n).toList
  String.ofList (List.replicate (width - digits.length) '0' ++ digits)

/-- The year, month and day of a number of days since the first of January 1970. The calendar
repeats every 400 years of 146097 days; a year is counted from March, so that a leap day ends it. -/
def date (days : Int) : Int × Nat × Nat :=
  let shifted := days + 719468
  let era := shifted.fdiv 146097
  let dayOfEra := (shifted - era * 146097).toNat
  let yearOfEra := (dayOfEra - dayOfEra / 1460 + dayOfEra / 36524 - dayOfEra / 146096) / 365
  let dayOfYear := dayOfEra - (365 * yearOfEra + yearOfEra / 4 - yearOfEra / 100)
  let marchMonth := (5 * dayOfYear + 2) / 153
  let day := dayOfYear - (153 * marchMonth + 2) / 5 + 1
  let month := if marchMonth < 10 then marchMonth + 3 else marchMonth - 9
  let year := era * 400 + yearOfEra + if month ≤ 2 then 1 else 0
  (year, month, day)

/-- The text of the moment that lies so many seconds and milliseconds after the first of January
1970. -/
def text (seconds : Int) (milliseconds : Nat) : String :=
  let (year, month, day) := date (seconds.fdiv 86400)
  let second := (seconds.fmod 86400).toNat
  padded 4 year.toNat ++ "-" ++ padded 2 month ++ "-" ++ padded 2 day ++ "T"
    ++ padded 2 (second / 3600) ++ ":" ++ padded 2 (second / 60 % 60) ++ ":"
    ++ padded 2 (second % 60) ++ "." ++ padded 3 milliseconds ++ "Z"

end CrashCourier.Moment
