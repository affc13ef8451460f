/-!
Moments as calendar texts. A moment is a number of milliseconds since the start of 1970; it is
written as a date and a time of day in UTC.
-/

namespace SourceAtlas.CommandLine

/-- A number with at least `width` digits. -/
def padded (width n : Nat) : String :=
  let ds := Nat.toDigits 10 n
  .ofList (List.replicate (width - ds.length) '0' ++ ds)

/-- The year, month and day of a day that is counted from the start of 1970. Days are counted in eras
of 400 years that begin in March. -/
def civil (day : Int) : Int × Nat × Nat :=
  let z := day + 719468
  let era := Int.fdiv z 146097
  let inEra := (Int.fmod z 146097).toNat
  let year := (inEra - inEra / 1460 + inEra / 36524 - inEra / 146096) / 365
  let inYear := inEra - (365 * year + year / 4 - year / 100)
  let shifted := (5 * inYear + 2) / 153
  let date := inYear - (153 * shifted + 2) / 5 + 1
  let month := if shifted < 10 then shifted + 3 else shifted - 9
  (era * 400 + year + (if month ≤ 2 then 1 else 0), month, date)

/-- A year with at least four digits; one that needs more, or lies before the year 0, shows its
sign. -/
def yearText (year : Int) : String :=
  if year < 0 then "-" ++ padded 4 (-year).toNat
  else if year ≤ 9999 then padded 4 year.toNat
  else "+" ++ padded 4 year.toNat

/-- The first moment of the calendar: the start of the year -262143. -/
def firstMoment : Int := -8334601228800000

/-- The last moment of the calendar: the end of the year 262142. -/
def lastMoment : Int := 8210266876799999

/-- A moment in UTC, with milliseconds if there are any; one outside the calendar has no text. -/
def momentText? (milliseconds : Int) : Option String :=
  if milliseconds < firstMoment || lastMoment < milliseconds then none
  else
    let (year, month, date) := civil (Int.fdiv milliseconds 86400000)
    let inDay := (Int.fmod milliseconds 86400000).toNat
    let clock := padded 2 (inDay / 3600000) ++ ":" ++ padded 2 (inDay / 60000 % 60) ++ ":" ++
      padded 2 (inDay / 1000 % 60)
    let rest := if inDay % 1000 == 0 then "" else "." ++ padded 3 (inDay % 1000)
    some (yearText year ++ "-" ++ padded 2 month ++ "-" ++ padded 2 date ++ "T" ++ clock ++ rest ++
      "+00:00")

end SourceAtlas.CommandLine
