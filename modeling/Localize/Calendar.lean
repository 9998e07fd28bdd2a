import Localize.Text.Basic

/-!
# Dates

The clock counts milliseconds from the beginning of 1970; dates are shown in whole seconds of
universal time. Years are cut at the end of February, so that the leap day is the last of its year.
-/

namespace Localize.Calendar

/-- Year, month and day of a day counted from the beginning of 1970. -/
def civil (day : Nat) : Nat × Nat × Nat :=
  let z := day + 719468
  let era := z / 146097
  let dayOfEra := z % 146097
  let year := (dayOfEra - dayOfEra / 1460 + dayOfEra / 36524 - dayOfEra / 146096) / 365
  let dayOfYear := dayOfEra - (365 * year + year / 4 - year / 100)
  let shifted := (5 * dayOfYear + 2) / 153
  let month := if shifted < 10 then shifted + 3 else shifted - 9
  (year + era * 400 + (if month ≤ 2 then 1 else 0), month, dayOfYear - (153 * shifted + 2) / 5 + 1)

def padded (width n : Nat) : Text :=
  let digits := Text.ofNat n
  List.replicate (width - digits.length) '0' ++ digits

def timestamp (milliseconds : Nat) : Text :=
  let seconds := milliseconds / 1000
  let (year, month, day) := civil (seconds / 86400)
  let time := seconds % 86400
  padded 4 year ++ '-' :: padded 2 month ++ '-' :: padded 2 day ++ 'T' :: padded 2 (time / 3600) ++
    ':' :: padded 2 (time / 60 % 60) ++ ':' :: padded 2 (time % 60) ++ "+00:00".toList

end Localize.Calendar
