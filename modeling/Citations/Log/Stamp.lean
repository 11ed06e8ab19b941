import Citations.Number.Binary64
import Citations.Text.Numeral

/-!
# Time stamps

A time is a number of seconds since the start of 1970.  Its stamp gives date and time of day in
universal time, to the millisecond.  The part of a second is first rounded to millionths, a tie to
the even one, and then cut to thousandths.

* `Stamp.dateOf`   the date of a day counted from the start of 1970;
* `Stamp.ofTime`   the stamp of a time.
-/

namespace Citations

inductive StampError where
  | noNumber
  /-- beyond the seconds that can be counted -/
  | outOfRange
  /-- beyond the years that can be counted -/
  | noYear
  | year (y : Int)
  deriving DecidableEq, Repr

def StampError.message : StampError → Text
  | .noNumber => "Invalid value NaN (not a number)".toList
  | .outOfRange => "timestamp out of range for platform time_t".toList
  | .noYear => "[Errno 75] Value too large for defined data type".toList
  | .year y => "year ".toList ++ Text.ofInt y ++ " is out of range".toList

namespace Stamp
open Number

/-- Year, month and day of a day counted from the first of January 1970.  Years are counted from
the first of March, so that a leap day is the last of its year, in cycles of 400 years. -/
def dateOf (day : Int) : Int × Nat × Nat :=
  let z := day + 719468
  let era := z.fdiv 146097
  let doe := (z - era * 146097).toNat
  let yoe := (doe - doe / 1460 + doe / 36524 - doe / 146096) / 365
  let doy := doe - (365 * yoe + yoe / 4 - yoe / 100)
  let mp := (5 * doy + 2) / 153
  let d := doy - (153 * mp + 2) / 5 + 1
  let m := if mp < 10 then mp + 3 else mp - 9
  let y := (yoe : Int) + era * 400
  (if m ≤ 2 then y + 1 else y, m, d)

/-- Whole seconds, down, and the millionths of the part of a second. -/
def secondsOf (negative : Bool) (m : Nat) (e : Int) : Int × Nat :=
  let (num, den) := Binary64.ratio m e
  let whole : Int := if negative then -((num / den : Nat) : Int) else (num / den : Nat)
  let micros :=
    match Binary64.nearest false (num % den * 1000000) den with
    | .finite _ m e =>
      let (a, b) := Binary64.ratio m e
      roundDiv a b
    | _ => 0
  if negative then
    if micros = 0 then (whole, 0)
    else if micros = 1000000 then (whole - 1, 0)
    else (whole - 1, 1000000 - micros)
  else if micros = 1000000 then (whole + 1, 0)
  else (whole, micros)

def digits (n k : Nat) : Text := Text.padded '0' n (Text.ofNat k)

/-- The stamp of a second and the millionths behind it.  Years since 1900 and years are signed words
of 32 bits. -/
def ofSeconds (seconds : Int) (micros : Nat) : Except StampError Text :=
  let day := seconds.fdiv 86400
  let time := (seconds - day * 86400).toNat
  let (y, m, d) := dateOf day
  if y - 1900 < -(twoTo 31 : Int) ∨ (twoTo 31 : Int) ≤ y - 1900 then .error .noYear
  else if y < 1 ∨ 9999 < y then .error (.year (y.bmod (twoTo 32)))
  else .ok (digits 4 y.toNat ++ '-' :: digits 2 m ++ '-' :: digits 2 d ++ 'T' ::
    digits 2 (time / 3600) ++ ':' :: digits 2 (time / 60 % 60) ++ ':' :: digits 2 (time % 60) ++
    '.' :: digits 3 (micros / 1000) ++ ['Z'])

def ofTime : Binary64 → Except StampError Text
  | .nan => .error .noNumber
  | .infinite _ => .error .outOfRange
  | .finite s m e =>
    let (seconds, micros) := secondsOf s m e
    if seconds < -(twoTo 63 : Int) ∨ (twoTo 63 : Int) ≤ seconds then .error .outOfRange
    else ofSeconds seconds micros

end Stamp
end Citations
