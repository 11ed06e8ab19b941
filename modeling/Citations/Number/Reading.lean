import Citations.Number.Binary64
import Citations.Text.Numeral

/-!
# Reading decimal numbers

A decimal is a sign, digits with an optional point, and an optional power of ten.  It is read as
the nearest binary number.  Powers of ten far beyond the range of the format are not computed.

* `Binary64.ofDecimal`  from the digits as one number and the power of ten;
* `Binary64.ofText?`    from a text, with `inf`, `infinity` and `nan` in any letter case.
-/

namespace Citations
namespace Binary64

/-- The number nearest to `± n · 10 ^ e`. -/
def ofDecimal (negative : Bool) (n : Nat) (e : Int) : Binary64 :=
  let digits := (Text.ofNat n).length
  if n = 0 then nearest negative 0 1
  else if 310 < e + digits then .infinite negative
  else if e + digits < -330 then nearest negative 0 1
  else if e < 0 then nearest negative n (Number.tenTo e.natAbs)
  else nearest negative (n * Number.tenTo e.natAbs) 1

/-- The parts of a decimal: whole digits, digits behind the point, power of ten. -/
def ofParts (negative : Bool) (whole rest : Text) (power : Int) : Binary64 :=
  let ds := whole ++ rest
  ofDecimal negative (Text.natOfDigits ds) (power - rest.length)

def splitSign : Text → Bool × Text
  | '-' :: r => (true, r)
  | '+' :: r => (false, r)
  | r => (false, r)

/-- The digits behind a point, if there is one, and what follows them. -/
def splitFraction : Text → Text × Text
  | '.' :: r => (r.takeWhile Char.isDigit, r.dropWhile Char.isDigit)
  | r => ([], r)

/-- The power of ten that a text is, the empty text standing for none. -/
def power? : Text → Option Int
  | [] => some 0
  | c :: r =>
    if c = 'e' ∨ c = 'E' then
      let (negative, ds) := splitSign r
      if ds ≠ [] ∧ ds.all Char.isDigit then
        let n : Int := Text.natOfDigits ds
        some (if negative then -n else n)
      else none
    else none

def ofText? (t : Text) : Option Binary64 :=
  let (negative, r) := splitSign t
  let lower := r.map Char.toLower
  if lower = "inf".toList ∨ lower = "infinity".toList then some (.infinite negative)
  else if lower = "nan".toList then some .nan
  else
    let whole := r.takeWhile Char.isDigit
    let (rest, r) := splitFraction (r.dropWhile Char.isDigit)
    if whole = [] ∧ rest = [] then none
    else (power? r).map (ofParts negative whole rest)

end Binary64
end Citations
