import Citations.Number.Binary64
import Citations.Text.Numeral

/-!
# Decimal digits of a quotient

`Digits` holds the decimal digits of a positive number with the place of the point: the number is
`0.d₁d₂… · 10 ^ point`.

* `pointOf`         the place of the point of a quotient of natural numbers;
* `significant n`   the number rounded to `n` digits, a tie to the even last digit;
* `Digits.positional`, `Digits.scientific`  the two ways of writing.
-/

namespace Citations
namespace Number

/-- Decimal digits, the most significant first, and the place of the point before or behind them. -/
structure Digits where
  digits : Text
  point : Int
  deriving DecidableEq, Repr

/-- The `p` with `10 ^ (p - 1) ≤ num / den < 10 ^ p`, for a positive quotient. -/
def pointOf (num den : Nat) : Int :=
  if den ≤ num then ((Text.ofNat (num / den)).length : Int)
  else 1 - ((Text.ofNat ((den + num - 1) / num - 1)).length : Int)

/-- `num / den` times `10 ^ k`, as a quotient. -/
def shifted (num den : Nat) (k : Int) : Nat × Nat :=
  if k < 0 then (num, den * tenTo k.natAbs) else (num * tenTo k.natAbs, den)

/-- The positive number `num / den` rounded to `n` digits, where `0 < n`. -/
def significant (n num den : Nat) : Digits :=
  let p := pointOf num den
  let (a, b) := shifted num den (n - p)
  let q := roundDiv a b
  if q = tenTo n then ⟨Text.ofNat (q / 10), p + 1⟩ else ⟨Text.ofNat q, p⟩

/-- Zeros at the end say nothing. -/
def dropZeros (ds : Text) : Text := (ds.reverse.dropWhile (· == '0')).reverse

namespace Digits

/-- Whole part and the digits behind the point. -/
def split (d : Digits) : Text × Text :=
  if d.point ≤ 0 then (['0'], List.replicate d.point.natAbs '0' ++ d.digits)
  else
    let k := d.point.natAbs
    (d.digits.take k ++ List.replicate (k - d.digits.length) '0', d.digits.drop k)

/-- With a point, and at least one digit on either side of it. -/
def positional (d : Digits) : Text :=
  let (whole, rest) := d.split
  whole ++ '.' :: (if rest = [] then ['0'] else rest)

/-- A power of ten with its sign and at least two digits. -/
def exponent (e : Int) : Text :=
  (if e < 0 then '-' else '+') :: Text.padded '0' 2 (Text.ofNat e.natAbs)

/-- One digit before the point, the other digits behind it, then the power of ten. -/
def scientific (d : Digits) : Text :=
  let rest := d.digits.drop 1
  d.digits.take 1 ++ (if rest = [] then [] else '.' :: rest) ++ 'e' :: exponent (d.point - 1)

end Digits
end Number
end Citations
