import Citations.Number.Power

/-!
# Binary numbers of 64 bits

A finite number is `± m · 2 ^ e` with `m < 2 ^ 53` and `-1074 ≤ e ≤ 971`, where `2 ^ 52 ≤ m`
unless `e = -1074`; so each number is written in one way.

* `roundDiv`           a quotient rounded to the nearest whole number, a tie to the even one;
* `Binary64.nearest`   the number nearest to a quotient of natural numbers;
* `Binary64.ratio`     the exact value of a finite number as such a quotient.
-/

namespace Citations
namespace Number

/-- The whole number nearest to `num / den`; of two equally near the even one. -/
def roundDiv (num den : Nat) : Nat :=
  let q := num / den
  let r := num % den
  if 2 * r < den then q
  else if den < 2 * r then q + 1
  else if q % 2 = 0 then q else q + 1

end Number

/-- A number of the binary format of 64 bits. -/
inductive Binary64 where
  | nan
  | infinite (negative : Bool)
  | finite (negative : Bool) (m : Nat) (e : Int)
  deriving DecidableEq, Repr

namespace Binary64
open Number

def zero : Binary64 := .finite false 0 (-1074)

/-- `num / den` divided by `2 ^ e`, as a quotient. -/
def scaled (num den : Nat) (e : Int) : Nat × Nat :=
  if e < 0 then (num * twoTo e.natAbs, den) else (num, den * twoTo e.natAbs)

/-- The exponent of the last kept bit of `num / den`. -/
def lastBit (num den : Nat) : Int :=
  let e := max (-1074) ((num.log2 : Int) - den.log2 - 53)
  let (n, d) := scaled num den e
  if twoTo 53 ≤ n / d then e + 1 else e

/-- The number nearest to `± num / den`, where `den` is not zero; a tie goes to the even one. -/
def nearest (negative : Bool) (num den : Nat) : Binary64 :=
  if num = 0 then .finite negative 0 (-1074)
  else
    let e := lastBit num den
    let (n, d) := scaled num den e
    let m := roundDiv n d
    let (m, e) := if m = twoTo 53 then (twoTo 52, e + 1) else (m, e)
    if 971 < e then .infinite negative else .finite negative m e

theorem nearest_zero (negative : Bool) (den : Nat) :
    nearest negative 0 den = .finite negative 0 (-1074) := by simp [nearest]

def ofInt (i : Int) : Binary64 := nearest (decide (i < 0)) i.natAbs 1

/-- Numerator and denominator of `m · 2 ^ e`. -/
def ratio (m : Nat) (e : Int) : Nat × Nat :=
  if e < 0 then (m, twoTo e.natAbs) else (m * twoTo e.natAbs, 1)

theorem ratio_snd_pos (m : Nat) (e : Int) : 0 < (ratio m e).2 := by
  unfold ratio
  split
  · exact twoTo_pos _
  · exact Nat.one_pos

def isNegative : Binary64 → Bool
  | .nan => false
  | .infinite s => s
  | .finite s _ _ => s

/-- Whether two numbers are equal as numbers: zeros of either sign are, not-a-number never is. -/
def sameNumber : Binary64 → Binary64 → Bool
  | .infinite s, .infinite t => s == t
  | .finite s m e, .finite t n f => (m == 0 && n == 0) || (s == t && m == n && e == f)
  | _, _ => false

/-- Whether the number is equal to a whole number. -/
def isInt (x : Binary64) (i : Int) : Bool :=
  match x with
  | .finite s m e =>
    let (n, d) := ratio m e
    (if s then -(n : Int) else (n : Int)) == i * d
  | _ => false

end Binary64
end Citations
