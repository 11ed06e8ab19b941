import Citations.Number.Digits

/-!
# The shortest decimal that reads back

A number is written with the fewest digits from which it is read again, and among those with the
digits nearest to its exact value.  `shortest` tries 1, 2, … 17 digits; on each grid only the two
neighbours of the value can be the nearest.

* `Binary64.shortest`   the digits;
* `Binary64.text`       as written in a value: positional from `0.0001` up to below `10 ^ 16`.
-/

namespace Citations
namespace Binary64
open Number

/-- Whether the `n` digits of `c` with the point at `p` are read as `m · 2 ^ e`. -/
def readsBack (m : Nat) (e : Int) (n : Nat) (p : Int) (c : Nat) : Bool :=
  let (a, b) := shifted c 1 (p - n)
  nearest false a b == .finite false m e

/-- The better neighbour with `n` digits, if one of the two reads back. -/
def onGrid (m : Nat) (e : Int) (p : Int) (n : Nat) : Option Digits :=
  let (num, den) := ratio m e
  let (a, b) := shifted num den (n - p)
  let q := a / b
  let r := a % b
  let low := readsBack m e n p q
  let high := readsBack m e n p (q + 1)
  let pick (c : Nat) : Digits :=
    if c = tenTo n then ⟨['1'], p + 1⟩ else ⟨dropZeros (Text.ofNat c), p⟩
  if low && high then
    some (pick (if 2 * r < b then q else if b < 2 * r then q + 1 else if q % 2 = 0 then q else q + 1))
  else if low then some (pick q)
  else if high then some (pick (q + 1))
  else none

/-- The first grid, from `n` digits on, that has a neighbour which reads back. -/
def firstGrid (m : Nat) (e : Int) (p : Int) : Nat → Nat → Option Digits
  | 0, _ => none
  | k + 1, n => (onGrid m e p n).orElse fun _ => firstGrid m e p k (n + 1)

/-- The shortest digits of `m · 2 ^ e`, where `m` is not zero. -/
def shortest (m : Nat) (e : Int) : Digits :=
  let (num, den) := ratio m e
  let p := pointOf num den
  (firstGrid m e p 17 1).getD (significant 17 num den)

def finiteText (m : Nat) (e : Int) : Text :=
  if m = 0 then ['0', '.', '0']
  else
    let d := shortest m e
    if -4 < d.point ∧ d.point ≤ 16 then d.positional else d.scientific

def text : Binary64 → Text
  | .nan => "nan".toList
  | .infinite s => (if s then ['-'] else []) ++ "inf".toList
  | .finite s m e => (if s then ['-'] else []) ++ finiteText m e

end Binary64
end Citations
