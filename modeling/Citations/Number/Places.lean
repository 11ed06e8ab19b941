import Citations.Number.Digits

/-!
# A given number of places

Writing a non-negative quotient with a fixed number of places behind the point, in scientific
form, or in the shorter of the two ("general"), each rounded from the exact value with a tie to
the even digit.  `keepPoint` asks for the point, and in the general form for the zeros at the end,
even where they say nothing.
-/

namespace Citations
namespace Number

def withPoint (keepPoint : Bool) (whole rest : Text) : Text :=
  if rest = [] then (if keepPoint then whole ++ ['.'] else whole) else whole ++ '.' :: rest

def fixedText (keepPoint : Bool) (places num den : Nat) : Text :=
  let ds := Text.padded '0' (places + 1) (Text.ofNat (roundDiv (num * tenTo places) den))
  withPoint keepPoint (ds.take (ds.length - places)) (ds.drop (ds.length - places))

/-- `n` significant digits and the power of ten of the first. -/
def leading (n num den : Nat) : Text × Int :=
  if num = 0 then (List.replicate n '0', 0)
  else
    let d := significant n num den
    (d.digits, d.point - 1)

/-- One digit before the point, `places` behind it, and the power of ten. -/
def scientificText (keepPoint : Bool) (places num den : Nat) : Text :=
  let (ds, e) := leading (places + 1) num den
  withPoint keepPoint (ds.take 1) (ds.drop 1) ++ 'e' :: Digits.exponent e

/-- `digits` significant digits (at least one), positional while the power of ten is at least -4
and below `digits`. -/
def generalText (keepPoint : Bool) (digits num den : Nat) : Text :=
  let n := max digits 1
  let (ds, e) := leading n num den
  let trim (t : Text) : Text := if keepPoint then t else dropZeros t
  if -4 ≤ e ∧ e < n then
    let (whole, rest) := Digits.split ⟨ds, e + 1⟩
    withPoint keepPoint whole (trim rest)
  else
    withPoint keepPoint (ds.take 1) (trim (ds.drop 1)) ++ 'e' :: Digits.exponent e

end Number
end Citations
