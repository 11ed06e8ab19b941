import Citations.Text.Basic

/-!
# Numerals

Whole numbers in a base, most significant digit first, without a leading zero.
-/

namespace Citations
namespace Text

def ofNat (n : Nat) : Text := Nat.toDigits 10 n

/-- The decimal numeral of a whole number, with a minus sign below zero. -/
def ofInt (i : Int) : Text :=
  if i < 0 then '-' :: ofNat i.natAbs else ofNat i.natAbs

theorem ofNat_zero : ofNat 0 = ['0'] := by decide

def hexDigit? (c : Char) : Option Nat :=
  if '0' ≤ c ∧ c ≤ '9' then some (c.toNat - 48)
  else if 'a' ≤ c ∧ c ≤ 'f' then some (c.toNat - 87)
  else if 'A' ≤ c ∧ c ≤ 'F' then some (c.toNat - 55)
  else none

/-- The hexadecimal numeral, lower case, filled up with zeros to `width` digits. -/
def hex (width n : Nat) : Text := padded '0' width (Nat.toDigits 16 n)

/-- The number that a run of decimal digits stands for. -/
def natOfDigits (ds : Text) : Nat := ds.foldl (fun n c => 10 * n + (c.toNat - 48)) 0

theorem natOfDigits_nil : natOfDigits [] = 0 := rfl

end Text
end Citations
