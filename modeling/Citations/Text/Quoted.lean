import Citations.Text.Numeral
import Citations.Text.Printable

/-!
# Quoted texts

A text in quotes, on one line and free of unprintable characters.  The quotes are single, and
double only where the text holds a single but no double one.  Line ends and tabs have their
letters, other unprintable characters their code point with two, four or eight hexadecimal digits.

* `quoted`        keeps printable characters of every script;
* `quotedAscii`   writes everything beyond the first 128 code points by its code point;
* `quotedBytes`   a run of bytes, with a `b` in front.
-/

namespace Citations
namespace Text

/-- The quote that needs the fewest backslashes. -/
def quoteFor (t : Text) : Char := if t.contains '\'' && !t.contains '"' then '"' else '\''

/-- A code point by its hexadecimal digits. -/
def codePoint (n : Nat) : Text :=
  if n < 0x100 then '\\' :: 'x' :: hex 2 n
  else if n < 0x10000 then '\\' :: 'u' :: hex 4 n
  else '\\' :: 'U' :: hex 8 n

/-- One character between quotes `q`; `keep` says which characters stand as they are. -/
def quotedChar (keep : Char → Bool) (q c : Char) : Text :=
  if c = q ∨ c = '\\' then ['\\', c]
  else if c = '\n' then ['\\', 'n']
  else if c = '\r' then ['\\', 'r']
  else if c = '\t' then ['\\', 't']
  else if keep c then [c]
  else codePoint c.toNat

def quotedBy (keep : Char → Bool) (t : Text) : Text :=
  let q := quoteFor t
  q :: t.flatMap (quotedChar keep q) ++ [q]

def quoted (t : Text) : Text := quotedBy isPrintable t

def quotedAscii (t : Text) : Text :=
  quotedBy (fun c => c.toNat < 128 && isPrintable c) t

def quotedBytes (bs : List UInt8) : Text := 'b' :: quotedAscii (bs.map fun b => Char.ofNat b.toNat)

theorem quoted_nil : quoted [] = ['\'', '\''] := rfl

end Text
end Citations
