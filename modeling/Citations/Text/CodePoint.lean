import Citations.Text.Quoted

/-!
# Code points

A text from outside may name halves of surrogate pairs that stand alone.  No character is such a
half, so what was named is a list of code points, and a text only where all of them are characters.

* `CodePoint`            a character or a half;
* `CodePoint.text?`      the text that code points are;
* `CodePoint.standIn`    the private character that stands for a half where a text must;
* `CodePoint.quoted`     code points in quotes; for those of a text `Text.quoted`.
-/

namespace Citations

inductive CodePoint where
  | char (c : Char)
  /-- the half of a pair with this number behind the first of all halves -/
  | half (n : Fin 2048)
  deriving DecidableEq, Repr

namespace CodePoint

/-- The number of the first half. -/
def firstHalf : Nat := 0xd800

def ofNat (n : Nat) : CodePoint :=
  if h : n - firstHalf < 2048 ∧ firstHalf ≤ n then .half ⟨n - firstHalf, h.1⟩
  else .char (Char.ofNat n)

def number : CodePoint → Nat
  | .char c => c.toNat
  | .half n => firstHalf + n

def char? : CodePoint → Option Char
  | .char c => some c
  | .half _ => none

def text? : List CodePoint → Option Text
  | [] => some []
  | .char c :: ps => (text? ps).map (c :: ·)
  | .half _ :: _ => none

theorem text?_map_char (t : Text) : text? (t.map .char) = some t := by
  induction t with
  | nil => rfl
  | cons c r ih => simp [text?, ih]

/-- The first of the private characters that stand for halves of pairs. -/
def firstStandIn : Nat := 0xf0000

/-- A character is itself, and the halves have private characters from `base` on. -/
def standIn (base : Nat) : CodePoint → Char
  | .char c => c
  | .half n => Char.ofNat (base + n)

/-- One code point between quotes `q`. -/
def quotedPoint (q : Char) : CodePoint → Text
  | .char c => Text.quotedChar Text.isPrintable q c
  | .half n => Text.codePoint (firstHalf + n)

/-- Code points in quotes, the halves by their numbers. -/
def quoted (ps : List CodePoint) : Text :=
  let q := Text.quoteFor (ps.filterMap char?)
  q :: ps.flatMap (quotedPoint q) ++ [q]

theorem quoted_map_char (t : Text) : quoted (t.map .char) = Text.quoted t := by
  have chars : (t.map CodePoint.char).filterMap char? = t := by
    induction t with
    | nil => rfl
    | cons c r ih => simp [char?, ih]
  simp only [quoted, Text.quoted, Text.quotedBy, chars, List.flatMap_map]
  rfl

end CodePoint
end Citations
