import Citations.Number.Places
import Citations.Placeholder.Error
import Citations.Text.CodePoint
import Citations.Text.Word

/-!
# The layout of a field

Behind a colon a field can say how it is laid out: a fill character and an alignment, a sign, a
least width, a separator of thousands, a precision and a kind of text.  For a text the precision is
the greatest number of characters kept, and signs and separators are refused; a whole number has
more kinds.

* `Layout`            the parts of a layout;
* `Layout.parse`      reads a layout;
* `Layout.ofText`     cuts and fills up a text;
* `Layout.ofWhole`    writes a whole number in its kind and fills it up.
-/

namespace Citations

/-- The parts of a layout; the marks at its front are kept as they stand. -/
structure Layout where
  fill : Option Char := none
  mark : Option Char := none
  sign : Option Char := none
  negativeZero : Bool := false
  alternate : Bool := false
  zero : Bool := false
  width : Nat := 0
  separator : Option Char := none
  precision : Option Nat := none
  kind : Char
  deriving DecidableEq, Repr

/-- What is laid out. -/
inductive Layout.Subject where
  | text
  | whole
  | truth
  deriving DecidableEq, Repr

namespace Layout

namespace Subject

def name : Subject → Text
  | .text => "str".toList
  | .whole => "int".toList
  | .truth => "bool".toList

/-- The kind where a layout names none. -/
def kind : Subject → Char
  | .text => 's'
  | .whole | .truth => 'd'

end Subject

/-! ## reading -/

/-- The greatest number that a width, precision or position can be. -/
def greatest : Nat := Number.twoTo 63 - 1

/-- A run of decimal digits of any script at the front: its number, if it has a digit, and what
follows. -/
def number (n : Option Nat) : Text → Except PlaceholderError (Option Nat × Text)
  | [] => .ok (n, [])
  | c :: r =>
    match Text.decimal? c with
    | none => .ok (n, c :: r)
    | some d =>
      if greatest < n.getD 0 * 10 + d then .error .tooManyDigits
      else number (some (n.getD 0 * 10 + d)) r

/-- How a mark aligns; `=` fills between a sign and its digits. -/
def isAlignmentMark (c : Char) : Bool := c == '<' || c == '>' || c == '=' || c == '^'

/-- Fill character and alignment mark at the front. -/
def alignmentOf : Text → Option Char × Option Char × Text
  | f :: a :: r =>
    if isAlignmentMark a then (some f, some a, r)
    else if isAlignmentMark f then (none, some f, a :: r)
    else (none, none, f :: a :: r)
  | [a] => if isAlignmentMark a then (none, some a, []) else (none, none, [a])
  | [] => (none, none, [])

/-- A character that may stand at the front, and what follows it. -/
def optional (p : Char → Bool) : Text → Option Char × Text
  | [] => (none, [])
  | c :: r => if p c then (some c, r) else (none, c :: r)

/-- The separators of thousands, of which at most one kind may be given. -/
def separatorOf (t : Text) : Except PlaceholderError (Option Char × Text) :=
  let (comma, t) := optional (· == ',') t
  let (line, t) := optional (· == '_') t
  match comma, line with
  | some _, some _ => .error .bothSeparators
  | none, some _ => if t.head? = some ',' then .error .bothSeparators else .ok (some '_', t)
  | c, none => .ok (c, t)

def precisionOf : Text → Except PlaceholderError (Option Nat × Text)
  | '.' :: r =>
    match number none r with
    | .ok (none, _) => .error .missingPrecision
    | other => other
  | r => .ok (none, r)

/-- The kinds of number that a separator of thousands goes with; the character zero counts as no
kind. -/
def takesSeparator (separator kind : Char) : Bool :=
  kind == Char.ofNat 0 || "defgEG%F".toList.contains kind ||
    (separator == '_' && "boxX".toList.contains kind)

def parse (subject : Subject) (layout : Text) : Except PlaceholderError Layout := do
  let (fill, mark, t) := alignmentOf layout
  let (sign, t) := optional (fun c => c == ' ' || c == '+' || c == '-') t
  let (negativeZero, t) := optional (· == 'z') t
  let (alternate, t) := optional (· == '#') t
  let (zero, t) := if fill.isSome then (none, t) else optional (· == '0') t
  let (width, t) ← number none t
  let (separator, t) ← separatorOf t
  let (precision, t) ← precisionOf t
  let kind ← match t with
    | [] => pure subject.kind
    | [c] => pure c
    | _ => .error (.badLayout layout subject.name)
  match separator with
    | some s => if takesSeparator s kind then pure () else .error (.separator s kind)
    | none => pure ()
  return {
    fill := fill, mark := mark, sign := sign, negativeZero := negativeZero.isSome,
    alternate := alternate.isSome, zero := zero.isSome, width := width.getD 0,
    separator := separator, precision := precision, kind := kind }

def filler (l : Layout) : Char := l.fill.getD (if l.zero then '0' else ' ')

/-- How much of what is missing stands in front, where `mark` says how to align. -/
def missingBefore (mark : Char) (missing : Nat) : Nat :=
  if mark = '>' then missing else if mark = '^' then missing / 2 else 0

def filled (l : Layout) (mark : Char) (t : Text) : Text :=
  let missing := l.width - t.length
  let before := missingBefore mark missing
  List.replicate before l.filler ++ t ++ List.replicate (missing - before) l.filler

/-! ## texts -/

/-- What a text has no use for. -/
def textFault? (l : Layout) : Option PlaceholderError :=
  if l.kind ≠ 's' then some (.unknownKind l.kind Subject.text.name)
  else
    match l.sign with
    | some c => some (.sign (c == ' '))
    | none =>
      if l.negativeZero then some .negativeZero
      else if l.alternate then some .alternate
      else if l.mark = some '=' then some .fillBehindSign
      else none

/-- Cuts a text to the precision and fills it up to the width. -/
def ofText (l : Layout) (t : Text) : Except PlaceholderError Text :=
  match l.textFault? with
  | some e => .error e
  | none =>
    .ok (l.filled (l.mark.getD '<') (match l.precision with
      | some n => t.take n
      | none => t))

theorem ofText_bare (t : Text) : ofText { kind := 's' } t = .ok t := by
  simp [ofText, textFault?, filled, missingBefore]

/-! ## whole numbers -/

/-- A number as text: sign and mark of the base, the digits that are separated, and the rest. -/
structure Figure where
  front : Text := []
  digits : Text
  rest : Text := []

/-- How many digits in groups of `size` are needed for `width` characters with the separators, of
which none stands in front. -/
def digitsFor (size width : Nat) : Nat :=
  width - width / (size + 1) + if width % (size + 1) = 0 then 1 else 0

/-- Digits in groups, filled up with zeros in front to at least `width` characters. -/
def grouped (separator : Char) (size width : Nat) (ds : Text) : Text :=
  let ds := Text.padded '0' (digitsFor size width) ds
  let first := (ds.length - 1) % size + 1
  ds.take first ++ groups separator size ds.length (ds.drop first)
where
  /-- Full groups, at most `n` of them, each behind a separator. -/
  groups (separator : Char) (size : Nat) : Nat → Text → Text
    | 0, _ => []
    | _ + 1, [] => []
    | n + 1, ds => separator :: ds.take size ++ groups separator size n (ds.drop size)

/-- How many digits stand between separators. -/
def groupSize (kind : Char) : Nat := if "boxX".toList.contains kind then 4 else 3

/-- Fills a number up; zeros behind the sign are separated like its digits. -/
def ofFigure (l : Layout) (f : Figure) : Text :=
  let mark := l.mark.getD (if l.zero then '=' else '>')
  let width := if l.filler = '0' ∧ mark = '=' then l.width - f.front.length - f.rest.length else 0
  let ds := match l.separator with
    | some s => grouped s (groupSize l.kind) width f.digits
    | none => Text.padded '0' width f.digits
  if mark = '=' then
    let missing := l.width - f.front.length - ds.length - f.rest.length
    f.front ++ List.replicate missing l.filler ++ ds ++ f.rest
  else l.filled mark (f.front ++ ds ++ f.rest)

def signOf (l : Layout) (negative : Bool) : Text :=
  if negative then ['-']
  else match l.sign with
    | some '+' => ['+']
    | some ' ' => [' ']
    | _ => []

/-- A whole number in the base of its kind. -/
def wholeFigure (l : Layout) (i : Int) : Figure :=
  let base := if l.kind = 'b' then 2 else if l.kind = 'o' then 8
    else if l.kind = 'x' ∨ l.kind = 'X' then 16 else 10
  let ds := Nat.toDigits base i.natAbs
  { front := l.signOf (decide (i < 0)) ++ if l.alternate && base != 10 then ['0', l.kind] else []
    digits := if l.kind = 'X' then ds.map Char.toUpper else ds }

/-- A whole number written with a point, a power of ten or as a percentage. -/
def realFigure (l : Layout) (i : Int) : Figure :=
  let places := l.precision.getD 6
  let n := i.natAbs
  let t :=
    if l.kind.toLower = 'e' then Number.scientificText l.alternate places n 1
    else if l.kind.toLower = 'f' then Number.fixedText l.alternate places n 1
    else if l.kind = '%' then Number.fixedText l.alternate places (n * 100) 1 ++ ['%']
    else Number.generalText l.alternate places n 1
  let t := if l.kind.isUpper then t.map Char.toUpper else t
  { front := l.signOf (decide (i < 0))
    digits := t.takeWhile Char.isDigit
    rest := t.dropWhile Char.isDigit }

/-- Writes a whole number: in a base, as the character with its number, or with a point. -/
def ofWhole (l : Layout) (subject : Subject) (i : Int) : Except PlaceholderError Text :=
  if "bdoxXnc".toList.contains l.kind then
    if l.precision.isSome then .error .wholePrecision
    else if l.negativeZero then .error .wholeNegativeZero
    else if l.kind = 'c' then
      if l.sign.isSome then .error .characterSign
      else if l.alternate then .error .characterAlternate
      else if i < 0 ∨ 0x110000 ≤ i then .error .noCharacter
      else
        .ok (l.ofFigure { digits := [(CodePoint.ofNat i.toNat).standIn CodePoint.firstStandIn] })
    else .ok (l.ofFigure (l.wholeFigure i))
  else if "eEfFgG%".toList.contains l.kind then .ok (l.ofFigure (l.realFigure i))
  else .error (.unknownKind l.kind subject.name)

end Layout
end Citations
