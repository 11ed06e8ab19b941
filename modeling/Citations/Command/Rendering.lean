import Citations.Render.Citation
import Citations.Text.Utf8

/-!
# Rendering for the command line

A run of the command line renders like an engine, but for three things that only it is given.  Its
stack has an end, and a fragment with too much around it does not resolve.  The text between the
members of a combined key may be missing, and then no such key resolves.  And values may be texts in
which halves of pairs stand alone.  A rendering puts private characters in their places; a second one,
with other stand-ins, tells the halves from characters that were there all along: they stand where
the two differ.

* `Stack`                    what the stack of a run holds;
* `Rendering.scan`, `Rendering.leaf`   what a pass of a run makes of texts and leaves;
* `Rendering.rendered`       the rendering that a run asks for;
* `Rendering.disguised`      the data with the other stand-ins;
* `Rendering.codePoints`     what two texts that differ in their stand-ins stand for;
* `Rendering.message`        the same for messages, in which stand-ins are written by their numbers.
-/

namespace Citations

/-- What the stack of a run holds: it is used up by what calls the run, by arrays and objects around
each other, and by fragments around each other together with all that the innermost take. -/
structure Stack where
  /-- the most arrays and objects around each other that are read -/
  reading : Nat
  /-- whether a text with so many fragments around it is scanned for its own -/
  scans : Nat → Text → Bool
  /-- whether a leaf with this interior is resolved with so many fragments around it -/
  resolves : Nat → Text → Bool

namespace Rendering

/-! ## what the stack holds -/

/-- The scan of a text with `depth` fragments around it, as far as the stack holds it. -/
def scan (stack : Stack) (depth : Nat) (t : Text) : Noted CitationError Unit :=
  if stack.scans depth t then return () else Noted.ofExcept (.error .stack)

/-- The interior of a leaf; a combined key does not resolve. -/
def expandUnjoined (c : Render.Context) (segment : Text) : Noted CitationError Text :=
  match Template.firstToken? segment with
  | none => (Render.expand c segment).mapError .placeholder
  | some k =>
    if '+' ∈ k.key then do
      Render.noteIf c (.segment segment)
      Noted.ofExcept (.error .unjoined)
    else (Render.expand c segment).mapError .placeholder

/-- The interior of a leaf with `depth` fragments around it, as far as the stack holds it. -/
def leaf (stack : Stack) (isJoined : Bool) (c : Render.Context) (depth : Nat) (segment : Text) :
    Noted CitationError Text :=
  if stack.resolves depth segment then
    if isJoined then (Render.expand c segment).mapError .placeholder else expandUnjoined c segment
  else Noted.ofExcept (.error .stack)

/-- The rendering that a run asks for. -/
def rendered (stack : Stack) (limit : Nat) (o : Options) (isJoined : Bool) (template : Text)
    (data : Entries) : Noted CitationError Text := do
  let c ← Citation.make o template (.dict data)
  let pass := Render.passAt (scan stack) (leaf stack isJoined c.context) 0
  let ts ← Citation.textsBy (c.nextBy pass) limit c.start
  return c.finish ts

/-! ## halves of pairs -/

def otherStandIn : Nat := 0x100000

def isUnpaired : Value → Bool
  | .unpaired _ => true
  | _ => false

/-- A value with the other stand-ins. -/
def disguisedValue : Value → Value
  | .unpaired ps => .text (ps.map (CodePoint.standIn otherStandIn))
  | v => v

def disguised (data : Entries) : Entries := data.map fun (k, v) => (k, disguisedValue v)

/-- The half that two stand-ins with these numbers stand for. -/
def half? (a b : Nat) : Option CodePoint :=
  let n := a - CodePoint.firstStandIn
  if h : n < 2048 ∧ CodePoint.firstStandIn ≤ a ∧ b = otherStandIn + n then some (.half ⟨n, h.1⟩)
  else none

/-- What two texts stand for that differ in their stand-ins only. -/
def codePoints (s t : Text) : List CodePoint :=
  (s.zip t).map fun (c, d) => (half? c.toNat d.toNat).getD (.char c)

theorem half?_self (n : Nat) : half? n n = none := by
  have apart : CodePoint.firstStandIn < otherStandIn := by decide
  rw [half?, dif_neg]
  omega

theorem codePoints_self (t : Text) : codePoints t t = t.map .char := by
  induction t with
  | nil => rfl
  | cons c r ih => simpa [codePoints, half?_self] using ih

def hexNumber? (t : Text) : Option Nat :=
  t.foldl (fun n c => n.bind fun n => (Text.hexDigit? c).map (n * 16 + ·)) (some 0)

/-- A message in which stand-ins are written by their numbers, read off two that differ in their
stand-ins only. -/
def message : Text → Text → Text
  | '\\' :: 'U' :: a :: b :: c :: d :: e :: f :: g :: h :: s,
      '\\' :: 'U' :: a' :: b' :: c' :: d' :: e' :: f' :: g' :: h' :: t =>
    match hexNumber? [a, b, c, d, e, f, g, h], hexNumber? [a', b', c', d', e', f', g', h'] with
    | some m, some n =>
      match half? m n with
      | some p => Text.codePoint p.number ++ message s t
      | none =>
        '\\' :: message ('U' :: a :: b :: c :: d :: e :: f :: g :: h :: s)
          ('U' :: a' :: b' :: c' :: d' :: e' :: f' :: g' :: h' :: t)
    | _, _ =>
      '\\' :: message ('U' :: a :: b :: c :: d :: e :: f :: g :: h :: s)
        ('U' :: a' :: b' :: c' :: d' :: e' :: f' :: g' :: h' :: t)
  | c :: s, _ :: t => c :: message s t
  | s, _ => s

end Rendering
end Citations
