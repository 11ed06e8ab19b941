import Citations.Number.Binary64
import Citations.Text.CodePoint
import Citations.Text.Numeral

/-!
# Values of the data

What a key of the data can stand for: nothing, truth values, numbers, texts, bytes, and lists,
tuples and mappings of values.  A mapping keeps its entries in the order of their first keys.
Whole numbers are those that can be written: no numeral has more than `Whole.maxDigits` digits.

* `Whole`                a whole number that is not too long;
* `Value.sameKey`        when two keys of a mapping are one: numbers by their value, so `true` is
                         the key `1`;
* `Entries.insert`       the last value of a key counts, at the place of its first;
* `Value.isEmpty`        what leaves a fragment out: nothing, false, and the empty text, list,
                         tuple and mapping, but not the number zero.
-/

namespace Citations

/-! ## whole numbers -/

/-- The greatest number of digits of a whole number that is written or read. -/
def Whole.maxDigits : Nat := 4300

structure Whole where
  val : Int
  short : (Text.ofNat val.natAbs).length ≤ Whole.maxDigits
  deriving DecidableEq, Repr

namespace Whole

def ofInt? (i : Int) : Option Whole :=
  if h : (Text.ofNat i.natAbs).length ≤ maxDigits then some ⟨i, h⟩ else none

theorem ofInt?_val (i : Whole) : ofInt? i.val = some i := dif_pos i.short

end Whole

/-! ## values -/

inductive Value where
  | null
  | bool (b : Bool)
  | int (i : Whole)
  | float (x : Binary64)
  | text (t : Text)
  /-- a text in which halves of pairs stand alone -/
  | unpaired (ps : List CodePoint)
  | bytes (bs : List UInt8)
  | list (vs : List Value)
  | tuple (vs : List Value)
  | dict (entries : List (Value × Value))
  deriving Inhabited

/-- The entries of a mapping, in order. -/
abbrev Entries := List (Value × Value)

namespace Value

/-! ## keys -/

/-- The whole number that a truth value or whole number is. -/
def whole? : Value → Option Int
  | .bool b => some (if b then 1 else 0)
  | .int i => some i.val
  | _ => none

/-- Whether two numbers are equal. -/
def sameNumber (a b : Value) : Bool :=
  match a, b with
  | .float x, .float y => x.sameNumber y
  | .float x, b => match b.whole? with
    | some i => x.isInt i
    | none => false
  | a, .float y => match a.whole? with
    | some i => y.isInt i
    | none => false
  | a, b => match a.whole?, b.whole? with
    | some i, some j => i == j
    | _, _ => false

mutual

/-- Whether two values are one and the same key. -/
def sameKey : Value → Value → Bool
  | .null, .null => true
  | .text s, .text t => s == t
  | .unpaired ps, .unpaired qs => ps == qs
  | .bytes s, .bytes t => s == t
  | .tuple vs, .tuple ws => sameKeys vs ws
  | a, b => sameNumber a b

def sameKeys : List Value → List Value → Bool
  | [], [] => true
  | v :: vs, w :: ws => sameKey v w && sameKeys vs ws
  | _, _ => false

end

theorem sameKey_text (s t : Text) : sameKey (.text s) (.text t) = (s == t) := by
  simp [sameKey]

/-! ## texts -/

/-- The value of code points: a text if all are characters. -/
def ofCodePoints (ps : List CodePoint) : Value :=
  match CodePoint.text? ps with
  | some t => .text t
  | none => .unpaired ps

theorem ofCodePoints_map_char (t : Text) : ofCodePoints (t.map .char) = .text t := by
  rw [ofCodePoints, CodePoint.text?_map_char]

/-! ## truth -/

/-- The values that leave a fragment out. -/
def isEmpty : Value → Bool
  | .null => true
  | .bool b => !b
  | .text t => t.isEmpty
  | .unpaired ps => ps.isEmpty
  | .list vs => vs.isEmpty
  | .tuple vs => vs.isEmpty
  | .dict es => es.isEmpty
  | .int _ | .float _ | .bytes _ => false

def kindName : Value → Text
  | .null => "NoneType".toList
  | .bool _ => "bool".toList
  | .int _ => "int".toList
  | .float _ => "float".toList
  | .text _ | .unpaired _ => "str".toList
  | .bytes _ => "bytes".toList
  | .list _ => "list".toList
  | .tuple _ => "tuple".toList
  | .dict _ => "dict".toList

end Value

/-! ## entries -/

namespace Entries

/-- A key that is there gets the new value and keeps its place. -/
def insert (k v : Value) : Entries → Entries
  | [] => [(k, v)]
  | (k', v') :: r => if k'.sameKey k then (k', v) :: r else (k', v') :: insert k v r

def ofList (es : List (Value × Value)) : Entries := es.foldl (fun acc e => insert e.1 e.2 acc) []

def overlay (old new : Entries) : Entries := new.foldl (fun acc e => insert e.1 e.2 acc) old

def get? (key : Text) (es : Entries) : Option Value :=
  (es.find? fun e => e.1.sameKey (.text key)).map (·.2)

theorem get?_nil (key : Text) : get? key [] = none := rfl

theorem get?_insert_self (key : Text) (v : Value) (es : Entries) :
    get? key (insert (.text key) v es) = some v := by
  induction es with
  | nil => simp [insert, get?, Value.sameKey_text]
  | cons e r ih =>
    rw [insert]
    split
    · next h => simp [get?, h]
    · next h =>
      simp only [Bool.not_eq_true] at h
      simpa [get?, h] using ih

end Entries
end Citations
