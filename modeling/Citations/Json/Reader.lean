import Citations.Json.Printer
import Citations.Number.Reading
import Citations.Text.Lines

/-!
# Reading the JSON format

Every reader takes a text and gives a value with the text behind it, or a fault with the number of
characters that were left at it.  Of equal keys of an object the last counts.  The numbers without
digits, `NaN`, `Infinity` and `-Infinity`, are read too.

* `Json.Fault`, `Json.ReadError`   what is wrong and where;
* `Json.stringBody`, `Json.number`, `Json.value`   readers;
* `Json.readWithin`   a whole text, as far as the stack holds it.
-/

namespace Citations
namespace Json

inductive Fault where
  | mark
  | value
  | name
  | colon
  | comma
  | unterminated
  | escape
  | codePoint
  | control
  | extra
  /-- a whole number with more digits than are read -/
  | digits (count : Nat)
  /-- too many arrays and objects around each other, the innermost of this kind -/
  | depth (kind : Text)
  deriving DecidableEq, Repr

/-- A fault, and how many characters are left where it is. -/
structure ReadError where
  fault : Fault
  left : Nat
  deriving DecidableEq, Repr

def Fault.message : Fault → Text
  | .mark => "Unexpected UTF-8 BOM (decode using utf-8-sig)".toList
  | .value => "Expecting value".toList
  | .name => "Expecting property name enclosed in double quotes".toList
  | .colon => "Expecting ':' delimiter".toList
  | .comma => "Expecting ',' delimiter".toList
  | .unterminated => "Unterminated string starting at".toList
  | .escape => "Invalid \\escape".toList
  | .codePoint => "Invalid \\uXXXX escape".toList
  | .control => "Invalid control character at".toList
  | .extra => "Extra data".toList
  | .digits n =>
    "Exceeds the limit (4300 digits) for integer string conversion: value has ".toList ++
      Text.ofNat n ++
      " digits; use sys.set_int_max_str_digits() to increase the limit".toList
  | .depth kind =>
    "maximum recursion depth exceeded while decoding a JSON ".toList ++ kind ++
      " from a unicode string".toList

/-- The fault with line, column and position in the text. -/
def ReadError.message (t : Text) (e : ReadError) : Text :=
  let position := t.length - e.left
  let (line, column) := t.lineColumn position
  e.fault.message ++ ": line ".toList ++ Text.ofNat line ++ " column ".toList ++
    Text.ofNat column ++ " (char ".toList ++ Text.ofNat position ++ [')']

def fail {α : Type} (f : Fault) (t : Text) : Except ReadError α := .error ⟨f, t.length⟩

def isSpace (c : Char) : Bool := c == ' ' || c == '\t' || c == '\n' || c == '\r'

def skip (t : Text) : Text := t.dropWhile isSpace

/-! ## texts -/

/-- The number that four hexadecimal digits are. -/
def hex4? (a b c d : Char) : Option Nat :=
  match Text.hexDigit? a, Text.hexDigit? b, Text.hexDigit? c, Text.hexDigit? d with
  | some a, some b, some c, some d => some (a * 4096 + b * 256 + c * 16 + d)
  | _, _, _, _ => none

def isHighHalf (n : Nat) : Bool := 0xd800 ≤ n && n < 0xdc00
def isLowHalf (n : Nat) : Bool := 0xdc00 ≤ n && n < 0xe000

/-- The character that a letter behind a backslash stands for. -/
def escapeOf (c : Char) : Option Char :=
  if c = '"' ∨ c = '\\' ∨ c = '/' then some c
  else if c = 'b' then some (Char.ofNat 8)
  else if c = 'f' then some (Char.ofNat 12)
  else if c = 'n' then some '\n'
  else if c = 'r' then some '\r'
  else if c = 't' then some '\t'
  else none

def push (p : CodePoint) (x : Except ReadError (List CodePoint × Text)) :
    Except ReadError (List CodePoint × Text) :=
  x.map fun (s, r) => (p :: s, r)

/-- A text behind its quote, up to the quote that ends it; `opened` characters were left at the
first quote.  Two halves that follow each other are a pair, and stand for a character. -/
def stringBody (opened : Nat) : Text → Except ReadError (List CodePoint × Text)
  | [] => .error ⟨.unterminated, opened⟩
  | c :: r =>
    if c = '"' then .ok ([], r)
    else if c = '\\' then
      match r with
      | [] => .error ⟨.unterminated, opened⟩
      | 'u' :: a :: b :: c :: d :: e :: r =>
        match hex4? a b c d with
        | none => .error ⟨.codePoint, r.length + 6⟩
        | some n =>
          match e, r with
          | '\\', 'u' :: a' :: b' :: c' :: d' :: e' :: r' =>
            if isHighHalf n then
              match hex4? a' b' c' d' with
              | none => .error ⟨.codePoint, r'.length + 6⟩
              | some k =>
                if isLowHalf k then
                  push (.ofNat (0x10000 + (n - 0xd800) * 0x400 + (k - 0xdc00)))
                    (stringBody opened (e' :: r'))
                else
                  push (.ofNat n) (stringBody opened ('\\' :: 'u' :: a' :: b' :: c' :: d' :: e' :: r'))
            else push (.ofNat n) (stringBody opened ('\\' :: 'u' :: a' :: b' :: c' :: d' :: e' :: r'))
          | e, r => push (.ofNat n) (stringBody opened (e :: r))
      | x :: r =>
        if x = 'u' then fail .codePoint (x :: r)
        else
          match escapeOf x with
          | none => fail .escape ('\\' :: x :: r)
          | some y => push (.char y) (stringBody opened r)
    else if c.toNat < 32 then fail .control (c :: r)
    else push (.char c) (stringBody opened r)

/-! ## numbers -/

/-- The whole part at the front: a zero alone, or digits of which the first is none. -/
def wholePart? : Text → Option (Text × Text)
  | [] => none
  | c :: r =>
    if c = '0' then some (['0'], r)
    else if c.isDigit then some (c :: r.takeWhile Char.isDigit, r.dropWhile Char.isDigit)
    else none

/-- Point and digits at the front, if there are such. -/
def fraction? : Text → Option (Text × Text)
  | '.' :: r =>
    let ds := r.takeWhile Char.isDigit
    if ds = [] then none else some (ds, r.dropWhile Char.isDigit)
  | _ => none

/-- A power of ten at the front, if there is one. -/
def power? : Text → Option (Int × Text)
  | [] => none
  | c :: r =>
    if c = 'e' ∨ c = 'E' then
      let (negative, r) := Binary64.splitSign r
      let ds := r.takeWhile Char.isDigit
      if ds = [] then none
      else
        let n : Int := Text.natOfDigits ds
        some (if negative then -n else n, r.dropWhile Char.isDigit)
    else none

def splitMinus : Text → Bool × Text
  | '-' :: r => (true, r)
  | r => (false, r)

/-- A number at the front; with a point or a power of ten it is a binary one. -/
def number (t : Text) : Except ReadError (Value × Text) :=
  let (negative, u) := splitMinus t
  match wholePart? u with
  | none => fail .value t
  | some (whole, r) =>
    match fraction? r with
    | some (rest, r) =>
      let (p, r) := (power? r).getD (0, r)
      .ok (.float (Binary64.ofParts negative whole rest p), r)
    | none =>
      match power? r with
      | some (p, r) => .ok (.float (Binary64.ofParts negative whole [] p), r)
      | none =>
        let n : Int := Text.natOfDigits whole
        match Whole.ofInt? (if negative then -n else n) with
        | none => fail (.digits whole.length) t
        | some i => .ok (.int i, r)

/-! ## values -/

/-- The words that stand for values. -/
def words : List (Text × Value) := [
  ("null".toList, .null),
  ("true".toList, .bool true),
  ("false".toList, .bool false),
  ("NaN".toList, .float .nan),
  ("Infinity".toList, .float (.infinite false)),
  ("-Infinity".toList, .float (.infinite true))]

def word? (t : Text) : Option (Value × Text) :=
  (words.find? fun w => w.1.isPrefixOf t).map fun w => (w.2, t.drop w.1.length)

/-- The elements of an array, up to its end, each read by `one`; at most `n` are read. -/
def elements (one : Text → Except ReadError (Value × Text)) :
    Nat → Text → Except ReadError (List Value × Text)
  | 0, t => fail .value t
  | n + 1, t => do
    let (v, r) ← one t
    match skip r with
    | ']' :: r => .ok ([v], r)
    | ',' :: r => (elements one n (skip r)).map fun (vs, r) => (v :: vs, r)
    | r => fail .comma r

/-- The members of an object, up to its end, put in after those in `es`; at most `n` are read. -/
def members (one : Text → Except ReadError (Value × Text)) :
    Nat → Entries → Text → Except ReadError (Entries × Text)
  | 0, _, t => fail .name t
  | n + 1, es, t =>
    match t with
    | '"' :: r => do
      let (k, r) ← stringBody t.length r
      match skip r with
      | ':' :: r => do
        let (v, r) ← one (skip r)
        let es := es.insert (.ofCodePoints k) v
        match skip r with
        | '}' :: r => .ok (es, r)
        | ',' :: r => members one n es (skip r)
        | r => fail .comma r
      | r => fail .colon r
    | t => fail .name t

/-- A value at the front, with at most `depth` arrays and objects around each other; a text holds
no more elements than characters. -/
def value : Nat → Text → Except ReadError (Value × Text)
  | depth, t =>
    match t with
    | [] => fail .value t
    | c :: r =>
      if c = '"' then (stringBody t.length r).map fun (s, r) => (.ofCodePoints s, r)
      else if c = '{' then
        match depth with
        | 0 => fail (.depth "object".toList) t
        | d + 1 =>
          match skip r with
          | '}' :: r => .ok (.dict [], r)
          | r => (members (value d) (r.length + 1) [] r).map fun (es, r) => (.dict es, r)
      else if c = '[' then
        match depth with
        | 0 => fail (.depth "array".toList) t
        | d + 1 =>
          match skip r with
          | ']' :: r => .ok (.list [], r)
          | r => (elements (value d) (r.length + 1) r).map fun (vs, r) => (.list vs, r)
      else
        match word? t with
        | some x => .ok x
        | none => number t

/-- A whole text, with at most `depth` arrays and objects around each other. -/
def readWithin (depth : Nat) (t : Text) : Except ReadError Value :=
  if t.head? = some (Char.ofNat 0xfeff) then fail .mark t
  else do
    let (v, r) ← value depth (skip t)
    match skip r with
    | [] => .ok v
    | r => fail .extra r

end Json
end Citations
