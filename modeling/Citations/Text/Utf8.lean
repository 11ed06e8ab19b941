import Citations.Text.CodePoint

/-!
# UTF-8

* `Utf8.decode`   the text that bytes stand for, or the first place where they stand for none;
* `Utf8.encode`   the bytes of a text;
* `Utf8.firstFault?`   the first code points that have no bytes.
-/

namespace Citations

/-- Why bytes are no text. -/
inductive Utf8Fault where
  | badStart
  | badContinuation
  | truncated
  deriving DecidableEq, Repr

/-- The first byte and position of the faulty bytes, and how many of them there are. -/
structure Utf8Error where
  fault : Utf8Fault
  position : Nat
  count : Nat
  first : UInt8
  deriving DecidableEq, Repr

def Utf8Fault.message : Utf8Fault → Text
  | .badStart => "invalid start byte".toList
  | .badContinuation => "invalid continuation byte".toList
  | .truncated => "unexpected end of data".toList

/-- A single byte is shown; of several only the positions. -/
def Utf8Error.message (e : Utf8Error) : Text :=
  "'utf-8' codec can't decode ".toList ++
    (if e.count = 1 then
      "byte 0x".toList ++ Text.hex 2 e.first.toNat ++ " in position ".toList ++ Text.ofNat e.position
    else
      "bytes in position ".toList ++ Text.ofNat e.position ++ '-' ::
        Text.ofNat (e.position + e.count - 1)) ++
    ':' :: ' ' :: e.fault.message

/-- Halves of pairs in a row, which have no bytes: where they begin, how many there are, and the
first of them. -/
structure UnpairedError where
  position : Nat
  count : Nat
  first : CodePoint
  deriving DecidableEq, Repr

/-- A single half is shown; of several only the positions. -/
def UnpairedError.message (e : UnpairedError) : Text :=
  "'utf-8' codec can't encode ".toList ++
    (if e.count = 1 then
      "character '".toList ++ Text.codePoint e.first.number ++ "' in position ".toList ++
        Text.ofNat e.position
    else
      "characters in position ".toList ++ Text.ofNat e.position ++ '-' ::
        Text.ofNat (e.position + e.count - 1)) ++
    ": surrogates not allowed".toList

namespace Utf8

def isContinuation (b : UInt8) : Bool := 0x80 ≤ b && b < 0xc0

/-- The bits of a continuation byte. -/
def bits (b : UInt8) : Nat := b.toNat % 64

/-- Whether `b` can follow the start byte `a`: some starts allow a part of the continuation bytes
only, so that no character has two forms, none lies beyond the last code point and none is half of
a pair. -/
def canFollow (a b : UInt8) : Bool :=
  isContinuation b &&
    (if a = 0xe0 then 0xa0 ≤ b
    else if a = 0xed then b < 0xa0
    else if a = 0xf0 then 0x90 ≤ b
    else if a = 0xf4 then b < 0x90
    else true)

/-- Reads on from position `i`. -/
def decodeFrom (i : Nat) : List UInt8 → Except Utf8Error Text
  | [] => .ok []
  | a :: r =>
    if a < 0x80 then (decodeFrom (i + 1) r).map (Char.ofNat a.toNat :: ·)
    else if a < 0xc2 then .error ⟨.badStart, i, 1, a⟩
    else if a < 0xe0 then
      match r with
      | [] => .error ⟨.truncated, i, 1, a⟩
      | b :: r =>
        if isContinuation b then
          (decodeFrom (i + 2) r).map (Char.ofNat (a.toNat % 32 * 64 + bits b) :: ·)
        else .error ⟨.badContinuation, i, 1, a⟩
    else if a < 0xf0 then
      match r with
      | [] => .error ⟨.truncated, i, 1, a⟩
      | [b] =>
        if canFollow a b then .error ⟨.truncated, i, 2, a⟩ else .error ⟨.badContinuation, i, 1, a⟩
      | b :: c :: r =>
        if !canFollow a b then .error ⟨.badContinuation, i, 1, a⟩
        else if !isContinuation c then .error ⟨.badContinuation, i, 2, a⟩
        else
          (decodeFrom (i + 3) r).map
            (Char.ofNat (a.toNat % 16 * 4096 + bits b * 64 + bits c) :: ·)
    else if a < 0xf5 then
      match r with
      | [] => .error ⟨.truncated, i, 1, a⟩
      | [b] =>
        if canFollow a b then .error ⟨.truncated, i, 2, a⟩ else .error ⟨.badContinuation, i, 1, a⟩
      | [b, c] =>
        if !canFollow a b then .error ⟨.badContinuation, i, 1, a⟩
        else if !isContinuation c then .error ⟨.badContinuation, i, 2, a⟩
        else .error ⟨.truncated, i, 3, a⟩
      | b :: c :: d :: r =>
        if !canFollow a b then .error ⟨.badContinuation, i, 1, a⟩
        else if !isContinuation c then .error ⟨.badContinuation, i, 2, a⟩
        else if !isContinuation d then .error ⟨.badContinuation, i, 3, a⟩
        else
          (decodeFrom (i + 4) r).map
            (Char.ofNat (a.toNat % 8 * 262144 + bits b * 4096 + bits c * 64 + bits d) :: ·)
    else .error ⟨.badStart, i, 1, a⟩

def decode (bs : List UInt8) : Except Utf8Error Text := decodeFrom 0 bs

theorem decode_nil : decode [] = .ok [] := rfl

def encodeChar (c : Char) : List UInt8 :=
  let n := c.toNat
  let tail (k : Nat) : UInt8 := UInt8.ofNat (0x80 + n / k % 64)
  if n < 0x80 then [UInt8.ofNat n]
  else if n < 0x800 then [UInt8.ofNat (0xc0 + n / 64), tail 1]
  else if n < 0x10000 then [UInt8.ofNat (0xe0 + n / 4096), tail 64, tail 1]
  else [UInt8.ofNat (0xf0 + n / 262144), tail 4096, tail 64, tail 1]

def encode (t : Text) : List UInt8 := t.flatMap encodeChar

theorem encode_append (s t : Text) : encode (s ++ t) = encode s ++ encode t := by
  simp [encode]

theorem encode_line_ne_nil (t : Text) : encode (t ++ ['\n']) ≠ [] := by
  rw [encode_append]
  exact List.append_ne_nil_of_right_ne_nil _ (List.cons_ne_nil _ _)

/-- The first halves in a row among code points. -/
def firstFault? (ps : List CodePoint) : Option UnpairedError :=
  let isChar (p : CodePoint) : Bool := p.char?.isSome
  match ps.dropWhile isChar with
  | [] => none
  | p :: r =>
    some ⟨(ps.takeWhile isChar).length, (r.takeWhile fun q => !isChar q).length + 1, p⟩

end Utf8
end Citations
