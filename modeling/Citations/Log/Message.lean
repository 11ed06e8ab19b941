import Citations.Number.Places
import Citations.Value.Written

/-!
# Messages with arguments

A message is a pattern in which `%` begins a directive: an optional key in round brackets, flags, a
width, a precision, and the kind of text that the next argument becomes.  Two `%` stand for one.  A
message without arguments is taken as it is.

* `MessageError`          what can be wrong, with the wording;
* `Message.Arguments`     the arguments that are left, or a mapping that keys are looked up in;
* `Message.directive`     one directive;
* `Message.fill`          the whole message.
-/

namespace Citations

inductive MessageError where
  | tooFew
  | tooMany
  | noMapping
  | incompleteKey
  | incomplete
  | unknownKey (key : Text)
  /-- the argument for a width or precision is no whole number -/
  | countNoInt
  | widthTooLarge
  | precisionTooLarge
  /-- the argument for a width or precision is beyond the named range -/
  | countTooLarge (range : Text)
  | unsupported (kind : Char) (index : Nat)
  | needsWhole (kind : Char) (given : Text)
  | needsNumber (kind : Char) (given : Text)
  | needsReal (given : Text)
  | nanNotWhole
  | infinityNotWhole
  | wholeTooLarge
  | needsCharacter
  | noCodePoint
  deriving DecidableEq, Repr

def MessageError.message : MessageError → Text
  | .tooFew => "not enough arguments for format string".toList
  | .tooMany => "not all arguments converted during string formatting".toList
  | .noMapping => "format requires a mapping".toList
  | .incompleteKey => "incomplete format key".toList
  | .incomplete => "incomplete format".toList
  | .unknownKey k => Text.quoted k
  | .countNoInt => "* wants int".toList
  | .widthTooLarge => "width too big".toList
  | .precisionTooLarge => "precision too big".toList
  | .countTooLarge range => "Python int too large to convert to C ".toList ++ range
  | .unsupported c i =>
    "unsupported format character '".toList ++
      (if 31 ≤ c.toNat ∧ c.toNat < 127 then [c] else ['?']) ++ "' (0x".toList ++
      Nat.toDigits 16 c.toNat ++ ") at index ".toList ++ Text.ofNat i
  | .needsWhole c given =>
    '%' :: c :: " format: an integer is required, not ".toList ++ given
  | .needsNumber c given =>
    '%' :: c :: " format: a real number is required, not ".toList ++ given
  | .needsReal given => "must be real number, not ".toList ++ given
  | .nanNotWhole => "cannot convert float NaN to integer".toList
  | .infinityNotWhole => "cannot convert float infinity to integer".toList
  | .wholeTooLarge => "int too large to convert to float".toList
  | .needsCharacter => "%c requires int or char".toList
  | .noCodePoint => "%c arg not in range(0x110000)".toList

namespace Message

/-! ## arguments -/

/-- What directives take their values from. -/
inductive Arguments where
  | sequence (left : List Value)
  /-- a mapping, and the value that the next directive takes -/
  | mapping (entries : Entries) (current : Option Value)

namespace Arguments

/-- A single mapping that is not empty is looked up by key; all else is taken in order. -/
def ofList : List Value → Arguments
  | [.dict (e :: es)] => .mapping (e :: es) (some (.dict (e :: es)))
  | vs => .sequence vs

def take : Arguments → Except MessageError (Value × Arguments)
  | .sequence (v :: vs) => .ok (v, .sequence vs)
  | .mapping es (some v) => .ok (v, .mapping es none)
  | _ => .error .tooFew

def select (key : Text) : Arguments → Except MessageError Arguments
  | .sequence _ => .error .noMapping
  | .mapping es _ =>
    match es.get? key with
    | some v => .ok (.mapping es (some v))
    | none => .error (.unknownKey key)

/-- Whether values are left that no directive took. -/
def hasRest : Arguments → Bool
  | .sequence vs => !vs.isEmpty
  | .mapping .. => false

end Arguments

/-! ## the parts of a directive -/

structure Flags where
  left : Bool
  plus : Bool
  blank : Bool
  alternate : Bool
  zero : Bool
  deriving DecidableEq, Repr

def isFlag (c : Char) : Bool := "-+ #0".toList.contains c

def Flags.ofText (t : Text) : Flags :=
  ⟨t.contains '-', t.contains '+', t.contains ' ', t.contains '#', t.contains '0'⟩

/-- A key up to the bracket that closes it, with `depth` brackets open within it. -/
def keyText (depth : Nat) : Text → Except MessageError (Text × Text)
  | [] => .error .incompleteKey
  | c :: r =>
    if c = ')' then
      match depth with
      | 0 => .ok ([], r)
      | n + 1 => (keyText n r).map fun (k, t) => (c :: k, t)
    else (keyText (if c = '(' then depth + 1 else depth) r).map fun (k, t) => (c :: k, t)

def keyPart (args : Arguments) : Text → Except MessageError (Arguments × Text)
  | '(' :: r =>
    match args with
    | .sequence _ => .error .noMapping
    | .mapping .. => do
      let (k, t) ← keyText 0 r
      let args ← args.select k
      return (args, t)
  | t => .ok (args, t)

/-- A number of digits not above `bound`. -/
def digitsWithin (bound : Nat) (e : MessageError) (ds : Text) : Except MessageError Nat :=
  let n := Text.natOfDigits ds
  if bound < n then .error e else .ok n

/-- A width: digits, or `*` for the next argument, where a negative one fills up on the right. -/
def widthPart (flags : Flags) (args : Arguments) (t : Text) :
    Except MessageError (Flags × Nat × Arguments × Text) :=
  match t with
  | '*' :: r => do
    let (v, args) ← args.take
    match v.whole? with
    | none => .error .countNoInt
    | some i =>
      if i < -(Number.twoTo 63 : Int) ∨ (Number.twoTo 63 : Int) ≤ i then
        .error (.countTooLarge "ssize_t".toList)
      else return (if i < 0 then { flags with left := true } else flags, i.natAbs, args, r)
  | t => do
    let n ← digitsWithin (Number.twoTo 63 - 1) .widthTooLarge (t.takeWhile Char.isDigit)
    return (flags, n, args, t.dropWhile Char.isDigit)

/-- A precision behind a point: digits, none for zero, or `*` for the next argument. -/
def precisionPart (args : Arguments) :
    Text → Except MessageError (Option Nat × Arguments × Text)
  | '.' :: '*' :: r => do
    let (v, args) ← args.take
    match v.whole? with
    | none => .error .countNoInt
    | some i =>
      if i < -(Number.twoTo 31 : Int) ∨ (Number.twoTo 31 : Int) ≤ i then
        .error (.countTooLarge "int".toList)
      else return (some i.toNat, args, r)
  | '.' :: r => do
    let n ← digitsWithin (Number.twoTo 31 - 1) .precisionTooLarge (r.takeWhile Char.isDigit)
    return (some n, args, r.dropWhile Char.isDigit)
  | t => .ok (none, args, t)

/-- A mark for the size of a number, which says nothing. -/
def dropSizeMark : Text → Text
  | c :: r => if c = 'h' ∨ c = 'l' ∨ c = 'L' then r else c :: r
  | [] => []

/-! ## the text of an argument -/

/-- A text in three parts, so that zeros can be filled in before the last. -/
structure Shown where
  sign : Text := []
  base : Text := []
  body : Text
  numeric : Bool := false

def signOf (flags : Flags) (negative : Bool) : Text :=
  if negative then ['-'] else if flags.plus then ['+'] else if flags.blank then [' '] else []

/-- A whole number in the base of a kind, with at least as many digits as the precision. -/
def shownWhole (flags : Flags) (precision : Option Nat) (kind : Char) (i : Int) : Shown :=
  let base := if kind = 'o' then 8 else if kind = 'x' ∨ kind = 'X' then 16 else 10
  let ds := Text.padded '0' (precision.getD 0) (Nat.toDigits base i.natAbs)
  { sign := signOf flags (decide (i < 0))
    base := if flags.alternate && base != 10 then ['0', kind] else []
    body := if kind = 'X' then ds.map Char.toUpper else ds
    numeric := true }

/-- The whole part of a number, toward zero. -/
def truncated : Value → Option (Except MessageError Int)
  | .float .nan => some (.error .nanNotWhole)
  | .float (.infinite _) => some (.error .infinityNotWhole)
  | .float (.finite s m e) =>
    let (n, d) := Binary64.ratio m e
    some (.ok (if s then -((n / d : Nat) : Int) else (n / d : Nat)))
  | v => v.whole?.map .ok

/-- A number of the kinds `e`, `f` and `g`. -/
def shownReal (flags : Flags) (precision : Option Nat) (kind : Char) (x : Binary64) : Shown :=
  let places := precision.getD 6
  let body : Text :=
    match x with
    | .nan => "nan".toList
    | .infinite _ => "inf".toList
    | .finite _ m e =>
      let (n, d) := Binary64.ratio m e
      if kind.toLower = 'e' then Number.scientificText flags.alternate places n d
      else if kind.toLower = 'f' then Number.fixedText flags.alternate places n d
      else Number.generalText flags.alternate places n d
  { sign := signOf flags x.isNegative
    body := if kind.isUpper then body.map Char.toUpper else body
    numeric := true }

def real? : Value → Except MessageError Binary64
  | .float x => .ok x
  | v =>
    match v.whole? with
    | none => .error (.needsReal v.kindName)
    | some i =>
      match Binary64.ofInt i with
      | .infinite _ => .error .wholeTooLarge
      | x => .ok x

def character? : Value → Except MessageError Char
  | .text [c] => .ok c
  | v =>
    match v.whole? with
    | none => .error .needsCharacter
    | some i =>
      if 0 ≤ i ∧ i < 0x110000 then
        .ok ((CodePoint.ofNat i.toNat).standIn CodePoint.firstStandIn)
      else .error .noCodePoint

/-- What an argument becomes under a directive of the given kind. -/
def shown (flags : Flags) (precision : Option Nat) (kind : Char) (index : Nat) (v : Value) :
    Except MessageError Shown :=
  let cut (t : Text) : Text := match precision with
    | some n => t.take n
    | none => t
  if kind = 's' then .ok { body := cut v.display }
  else if kind = 'r' then .ok { body := cut v.written }
  else if kind = 'a' then .ok { body := cut v.writtenAscii }
  else if kind = 'd' ∨ kind = 'i' ∨ kind = 'u' then
    match truncated v with
    | none => .error (.needsNumber kind v.kindName)
    | some r => r.map (shownWhole flags precision kind)
  else if kind = 'o' ∨ kind = 'x' ∨ kind = 'X' then
    match v.whole? with
    | none => .error (.needsWhole kind v.kindName)
    | some i => .ok (shownWhole flags precision kind i)
  else if "eEfFgG".toList.contains kind then (real? v).map (shownReal flags precision kind)
  else if kind = 'c' then (character? v).map fun c => { body := [c] }
  else .error (.unsupported kind index)

/-- Fills up to the width: on the right, with zeros behind the sign, or in front. -/
def laidOut (flags : Flags) (width : Nat) (s : Shown) : Text :=
  let front := s.sign ++ s.base
  let missing := width - (front.length + s.body.length)
  if flags.left then front ++ s.body ++ List.replicate missing ' '
  else if flags.zero && s.numeric then front ++ List.replicate missing '0' ++ s.body
  else List.replicate missing ' ' ++ front ++ s.body

/-! ## filling -/

/-- One directive behind its `%`, in a pattern of `length` characters: its text, the arguments
left, and what follows. -/
def directive (length : Nat) (args : Arguments) (t : Text) :
    Except MessageError (Text × Arguments × Text) := do
  let (args, t) ← keyPart args t
  let flags := Flags.ofText (t.takeWhile isFlag)
  let (flags, width, args, t) ← widthPart flags args (t.dropWhile isFlag)
  let (precision, args, t) ← precisionPart args t
  match dropSizeMark t with
  | [] => .error .incomplete
  | kind :: r =>
    let (v, args) ← args.take
    let s ← shown flags precision kind (length - r.length - 1) v
    return (laidOut flags width s, args, r)

/-- Fills a pattern of which no more than `n` characters are left; `length` is that of the whole
pattern. -/
def fillFrom (length : Nat) : Nat → Arguments → Text → Except MessageError Text
  | 0, args, _ => if args.hasRest then .error .tooMany else .ok []
  | _ + 1, args, [] => if args.hasRest then .error .tooMany else .ok []
  | n + 1, args, '%' :: '%' :: r => (fillFrom length n args r).map ('%' :: ·)
  | n + 1, args, c :: r =>
    if c = '%' then do
      let (t, args, r) ← directive length args r
      let rest ← fillFrom length n args r
      return t ++ rest
    else (fillFrom length n args r).map (c :: ·)

/-- The message with its arguments filled in; without arguments the pattern itself. -/
def fill (pattern : Text) (args : List Value) : Except MessageError Text :=
  match args with
  | [] => .ok pattern
  | args => fillFrom pattern.length pattern.length (.ofList args) pattern

theorem fill_nil (pattern : Text) : fill pattern [] = .ok pattern := rfl

end Message
end Citations
