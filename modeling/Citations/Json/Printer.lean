import Citations.Value.Written

/-!
# Writing values in the JSON format

On one line, with a blank behind each comma and colon, and every character beyond the first 128
code points as it is, a half of a pair by the character that stands in for it.  Not every value can
be written: bytes cannot, and a key must be a text, a number, a truth value or nothing.

* `Json.WriteError`    why a value cannot be written;
* `Json.quoted`        a text in quotes;
* `Json.print`         a value.
-/

namespace Citations
namespace Json

inductive WriteError where
  | value (kind : Text)
  | key (kind : Text)
  deriving DecidableEq, Repr

def WriteError.message : WriteError → Text
  | .value kind => "Object of type ".toList ++ kind ++ " is not JSON serializable".toList
  | .key kind => "keys must be str, int, float, bool or None, not ".toList ++ kind

/-- The control characters with a letter of their own, the quote and the backslash have short
escapes; other control characters are written by their code point. -/
def escapedChar (c : Char) : Text :=
  if c = '"' then ['\\', '"']
  else if c = '\\' then ['\\', '\\']
  else if c = '\n' then ['\\', 'n']
  else if c = '\r' then ['\\', 'r']
  else if c = '\t' then ['\\', 't']
  else if c = Char.ofNat 8 then ['\\', 'b']
  else if c = Char.ofNat 12 then ['\\', 'f']
  else if c.toNat < 32 then '\\' :: 'u' :: Text.hex 4 c.toNat
  else [c]

def escaped (t : Text) : Text := t.flatMap escapedChar

theorem escaped_nil : escaped [] = [] := rfl
theorem escaped_cons (c : Char) (r : Text) : escaped (c :: r) = escapedChar c ++ escaped r := rfl

def quoted (t : Text) : Text := '"' :: escaped t ++ ['"']

/-- The names of the numbers that have no digits. -/
def numberText : Binary64 → Text
  | .nan => "NaN".toList
  | .infinite true => "-Infinity".toList
  | .infinite false => "Infinity".toList
  | x => x.text

def keyText : Value → Except WriteError Text
  | .text t => .ok t
  | .unpaired ps => .ok (Value.unpaired ps).display
  | .float x => .ok (numberText x)
  | .bool true => .ok "true".toList
  | .bool false => .ok "false".toList
  | .null => .ok "null".toList
  | .int i => .ok (Text.ofInt i.val)
  | v => .error (.key v.kindName)

mutual

def print : Value → Except WriteError Text
  | .null => .ok "null".toList
  | .bool true => .ok "true".toList
  | .bool false => .ok "false".toList
  | .int i => .ok (Text.ofInt i.val)
  | .float x => .ok (numberText x)
  | .text t => .ok (quoted t)
  | .unpaired ps => .ok (quoted (Value.unpaired ps).display)
  | .bytes _ => .error (.value "bytes".toList)
  | .list vs => do
    let ts ← printAll vs
    return '[' :: Text.joined [',', ' '] ts ++ [']']
  | .tuple vs => do
    let ts ← printAll vs
    return '[' :: Text.joined [',', ' '] ts ++ [']']
  | .dict es => do
    let ts ← printEntries es
    return '{' :: Text.joined [',', ' '] ts ++ ['}']

def printAll : List Value → Except WriteError (List Text)
  | [] => .ok []
  | v :: vs => do
    let t ← print v
    let ts ← printAll vs
    return t :: ts

def printEntries : List (Value × Value) → Except WriteError (List Text)
  | [] => .ok []
  | (k, v) :: r => do
    let k ← keyText k
    let t ← print v
    let ts ← printEntries r
    return (quoted k ++ ':' :: ' ' :: t) :: ts

end

end Json
end Citations
