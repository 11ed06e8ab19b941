import Citations.Number.Shortest
import Citations.Text.Quoted
import Citations.Value.Basic

/-!
# Values as text

* `Value.written`   a value as it stands inside another: texts and bytes in quotes;
* `Value.display`   a value as it stands in a citation: a text is itself.
-/

namespace Citations
namespace Value

/-- A tuple of one has a comma behind its member. -/
def tupleText : List Text → Text
  | [p] => '(' :: p ++ [',', ')']
  | ps => '(' :: Text.joined [',', ' '] ps ++ [')']

mutual

def written : Value → Text
  | .null => "None".toList
  | .bool true => "True".toList
  | .bool false => "False".toList
  | .int i => Text.ofInt i.val
  | .float x => x.text
  | .text t => Text.quoted t
  | .unpaired ps => CodePoint.quoted ps
  | .bytes bs => Text.quotedBytes bs
  | .list vs => '[' :: Text.joined [',', ' '] (writtenAll vs) ++ [']']
  | .tuple vs => tupleText (writtenAll vs)
  | .dict es => '{' :: Text.joined [',', ' '] (writtenEntries es) ++ ['}']

def writtenAll : List Value → List Text
  | [] => []
  | v :: vs => written v :: writtenAll vs

def writtenEntries : List (Value × Value) → List Text
  | [] => []
  | (k, v) :: r => (written k ++ ':' :: ' ' :: written v) :: writtenEntries r

end

def display : Value → Text
  | .text t => t
  | .unpaired ps => ps.map (CodePoint.standIn CodePoint.firstStandIn)
  | v => written v

theorem display_text (t : Text) : display (.text t) = t := rfl

/-- The text of a value with everything beyond the first 128 code points by its code point. -/
def writtenAscii (v : Value) : Text :=
  (written v).flatMap fun c => if c.toNat < 128 then [c] else Text.codePoint c.toNat

end Value
end Citations
