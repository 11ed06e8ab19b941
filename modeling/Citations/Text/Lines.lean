import Citations.Text.Basic

/-!
# Line ends

However a line ends, in a text that has been read it ends with a line feed alone.
-/

namespace Citations
namespace Text

/-- A carriage return, with or without a line feed behind it, becomes a line feed. -/
def unixLines : Text → Text
  | [] => []
  | '\r' :: '\n' :: r => '\n' :: unixLines r
  | '\r' :: r => '\n' :: unixLines r
  | c :: r => c :: unixLines r

theorem unixLines_nil : unixLines [] = [] := rfl

def lineColumn (t : Text) (position : Nat) : Nat × Nat :=
  let before := t.take position
  (before.count '\n' + 1, (before.reverse.takeWhile (· != '\n')).length + 1)

end Text
end Citations
