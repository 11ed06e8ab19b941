import Citations.Text.Basic

/-!
# Classes of characters by their boundaries

A class is given by the increasing list of the code points at which membership changes, starting
outside.  `flips` reads such a list.
-/

namespace Citations
namespace Text

/-- Whether an odd number of the boundaries lie at or below `n`. -/
def flips (n : Nat) : List Nat → Bool
  | [] => false
  | b :: bs => decide (b ≤ n) && !flips n bs

end Text
end Citations
