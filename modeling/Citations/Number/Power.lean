/-!
# Powers of two and of ten

* `twoTo`, `tenTo`   the powers;
* `tenTo_succ`, `twoTo_pos`, `tenTo_pos`.
-/

namespace Citations
namespace Number

def twoTo (k : Nat) : Nat := Nat.pow 2 k

def tenTo (k : Nat) : Nat := Nat.pow 10 k

theorem tenTo_succ (k : Nat) : tenTo (k + 1) = tenTo k * 10 := rfl

theorem twoTo_pos (k : Nat) : 0 < twoTo k := Nat.two_pow_pos k

theorem tenTo_pos (k : Nat) : 0 < tenTo k := Nat.pow_pos (by decide)

end Number
end Citations
