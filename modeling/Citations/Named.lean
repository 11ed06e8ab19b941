import Citations.Text.Basic

/-!
# Things under names

A list of things with their names, where a name stands for what was put under it last.

* `Named.find?`       the thing under a name;
* `Named.put`         puts a thing under a name, in the place of what stood there;
* `Named.find?_put`   what is found behind that.
-/

namespace Citations
namespace Named
variable {α : Type}

def find? (name : Text) (xs : List (Text × α)) : Option α :=
  (xs.find? fun x => x.1 == name).map (·.2)

def put (name : Text) (a : α) (xs : List (Text × α)) : List (Text × α) :=
  (name, a) :: xs.filter fun x => x.1 != name

theorem find?_put_self (name : Text) (a : α) (xs : List (Text × α)) :
    find? name (put name a xs) = some a := by
  simp [find?, put]

theorem find?_put_of_ne {name other : Text} (h : other ≠ name) (a : α) (xs : List (Text × α)) :
    find? other (put name a xs) = find? other xs := by
  have hkeep : ∀ x : Text × α,
      decide ((x.1 != name) = true ∧ (x.1 == other) = true) = (x.1 == other) := by
    intro x
    by_cases hx : x.1 = other
    · simp [hx, h]
    · simp [hx]
  have hne : (name == other) = false := beq_false_of_ne (Ne.symm h)
  simp only [find?, put, List.find?_cons, hne, List.find?_filter, hkeep]

theorem find?_put (name other : Text) (a : α) (xs : List (Text × α)) :
    find? other (put name a xs) = if other = name then some a else find? other xs := by
  split
  · next h => rw [h, find?_put_self]
  · next h => exact find?_put_of_ne h a xs

end Named
end Citations
