import Citations.Text.Basic

/-!
# Replacing one text by another

`Text.replace old new t` reads `t` from the left and puts `new` in the place of each occurrence
of `old`, never looking into what it has put there and never letting two occurrences overlap.
The empty text occurs before every character and at the end.

* `replace_append_self`, `replace_cons`   the reading step for a non-empty `old`;
* `replace_of_not_infix`                  a text without an occurrence stays as it is.
-/

namespace Citations
namespace Text

/-- Reads on with `skip` characters of the last occurrence still to pass over. -/
def replaceFrom (old new : Text) : Nat → Text → Text
  | _, [] => []
  | skip + 1, _ :: r => replaceFrom old new skip r
  | 0, c :: r =>
    if old.isPrefixOf (c :: r) then new ++ replaceFrom old new (old.length - 1) r
    else c :: replaceFrom old new 0 r

/-- `new` before each character and at the end. -/
def sprinkle (new : Text) (t : Text) : Text :=
  t.flatMap (fun c => new ++ [c]) ++ new

def replace (old new t : Text) : Text :=
  if old = [] then sprinkle new t else replaceFrom old new 0 t

/-! ## one step -/

theorem replaceFrom_nil (old new : Text) (skip : Nat) : replaceFrom old new skip [] = [] := by
  cases skip <;> rfl

theorem replaceFrom_eq_drop (old new : Text) (skip : Nat) (t : Text) :
    replaceFrom old new skip t = replaceFrom old new 0 (t.drop skip) := by
  induction skip generalizing t with
  | zero => simp
  | succ n ih =>
    cases t with
    | nil => simp [replaceFrom_nil]
    | cons c r => rw [replaceFrom, ih r, List.drop_succ_cons]

theorem replace_nil_right {old : Text} (new : Text) (h : old ≠ []) : replace old new [] = [] := by
  simp [replace, h, replaceFrom_nil]

/-- At an occurrence the replacement is written and the reading goes on behind it. -/
theorem replace_append_self {old : Text} (new r : Text) (h : old ≠ []) :
    replace old new (old ++ r) = new ++ replace old new r := by
  cases old with
  | nil => exact absurd rfl h
  | cons a as =>
    have hp : (a :: as).isPrefixOf (a :: (as ++ r)) = true := by
      rw [List.isPrefixOf_iff_prefix]
      exact ⟨r, rfl⟩
    simp only [replace, reduceCtorEq, if_false, List.cons_append]
    rw [replaceFrom, if_pos hp, replaceFrom_eq_drop]
    simp

/-- Where `old` does not start, the character is kept. -/
theorem replace_cons {old : Text} (new : Text) {c : Char} {r : Text} (h : old ≠ [])
    (hp : ¬ old <+: c :: r) : replace old new (c :: r) = c :: replace old new r := by
  have hb : old.isPrefixOf (c :: r) = false := by
    rw [← Bool.not_eq_true, List.isPrefixOf_iff_prefix]
    exact hp
  simp [replace, h, replaceFrom, hb]

theorem replace_of_not_infix {old : Text} (new : Text) {t : Text} (h : ¬ old <:+: t) :
    replace old new t = t := by
  have hne : old ≠ [] := fun e => h (e ▸ List.nil_infix)
  induction t with
  | nil => exact replace_nil_right new hne
  | cons c r ih =>
    rw [replace_cons new hne (fun hp => h hp.isInfix),
      ih (fun hi => h (List.infix_cons hi))]

/-! ## many replacements -/

/-- One replacement after the other, each on the result of those before it. -/
def replaceAll (pairs : List (Text × Text)) (t : Text) : Text :=
  pairs.foldl (fun t p => replace p.1 p.2 t) t

theorem replaceAll_nil (t : Text) : replaceAll [] t = t := rfl
theorem replaceAll_cons (p : Text × Text) (ps : List (Text × Text)) (t : Text) :
    replaceAll (p :: ps) t = replaceAll ps (replace p.1 p.2 t) := rfl
theorem replaceAll_append (ps qs : List (Text × Text)) (t : Text) :
    replaceAll (ps ++ qs) t = replaceAll qs (replaceAll ps t) := by
  simp [replaceAll]

end Text
end Citations
