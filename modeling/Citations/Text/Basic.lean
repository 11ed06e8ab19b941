/-!
# Texts

A text is the list of its code points, so every position, column and length is counted in code
points.

* `Text.between`   the part from one index to another, an index below zero counted from the end;
* `Text.joined`    the parts of a list with a separator between neighbours;
* `Text.splitAt`   the parts between the occurrences of a character;
* `Text.cutAt`     the two sides of the first occurrence of a character, if there is one;
* `Text.padded`    a text filled up to a width;
* `Text.isUpTo`    the order of texts by code points.
-/

namespace Citations

/-- A text, code point by code point. -/
abbrev Text := List Char

namespace Text

/-! ## parts -/

/-- An index counted from the front; one below zero counts from the end and stops at the front. -/
def place (length : Nat) (i : Int) : Nat :=
  if i < 0 then (i + length).toNat else i.toNat

/-- The characters from index `start` up to but not including index `stop`. -/
def between (t : Text) (start stop : Int) : Text :=
  (t.take (place t.length stop)).drop (place t.length start)

theorem between_ofNat (t : Text) (a b : Nat) : t.between a b = (t.take b).drop a := by
  simp [between, place, show ¬ ((a : Int) < 0) by omega, show ¬ ((b : Int) < 0) by omega]

/-- The parts between the occurrences of `c`; there is always at least one part. -/
def splitAt (c : Char) : Text → List Text
  | [] => [[]]
  | d :: r =>
    if d = c then [] :: splitAt c r
    else match splitAt c r with
      | [] => [[d]]
      | p :: ps => (d :: p) :: ps

theorem splitAt_nil (c : Char) : splitAt c [] = [[]] := rfl

theorem splitAt_cons_self (c : Char) (r : Text) : splitAt c (c :: r) = [] :: splitAt c r := by
  simp [splitAt]

theorem splitAt_ne_nil (c : Char) (t : Text) : splitAt c t ≠ [] := by
  cases t with
  | nil => simp [splitAt]
  | cons d r =>
    rw [splitAt]
    split
    · simp
    · split <;> simp

theorem splitAt_of_not_mem {c : Char} {t : Text} (h : c ∉ t) : splitAt c t = [t] := by
  induction t with
  | nil => rfl
  | cons d r ih =>
    have hd : d ≠ c := fun e => h (e ▸ List.mem_cons_self)
    rw [splitAt, if_neg hd, ih fun hm => h (List.mem_cons_of_mem _ hm)]

theorem splitAt_append (c : Char) (s t : Text) :
    splitAt c (s ++ c :: t) = splitAt c s ++ splitAt c t := by
  induction s with
  | nil => exact splitAt_cons_self c t
  | cons d s ih =>
    by_cases hd : d = c
    · rw [List.cons_append, hd, splitAt_cons_self, splitAt_cons_self, ih, List.cons_append]
    · rw [List.cons_append, splitAt, if_neg hd, ih, splitAt, if_neg hd]
      cases hs : splitAt c s with
      | nil => exact absurd hs (splitAt_ne_nil c s)
      | cons p ps => rfl

/-- The text before and after the first `c`. -/
def cutAt (c : Char) : Text → Option (Text × Text)
  | [] => none
  | d :: r =>
    if d = c then some ([], r)
    else (cutAt c r).map fun (a, b) => (d :: a, b)

theorem cutAt_append {c : Char} {t : Text} (h : c ∉ t) (r : Text) :
    cutAt c (t ++ c :: r) = some (t, r) := by
  induction t with
  | nil => exact if_pos rfl
  | cons d t ih =>
    rw [List.mem_cons, not_or] at h
    rw [List.cons_append, cutAt, if_neg (Ne.symm h.1), ih h.2]
    rfl

theorem eq_of_cutAt {c : Char} {t a r : Text} (h : cutAt c t = some (a, r)) :
    t = a ++ c :: r ∧ c ∉ a := by
  induction t generalizing a with
  | nil => cases h
  | cons d t ih =>
    rw [cutAt] at h
    split at h
    · next hd =>
      cases h
      exact ⟨by rw [hd]; rfl, List.not_mem_nil⟩
    · next hd =>
      obtain ⟨⟨b, r'⟩, hb, hcons⟩ := Option.map_eq_some_iff.mp h
      cases hcons
      obtain ⟨ht, hc⟩ := ih hb
      refine ⟨by rw [ht]; rfl, ?_⟩
      rw [List.mem_cons, not_or]
      exact ⟨Ne.symm hd, hc⟩

/-- The parts in order with `sep` between neighbours. -/
def joined (sep : Text) : List Text → Text
  | [] => []
  | [p] => p
  | p :: q :: r => p ++ sep ++ joined sep (q :: r)

theorem joined_nil (sep : Text) : joined sep [] = [] := rfl
theorem joined_singleton (sep p : Text) : joined sep [p] = p := rfl
theorem joined_cons_cons (sep p q : Text) (r : List Text) :
    joined sep (p :: q :: r) = p ++ sep ++ joined sep (q :: r) := rfl

theorem joined_append (sep : Text) {ps qs : List Text} (hp : ps ≠ []) (hq : qs ≠ []) :
    joined sep (ps ++ qs) = joined sep ps ++ sep ++ joined sep qs := by
  induction ps with
  | nil => exact absurd rfl hp
  | cons p ps ih =>
    cases ps with
    | nil =>
      obtain ⟨q, qs, rfl⟩ := List.exists_cons_of_ne_nil hq
      rfl
    | cons p' ps =>
      have ih := ih (List.cons_ne_nil p' ps)
      simp only [List.cons_append] at ih
      simp only [List.cons_append, joined_cons_cons, ih, List.append_assoc]

/-- With nothing empty among the parts the whole is empty only if there are no parts. -/
theorem joined_eq_nil_iff (sep : Text) {ps : List Text} (h : ∀ p ∈ ps, p ≠ []) :
    joined sep ps = [] ↔ ps = [] := by
  cases ps with
  | nil => simp [joined]
  | cons p ps =>
    have hp := h p List.mem_cons_self
    cases ps with
    | nil => simp [joined, hp]
    | cons q qs => simp [joined, hp]

/-! ## the longest part in front -/

section
variable {p : Char → Bool} {s t : Text}

theorem takeWhile_append_of_ends (hs : ∀ c ∈ s, p c = true) (ht : ∀ c ∈ t.head?, p c = false) :
    (s ++ t).takeWhile p = s := by
  rw [List.takeWhile_append_of_pos hs]
  cases t with
  | nil => rw [List.takeWhile_nil, List.append_nil]
  | cons c t =>
    rw [List.takeWhile_cons_of_neg (Bool.not_eq_true _ ▸ ht c rfl), List.append_nil]

theorem dropWhile_append_of_ends (hs : ∀ c ∈ s, p c = true) (ht : ∀ c ∈ t.head?, p c = false) :
    (s ++ t).dropWhile p = t := by
  rw [List.dropWhile_append_of_pos hs]
  cases t with
  | nil => rfl
  | cons c t => exact List.dropWhile_cons_of_neg (Bool.not_eq_true _ ▸ ht c rfl)

end

/-! ## width -/

/-- Fills up in front to at least `width` characters. -/
def padded (fill : Char) (width : Nat) (t : Text) : Text :=
  List.replicate (width - t.length) fill ++ t

/-! ## order -/

/-- Whether a text is equal to another or comes before it: the first difference decides, and a
text comes before those that it begins. -/
def isUpTo : Text → Text → Bool
  | [], _ => true
  | _ :: _, [] => false
  | c :: s, d :: t => decide (c.toNat < d.toNat) || (c == d && isUpTo s t)

end Text
end Citations
