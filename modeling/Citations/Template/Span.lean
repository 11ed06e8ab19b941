import Citations.Template.Sign

/-!
# The top-level fragments of a text

One scan keeps the positions of the open brackets.  A fragment ends at the `}` that closes the last
of them, and starts at that; a `}` that closes nothing is left alone, and what is never closed yields
nothing.

* `Span`              the first and the last position of a fragment, brackets included;
* `spans t`           the spans of the top-level fragments of `t`, from left to right;
* `spansFrom`         the scan by the number of open brackets and the first of them, all that counts;
* `spans_eq`          both scans find the same spans;
* `Fragment`          a span with its text and kind;
* `Fragment.Kind`     literal (no `@` at all), nested (an unescaped `{` behind its own), or leaf.
-/

namespace Citations

/-- The first and the last position of a fragment. -/
structure Span where
  first : Nat
  last : Nat
  deriving DecidableEq, Repr

def Span.slice (s : Span) (t : Text) : Text := (t.take (s.last + 1)).drop s.first

theorem Span.slice_eq_between (s : Span) (t : Text) :
    s.slice t = t.between s.first (s.last + 1 : Nat) := by
  rw [Text.between_ofNat, Span.slice]

theorem Span.length_slice_le (s : Span) (t : Text) : (s.slice t).length ≤ t.length := by
  simp only [Span.slice, List.length_drop, List.length_take]
  omega

namespace Template

/-! ## spans -/

/-- The spans from position `i` on, where brackets stand open at these positions, the innermost
first. -/
def scan (opened : List Nat) (i : Nat) : List Sign → List Span
  | [] => []
  | .opening :: r => scan (i :: opened) (i + 1) r
  | .closing :: r =>
    match opened with
    | [] => scan [] (i + 1) r
    | [start] => ⟨start, i⟩ :: scan [] (i + 1) r
    | _ :: outer => scan outer (i + 1) r
  | .token :: r => scan opened (i + 1) r
  | .plain :: r => scan opened (i + 1) r

def spans (t : Text) : List Span := scan [] 0 (signs false t)

theorem spans_nil : spans [] = [] := rfl

/-- The spans from position `i` on, at bracket depth `depth` in a fragment begun at `start`. -/
def spansFrom (depth start i : Nat) : List Sign → List Span
  | [] => []
  | .opening :: r => spansFrom (depth + 1) (if depth = 0 then i else start) (i + 1) r
  | .closing :: r =>
    if depth = 1 then ⟨start, i⟩ :: spansFrom 0 start (i + 1) r
    else spansFrom (depth - 1) start (i + 1) r
  | .token :: r => spansFrom depth start (i + 1) r
  | .plain :: r => spansFrom depth start (i + 1) r

/-- Of the open brackets only their number and the outermost count; where none is open, no start
does. -/
theorem scan_eq_spansFrom (opened : List Nat) (start i : Nat) (ss : List Sign) :
    scan opened i ss = spansFrom opened.length (opened.getLastD start) i ss := by
  induction ss generalizing opened start i with
  | nil => rfl
  | cons s r ih =>
    cases s with
    | opening =>
      rw [scan, spansFrom, ih (i :: opened) start]
      cases opened <;> rfl
    | closing =>
      match opened with
      | [] => exact ih [] start (i + 1)
      | [first] => exact congrArg _ (ih [] first (i + 1))
      | _ :: b :: outer => exact ih (b :: outer) start (i + 1)
    | token | plain => exact ih opened start (i + 1)

theorem spans_eq (t : Text) : spans t = spansFrom 0 0 0 (signs false t) :=
  scan_eq_spansFrom [] 0 0 (signs false t)

def depthFrom (depth : Nat) : List Sign → Nat
  | [] => depth
  | .opening :: r => depthFrom (depth + 1) r
  | .closing :: r => depthFrom (depth - 1) r
  | .token :: r => depthFrom depth r
  | .plain :: r => depthFrom depth r

theorem depthFrom_append (depth : Nat) (a b : List Sign) :
    depthFrom depth (a ++ b) = depthFrom (depthFrom depth a) b := by
  induction a generalizing depth with
  | nil => rfl
  | cons s r ih => cases s <;> exact ih _

/-! ## fragments -/

/-- Without an `@` there is nothing to resolve, be it escaped or not. -/
def isLiteral (t : Text) : Bool := !t.contains '@'

/-- Whether an unescaped `{` stands behind the first character. -/
def isNested (t : Text) : Bool := ((signs false t).drop 1).contains .opening

/-- The text without its first and last character, which are its brackets. -/
def interior (t : Text) : Text := (t.drop 1).dropLast

theorem length_interior (t : Text) : (interior t).length = t.length - 2 := by
  simp only [interior, List.length_dropLast, List.length_drop]
  omega

end Template

/-- What a fragment holds. -/
inductive Fragment.Kind where
  | literal
  | leaf
  | nested
  deriving DecidableEq, Repr

structure Fragment where
  span : Span
  text : Text
  kind : Fragment.Kind
  deriving DecidableEq, Repr

namespace Template

def kindOf (t : Text) : Fragment.Kind :=
  if isLiteral t then .literal else if isNested t then .nested else .leaf

theorem kindOf_eq_literal_iff {t : Text} : kindOf t = .literal ↔ '@' ∉ t := by
  by_cases h : '@' ∈ t
  · simp only [kindOf, isLiteral, List.contains_iff_mem.mpr h]
    by_cases hn : isNested t = true <;> simp [hn, h]
  · simp [kindOf, isLiteral, h]

/-- The top-level fragments of a text, each with its kind. -/
def fragments (t : Text) : List Fragment :=
  (spans t).map fun s => ⟨s, s.slice t, kindOf (s.slice t)⟩

theorem fragments_nil : fragments [] = [] := rfl

/-- A fragment's text is a part of the text it was found in. -/
theorem length_text_le {t : Text} {f : Fragment} (h : f ∈ fragments t) :
    f.text.length ≤ t.length := by
  obtain ⟨s, _, rfl⟩ := List.mem_map.mp h
  exact s.length_slice_le t

end Template

def Fragment.interior (f : Fragment) : Text := Template.interior f.text

end Citations
