import Citations.Log.Note
import Citations.Options
import Citations.Placeholder.Fill
import Citations.Render.Resolve
import Citations.Template.Escape
import Citations.Template.Span
import Citations.Template.Token

/-!
# One pass over a text

A pass resolves the innermost layer of every top-level fragment.  A leaf becomes its text with the
escaped value in the place of its first token, or nothing; a fragment around others keeps its
brackets around what a pass makes of its interior.  Each such fragment text is then replaced by
its resolution wherever it occurs in the text.

* `expand`      the interior of a leaf;
* `passAt`      the whole text, with what stands in front of each scan and what a leaf becomes as
                arguments, by the number of fragments around them;
* `passWith`    the same with nothing in front and leaves alike at all depths;
* `pass`        the whole text, its leaves filled by `expand`;
* `pass_eq`     the equation of `pass`.
-/

namespace Citations
namespace Render

/-- What a pass reads: the data, the options, and where things lie that a placeholder shows. -/
structure Context where
  data : Entries
  options : Options
  memory : Memory := .blank

def Context.resolve (c : Context) (key : Text) : Text :=
  Render.resolve c.data c.options.comboSeparator key

def escape (value : Text) : Text := Escaper.syntaxSigns.escape value

/-- The note, if the options ask for notes. -/
def noteIf {ε : Type} (c : Context) (n : Note) : Noted ε Unit :=
  Noted.tell (if c.options.debug then [n] else [])

/-- The interior of a leaf with its token resolved. -/
def expand (c : Context) (segment : Text) : Noted PlaceholderError Text := do
  noteIf c (.segment segment)
  match Template.firstToken? segment with
  | none => return segment
  | some k =>
    let value := c.resolve k.key
    if value ≠ [] then return k.filledWith (escape value)
    else if c.options.debug then do
      noteIf c (.unresolved k.key)
      let shown ← Noted.ofExcept (Placeholder.fill c.memory c.options.placeholder k.key)
      return k.filledWith shown
    else return []

/-! ## the fragments of a pass -/

/-- The different texts of the top-level fragments that hold an `@`, in the order in which they
first occur. -/
def openTexts (t : Text) : List Text :=
  (((Template.fragments t).filter (·.kind ≠ .literal)).map (·.text)).eraseDups

theorem mem_openTexts_iff {t f : Text} :
    f ∈ openTexts t ↔ '@' ∈ f ∧ ∃ s ∈ Template.spans t, s.slice t = f := by
  simp only [openTexts, List.mem_eraseDups, List.mem_map, List.mem_filter]
  constructor
  · rintro ⟨g, ⟨hg, hk⟩, rfl⟩
    obtain ⟨s, hs, rfl⟩ := List.mem_map.mp hg
    refine ⟨?_, s, hs, rfl⟩
    have : ¬ Template.kindOf (s.slice t) = .literal := by simpa using hk
    rw [Template.kindOf_eq_literal_iff] at this
    exact Classical.not_not.mp this
  · rintro ⟨ha, s, hs, rfl⟩
    refine ⟨⟨s, s.slice t, Template.kindOf (s.slice t)⟩, ⟨List.mem_map.mpr ⟨s, hs, rfl⟩, ?_⟩, rfl⟩
    have : ¬ Template.kindOf (s.slice t) = .literal := by
      rw [Template.kindOf_eq_literal_iff]
      exact fun h => h ha
    simpa using this

theorem length_interior_lt {t f : Text} (h : f ∈ openTexts t) :
    (Template.interior f).length < t.length := by
  obtain ⟨ha, s, _, rfl⟩ := mem_openTexts_iff.mp h
  have h1 := s.length_slice_le t
  have h2 : 0 < (s.slice t).length := List.length_pos_of_mem ha
  rw [Template.length_interior]
  omega

/-- Around what a pass makes of an interior the brackets stay. -/
def bracketed (t : Text) : Text := '{' :: t ++ ['}']

/-! ## the pass -/

section
variable {ε : Type}

section
variable (scan : Nat → Text → Noted ε Unit) (leaf : Nat → Text → Noted ε Text)

/-- A pass over a text that has `depth` fragments around it. -/
def passAt (depth : Nat) (t : Text) : Noted ε Text := do
  scan depth t
  let solved ← (openTexts t).attach.mapM fun ⟨f, _h⟩ => do
    let new ←
      if Template.isNested f then bracketed <$> passAt (depth + 1) (Template.interior f)
      else leaf depth (Template.interior f)
    return (f, new)
  return Text.replaceAll solved t
termination_by t.length
decreasing_by exact length_interior_lt _h

/-- A fragment text with its resolution, `depth` fragments around it. -/
def solveAt (depth : Nat) (f : Text) : Noted ε (Text × Text) := do
  let new ←
    if Template.isNested f then bracketed <$> passAt scan leaf (depth + 1) (Template.interior f)
    else leaf depth (Template.interior f)
  return (f, new)

theorem passAt_eq (depth : Nat) (t : Text) :
    passAt scan leaf depth t = (do
      scan depth t
      let solved ← (openTexts t).mapM (solveAt scan leaf depth)
      return Text.replaceAll solved t) := by
  rw [passAt, List.mapM_subtype (g := solveAt scan leaf depth) (fun _ _ => rfl),
    List.unattach_attach]

end

theorem mapM_congr {α β : Type} {f g : α → Noted ε β} {as : List α} (h : ∀ a ∈ as, f a = g a) :
    as.mapM f = as.mapM g := by
  induction as with
  | nil => rfl
  | cons a as ih =>
    obtain ⟨ha, has⟩ := List.forall_mem_cons.mp h
    rw [List.mapM_cons, List.mapM_cons, ha, ih has]

variable (leaf : Text → Noted ε Text)

/-- A pass whose scans and leaves do not depend on the fragments around them. -/
def passWith (t : Text) : Noted ε Text := passAt (fun _ _ => return ()) (fun _ => leaf) 0 t

/-- A fragment text with its resolution. -/
def solveWith (f : Text) : Noted ε (Text × Text) := do
  let new ←
    if Template.isNested f then bracketed <$> passWith leaf (Template.interior f)
    else leaf (Template.interior f)
  return (f, new)

theorem passAt_const (depth : Nat) (t : Text) :
    passAt (fun _ _ => return ()) (fun _ => leaf) depth t = passWith leaf t := by
  suffices h : ∀ depth', passAt (fun _ _ => return ()) (fun _ => leaf) depth t =
      passAt (fun _ _ => return ()) (fun _ => leaf) depth' t from h 0
  induction hl : t.length using Nat.strongRecOn generalizing t depth with
  | ind n ih =>
    intro depth'
    have hsolve : ∀ f ∈ openTexts t,
        solveAt (fun _ _ => return ()) (fun _ => leaf) depth f =
          solveAt (fun _ _ => return ()) (fun _ => leaf) depth' f := by
      intro f hf
      unfold solveAt
      rw [ih _ (hl ▸ length_interior_lt hf) (depth + 1) (Template.interior f) rfl (depth' + 1)]
    rw [passAt_eq, passAt_eq, mapM_congr hsolve]

theorem passWith_eq (t : Text) :
    passWith leaf t = (do
      let solved ← (openTexts t).mapM (solveWith leaf)
      return Text.replaceAll solved t) := by
  have hsolve : solveAt (fun _ _ => return ()) (fun _ => leaf) 0 = solveWith leaf := by
    funext f
    unfold solveAt solveWith
    rw [passAt_const]
  rw [passWith, passAt_eq, pure_bind, hsolve]

end

def pass (c : Context) (t : Text) : Noted PlaceholderError Text := passWith (expand c) t

/-- A fragment text with its resolution by `expand`. -/
def solve (c : Context) (f : Text) : Noted PlaceholderError (Text × Text) := solveWith (expand c) f

theorem pass_eq (c : Context) (t : Text) :
    pass c t = (do
      let solved ← (openTexts t).mapM (solve c)
      return Text.replaceAll solved t) :=
  passWith_eq (expand c) t

theorem solve_eq (c : Context) (f : Text) :
    solve c f = (do
      let new ←
        if Template.isNested f then bracketed <$> pass c (Template.interior f)
        else expand c (Template.interior f)
      return (f, new)) := rfl

end Render
end Citations
