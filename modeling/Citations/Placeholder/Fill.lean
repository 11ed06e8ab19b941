import Citations.Placeholder.Layout
import Citations.Placeholder.Thing
import Citations.Results

/-!
# Filling a placeholder

A placeholder is text with fields in brackets.  `{key}` stands for the key of the unresolved
token; a doubled bracket stands for itself.  A field may pick characters of the key (`{key[0]}`)
and attributes (`{key.upper}`), ask for quotes (`!r`, `!a`) and give a layout behind a colon, which
may hold fields itself.

* `literal`     the text before the next field;
* `fieldName`, `layoutText`   the parts of a field;
* `subject`     what a field's name stands for;
* `fill`        the whole placeholder.
-/

namespace Citations
namespace Placeholder

/-! ## the parts of a placeholder -/

/-- The literal text at the front, and what follows the bracket of the next field. -/
def literal : Text → Except PlaceholderError (Text × Option Text)
  | [] => .ok ([], none)
  | '{' :: '{' :: r => (literal r).map fun (t, o) => ('{' :: t, o)
  | ['{'] => .error .strayOpening
  | '{' :: r => .ok ([], some r)
  | '}' :: '}' :: r => (literal r).map fun (t, o) => ('}' :: t, o)
  | '}' :: _ => .error .strayClosing
  | c :: r => (literal r).map fun (t, o) => (c :: t, o)

/-- A field's name up to its end mark, the mark, and what follows.  Within square brackets every
character belongs to the name. -/
def fieldName (bracket : Bool) : Text → Except PlaceholderError (Text × Char × Text)
  | [] => .error .unclosedField
  | c :: r =>
    if bracket then (fieldName (c != ']') r).map fun (n, m, t) => (c :: n, m, t)
    else if c = '{' then .error .openingInName
    else if c = '}' ∨ c = ':' ∨ c = '!' then .ok ([], c, r)
    else (fieldName (c == '[') r).map fun (n, m, t) => (c :: n, m, t)

/-- A layout up to the bracket that closes its field, with `open` brackets open within it. -/
def layoutText (opened : Nat) : Text → Except PlaceholderError (Text × Text)
  | [] => .error .unclosedLayout
  | c :: r =>
    if c = '}' then
      match opened with
      | 0 => .ok ([], r)
      | n + 1 => (layoutText n r).map fun (s, t) => (c :: s, t)
    else (layoutText (if c = '{' then opened + 1 else opened) r).map fun (s, t) => (c :: s, t)

/-- A field: its name, the conversion behind `!` and the layout behind `:`. -/
structure Field where
  name : Text
  conversion : Option Char
  layout : Text
  deriving DecidableEq, Repr

/-- Reads a field behind its bracket, and what follows it. -/
def field (t : Text) : Except PlaceholderError (Field × Text) := do
  let (name, mark, r) ← fieldName false t
  if mark = '}' then return (⟨name, none, []⟩, r)
  else if mark = ':' then
    let (layout, r) ← layoutText 0 r
    return (⟨name, none, layout⟩, r)
  else
    match r with
    | [] => .error .missingConversion
    | [_] => .error .unclosedLayout
    | c :: d :: r =>
      if d = '}' then return (⟨name, some c, []⟩, r)
      else if d = ':' then
        let (layout, r) ← layoutText 0 r
        return (⟨name, some c, layout⟩, r)
      else .error .longConversion

/-! ## what each part has read -/

theorem eq_of_literal {t l r : Text} (h : literal t = .ok (l, some r)) : ∃ p, t = p ++ '{' :: r := by
  fun_induction literal t generalizing l with
  | case1 => cases h
  | case2 s ih | case5 s ih =>
    obtain ⟨⟨l', o⟩, hs, heq⟩ := map_eq_ok.mp h
    obtain ⟨-, rfl⟩ := Prod.mk.inj heq
    obtain ⟨p, rfl⟩ := ih hs
    exact ⟨_ :: _ :: p, rfl⟩
  | case3 => cases h
  | case4 s _ =>
    cases h
    exact ⟨[], rfl⟩
  | case6 => cases h
  | case7 c s _ _ _ _ _ ih =>
    obtain ⟨⟨l', o⟩, hs, heq⟩ := map_eq_ok.mp h
    obtain ⟨-, rfl⟩ := Prod.mk.inj heq
    obtain ⟨p, rfl⟩ := ih hs
    exact ⟨c :: p, rfl⟩

theorem eq_of_fieldName {b : Bool} {t n r : Text} {m : Char} (h : fieldName b t = .ok (n, m, r)) :
    t = n ++ m :: r := by
  induction t generalizing b n with
  | nil => cases h
  | cons c s ih =>
    have step : ∀ b', (fieldName b' s).map (fun (n, m, t) => (c :: n, m, t)) = .ok (n, m, r) →
        c :: s = n ++ m :: r := by
      intro b' h'
      obtain ⟨⟨n', m', r'⟩, hs, heq⟩ := map_eq_ok.mp h'
      cases heq
      rw [ih hs, List.cons_append]
    rw [fieldName] at h
    split at h
    · exact step _ h
    · split at h
      · cases h
      · split at h
        · cases h
          rfl
        · exact step _ h

theorem eq_of_layoutText {k : Nat} {t s r : Text} (h : layoutText k t = .ok (s, r)) :
    t = s ++ '}' :: r := by
  induction t generalizing k s with
  | nil => cases h
  | cons c u ih =>
    have step : ∀ k', (layoutText k' u).map (fun (s, t) => (c :: s, t)) = .ok (s, r) →
        c :: u = s ++ '}' :: r := by
      intro k' h'
      obtain ⟨⟨s', r'⟩, hs, heq⟩ := map_eq_ok.mp h'
      cases heq
      rw [ih hs, List.cons_append]
    rw [layoutText.eq_def] at h
    simp only at h
    split at h
    · next hc =>
      split at h
      · cases h
        rw [hc, List.nil_append]
      · exact step _ h
    · exact step _ h

theorem eq_of_field {t r : Text} {f : Field} (h : field t = .ok (f, r)) :
    ∃ p, t = f.name ++ p ++ f.layout ++ '}' :: r := by
  rw [field] at h
  obtain ⟨⟨n, m, u⟩, hn, h⟩ := bind_eq_ok.mp h
  rw [eq_of_fieldName hn]
  dsimp only at h
  split at h
  · next hm =>
    cases h
    exact ⟨[], by simp [hm]⟩
  · split at h
    · obtain ⟨a, ha, heq⟩ := bind_eq_ok.mp h
      cases heq
      exact ⟨[m], by simp [eq_of_layoutText ha]⟩
    · split at h
      · cases h
      · cases h
      · next c d v =>
        split at h
        · next hd =>
          cases h
          exact ⟨[m, c], by simp [hd]⟩
        · split at h
          · obtain ⟨a, ha, heq⟩ := bind_eq_ok.mp h
            cases heq
            exact ⟨[m, c, d], by simp [eq_of_layoutText ha]⟩
          · cases h

/-! ## what a field stands for -/

/-- The number that a name is when it holds decimal digits only. -/
def wholeNumber? (t : Text) : Except PlaceholderError (Option Nat) :=
  match Layout.number none t with
  | .error e => .error e
  | .ok (n, []) => .ok n
  | .ok (_, _ :: _) => .ok none

/-- Whether a character belongs to a name. -/
def inName (c : Char) : Bool := c != '.' && c != '['

section
variable (memory : Memory)

/-- The access at the front, which begins with the given character, and what follows it. -/
def access (x : Thing) (c : Char) (r : Text) : Except PlaceholderError (Thing × Text) :=
  if c = '.' then
    let name := r.takeWhile inName
    if name = [] then .error .emptyAccess
    else (x.attributeNamed name).map fun y => (y, r.dropWhile inName)
  else if c = '[' then
    match Text.cutAt ']' r with
    | none => .error .unclosedIndex
    | some (name, r') => do
      let n ← wholeNumber? name
      if name = [] then .error .emptyAccess
      else
        let y ← x.item memory name n
        return (y, r')
  else .error .afterIndex

theorem suffix_of_access {x y : Thing} {c : Char} {r r' : Text}
    (h : access memory x c r = .ok (y, r')) : r' <:+ r := by
  rw [access] at h
  split at h
  · dsimp only at h
    split at h
    · cases h
    · obtain ⟨z, _, heq⟩ := map_eq_ok.mp h
      cases heq
      exact List.dropWhile_suffix _
  · split at h
    · split at h
      · cases h
      · next name r'' hc =>
        have hsuffix : r'' <:+ r := ⟨name ++ [']'], by simp [Text.eq_of_cutAt hc]⟩
        obtain ⟨n, _, h⟩ := bind_eq_ok.mp h
        split at h
        · cases h
        · obtain ⟨z, _, heq⟩ := bind_eq_ok.mp h
          cases heq
          exact hsuffix
    · cases h

/-- All accesses behind a name, one after the other. -/
def accesses (x : Thing) (rest : Text) : Except PlaceholderError Thing :=
  match rest with
  | [] => .ok x
  | c :: r =>
    match _h : access memory x c r with
    | .error e => .error e
    | .ok (y, r') => accesses y r'
termination_by rest.length
decreasing_by
  have := (suffix_of_access memory _h).length_le
  simp only [List.length_cons]
  omega

/-- What a field's name stands for: `key`, or what accesses reach from it. -/
def subject (key name : Text) : Except PlaceholderError Thing := do
  let first := name.takeWhile inName
  match ← wholeNumber? first with
  | some n => .error (.noPosition n)
  | none =>
    if first = [] then .error (.noPosition 0)
    else if first ≠ "key".toList then .error (.unknownName first)
    else accesses memory (.text key) (name.dropWhile inName)

def convert (x : Thing) : Option Char → Except PlaceholderError Thing
  | none => .ok x
  | some 's' => .ok (.text (x.display memory))
  | some 'r' => .ok (.text (x.written memory))
  | some 'a' => .ok (.text (x.writtenAscii memory))
  | some c => .error (.unknownConversion c)

/-- A thing laid out; only texts and numbers have layouts, and a truth value is the number that it
stands for. -/
def laidOut (layout : Text) (x : Thing) : Except PlaceholderError Text :=
  if layout = [] then .ok (x.display memory)
  else
    match x with
    | .text t => do
      let l ← Layout.parse .text layout
      l.ofText t
    | .whole i => do
      let l ← Layout.parse .whole layout
      l.ofWhole .whole i
    | .truth b => do
      let l ← Layout.parse .truth layout
      l.ofWhole .truth b.toNat
    | x => .error (.noLayout x.kindOf.fullName)

/-! ## filling -/

/-- Fills the fields of a placeholder, where `inner` fills those in layouts. -/
def fillWith (inner : Text → Except PlaceholderError Text) (key : Text) (pattern : Text) :
    Except PlaceholderError Text :=
  match _hl : literal pattern with
  | .error e => .error e
  | .ok (before, none) => .ok before
  | .ok (before, some r) =>
    match _hf : field r with
    | .error e => .error e
    | .ok (f, r') => do
      let x ← subject memory key f.name
      let x ← convert memory x f.conversion
      let layout ← if f.layout.contains '{' then inner f.layout else pure f.layout
      let t ← laidOut memory layout x
      let rest ← fillWith inner key r'
      return before ++ t ++ rest
termination_by pattern.length
decreasing_by
  obtain ⟨p, rfl⟩ := eq_of_literal _hl
  obtain ⟨q, rfl⟩ := eq_of_field _hf
  simp only [List.length_append, List.length_cons]
  omega

/-- Fills a placeholder with the key of an unresolved token; the layout of a field may hold
fields, whose own layouts may not. -/
def fill (pattern key : Text) : Except PlaceholderError Text :=
  fillWith memory (fillWith memory (fun _ => .error .tooDeep) key) key pattern

end

end Placeholder
end Citations
