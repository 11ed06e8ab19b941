import Citations.Text.Replace

/-!
# Escaping inserted values

A value that is put into a template must not be read as template syntax: each special character
gets a backslash in front, and a backslash of the value itself is parked on a code point of its
own, so that it cannot escape the character that follows the value.  `unescape` undoes both.

* `Escaper`                the special texts, in the order in which they are replaced;
* `Escaper.syntaxSigns`    the three characters of the template syntax;
* `Escaper.escape`, `Escaper.unescape`.
-/

namespace Citations

/-- The texts that get a backslash in front. -/
structure Escaper where
  specials : List Text
  deriving DecidableEq, Repr

namespace Escaper

/-- The code point that stands for a backslash of a value. -/
def parked : Char := Char.ofNat 0xe000

/-- The brackets and the token sign. -/
def syntaxSigns : Escaper := ⟨[['{'], ['}'], ['@']]⟩

def escapePairs (e : Escaper) : List (Text × Text) :=
  e.specials.map fun s => (s, '\\' :: s)

def unescapePairs (e : Escaper) : List (Text × Text) :=
  e.specials.map fun s => ('\\' :: s, s)

/-- First every backslash is parked, then each special in turn gets a backslash. -/
def escape (e : Escaper) (value : Text) : Text :=
  Text.replaceAll e.escapePairs (Text.replace ['\\'] [parked] value)

/-- Each special in turn loses its backslash, then the parked backslashes come back. -/
def unescape (e : Escaper) (t : Text) : Text :=
  Text.replace [parked] ['\\'] (Text.replaceAll e.unescapePairs t)

theorem escape_no_specials (t : Text) :
    escape ⟨[]⟩ t = Text.replace ['\\'] [parked] t := rfl
theorem unescape_no_specials (t : Text) :
    unescape ⟨[]⟩ t = Text.replace [parked] ['\\'] t := rfl

end Escaper
end Citations
