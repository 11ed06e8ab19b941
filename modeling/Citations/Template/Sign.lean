import Citations.Text.Word

/-!
# The signs of a template

A template is plain text with brackets `{ }` around its fragments and `@key` for the tokens in
them.  A character directly after a backslash is escaped and read as plain text.

* `Sign`            what a character is for the scanners;
* `signs esc t`     the signs of the characters of `t`, where `esc` says whether a backslash
                    stands directly before `t`;
* `endsEscaping`    whether a backslash stands at the end of a text;
* `signs_append`    the signs of two texts put together: only the seam matters;
* `startsKey`       whether a text starts with a word character, as it must after the `@` of a
                    token.
-/

namespace Citations

/-- What a character is for the scanners. -/
inductive Sign where
  | opening
  | closing
  | token
  | plain
  deriving DecidableEq, Repr

namespace Template

/-- The sign of a character; an escaped one is plain. -/
def sign (esc : Bool) (c : Char) : Sign :=
  if esc then .plain
  else if c = '{' then .opening
  else if c = '}' then .closing
  else if c = '@' then .token
  else .plain

theorem sign_escaped (c : Char) : sign true c = .plain := rfl

theorem sign_eq_opening_iff {esc : Bool} {c : Char} :
    sign esc c = .opening ↔ esc = false ∧ c = '{' := by
  grind [sign]

theorem sign_eq_closing_iff {esc : Bool} {c : Char} :
    sign esc c = .closing ↔ esc = false ∧ c = '}' := by
  grind [sign]

theorem sign_eq_token_iff {esc : Bool} {c : Char} :
    sign esc c = .token ↔ esc = false ∧ c = '@' := by
  grind [sign]

/-! ## the signs of a text -/

/-- The sign of each character, with `esc` for a backslash directly before the text. -/
def signs (esc : Bool) : Text → List Sign
  | [] => []
  | c :: r => sign esc c :: signs (c == '\\') r

theorem signs_nil (esc : Bool) : signs esc [] = [] := rfl
theorem signs_cons (esc : Bool) (c : Char) (r : Text) :
    signs esc (c :: r) = sign esc c :: signs (c == '\\') r := rfl

theorem length_signs (esc : Bool) (t : Text) : (signs esc t).length = t.length := by
  induction t generalizing esc with
  | nil => rfl
  | cons c r ih => simp [signs, ih]

/-- Whether the character after `t` is escaped, with `esc` for a backslash directly before `t`. -/
def endsEscaping (esc : Bool) : Text → Bool
  | [] => esc
  | c :: r => endsEscaping (c == '\\') r

theorem endsEscaping_nil (esc : Bool) : endsEscaping esc [] = esc := rfl
theorem endsEscaping_cons (esc : Bool) (c : Char) (r : Text) :
    endsEscaping esc (c :: r) = endsEscaping (c == '\\') r := rfl

theorem endsEscaping_append (esc : Bool) (s t : Text) :
    endsEscaping esc (s ++ t) = endsEscaping (endsEscaping esc s) t := by
  induction s generalizing esc with
  | nil => rfl
  | cons c r ih => exact ih (c == '\\')

theorem signs_append (esc : Bool) (s t : Text) :
    signs esc (s ++ t) = signs esc s ++ signs (endsEscaping esc s) t := by
  induction s generalizing esc with
  | nil => rfl
  | cons c r ih => simp [signs, endsEscaping, ih]

/-! ## questions about a whole text -/

/-- How many characters of `t` have the sign `s`. -/
def countOf (s : Sign) (t : Text) : Nat := (signs false t).count s

/-- Whether an unescaped `@` is left. -/
def hasTokenSign (t : Text) : Bool := (signs false t).contains .token

theorem hasTokenSign_iff {t : Text} : hasTokenSign t = true ↔ Sign.token ∈ signs false t := by
  simp [hasTokenSign]

/-- Whether the text starts with a word character. -/
def startsKey : Text → Bool
  | [] => false
  | c :: _ => Text.isWord c

/-- How many unescaped `@` are followed by a word character. -/
def countTokens (esc : Bool) : Text → Nat
  | [] => 0
  | c :: r => (if sign esc c = .token && startsKey r then 1 else 0) + countTokens (c == '\\') r

theorem countTokens_nil (esc : Bool) : countTokens esc [] = 0 := rfl
theorem countTokens_cons (esc : Bool) (c : Char) (r : Text) :
    countTokens esc (c :: r) =
      (if sign esc c = .token && startsKey r then 1 else 0) + countTokens (c == '\\') r := rfl

/-- A template is one line: the characters that end a line are dropped. -/
def normalize (t : Text) : Text := t.filter fun c => c != '\r' && c != '\n'

theorem normalize_nil : normalize [] = [] := rfl
theorem normalize_append (s t : Text) : normalize (s ++ t) = normalize s ++ normalize t := by
  simp [normalize]
theorem normalize_normalize (t : Text) : normalize (normalize t) = normalize t := by
  simp [normalize]

end Template
end Citations
