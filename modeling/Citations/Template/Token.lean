import Citations.Template.Sign

/-!
# The first token of a text

A token is an unescaped `@` followed by its key, the longest run of word characters and `+`.

* `Token`          a text cut at a token: what stands before it, its key, what stands behind it;
* `firstToken?`    the cut at the first token;
* `firstToken?_text`   the three parts put together are the text.
-/

namespace Citations

/-- A text cut at a token. -/
structure Token where
  before : Text
  key : Text
  after : Text
  deriving DecidableEq, Repr

namespace Token

/-- The text that was cut. -/
def text (k : Token) : Text := k.before ++ '@' :: k.key ++ k.after

/-- The text with something else in the place of the token. -/
def filledWith (k : Token) (t : Text) : Text := k.before ++ t ++ k.after

/-- The same token with one more character before it. -/
def push (c : Char) (k : Token) : Token := { k with before := c :: k.before }

end Token

namespace Template

/-- Whether a text starts with a character of a key. -/
def startsKeyOrJoin : Text → Bool
  | [] => false
  | c :: _ => Text.isKeyChar c

/-- The text cut at its first token, with `esc` for a backslash directly before the text. -/
def firstTokenFrom? (esc : Bool) : Text → Option Token
  | [] => none
  | c :: r =>
    if sign esc c = .token && startsKeyOrJoin r then
      some ⟨[], r.takeWhile Text.isKeyChar, r.dropWhile Text.isKeyChar⟩
    else (firstTokenFrom? (c == '\\') r).map (Token.push c)

def firstToken? (t : Text) : Option Token := firstTokenFrom? false t

theorem firstTokenFrom?_nil (esc : Bool) : firstTokenFrom? esc [] = none := rfl

theorem firstTokenFrom?_text {esc : Bool} {t : Text} {k : Token}
    (h : firstTokenFrom? esc t = some k) : k.text = t := by
  induction t generalizing esc k with
  | nil => simp [firstTokenFrom?] at h
  | cons c r ih =>
    rw [firstTokenFrom?] at h
    split at h
    · next hs =>
      simp only [Bool.and_eq_true, decide_eq_true_eq] at hs
      obtain ⟨_, rfl⟩ := sign_eq_token_iff.mp hs.1
      rw [← Option.some.inj h]
      simp [Token.text]
    · obtain ⟨k', hk, rfl⟩ := Option.map_eq_some_iff.mp h
      have := ih hk
      simpa [Token.text, Token.push] using this

theorem firstToken?_text {t : Text} {k : Token} (h : firstToken? t = some k) : k.text = t :=
  firstTokenFrom?_text h

end Template
end Citations
