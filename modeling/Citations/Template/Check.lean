import Citations.Template.Sign
import Citations.Text.Numeral

/-!
# Checking a template before it is used

The coarse check compares three counts: unescaped `{`, unescaped `}` and tokens.  The strict check
also matches the brackets and asks that every fragment holds a token at its own level and that no
token stands outside every fragment.

* `TemplateError`          why a template is refused, with the column;
* `TemplateError.message`  the wording;
* `checkCounts`, `checkNesting`, `check`;
* `CheckStep`              what one character does to the open fragments of `checkNesting`.
-/

namespace Citations

/-- Why a template is refused. -/
inductive TemplateError where
  | counts (opened closed tokens : Nat)
  | unmatched (column : Nat)
  | tokenless (column : Nat)
  | outside (column : Nat)
  | unclosed (column : Nat)
  deriving DecidableEq, Repr

def TemplateError.message : TemplateError → Text
  | .counts o c k =>
    "invalid template syntax: ".toList ++ Text.ofNat o ++ " '\x7b', ".toList ++ Text.ofNat c ++
      " '\x7d' and ".toList ++ Text.ofNat k ++ " tokens (all three counts must match)".toList
  | .unmatched i => "unmatched '\x7d' at column ".toList ++ Text.ofNat i
  | .tokenless i =>
    "fragment at column ".toList ++ Text.ofNat i ++ " holds no token of its own".toList
  | .outside i => "token at column ".toList ++ Text.ofNat i ++ " is outside every fragment".toList
  | .unclosed i => "unclosed '\x7b' at column ".toList ++ Text.ofNat i

namespace Template

/-! ## counts -/

def checkCounts (t : Text) : Except TemplateError Unit :=
  if countOf .opening t = countOf .closing t ∧ countOf .opening t = countTokens false t then .ok ()
  else .error (.counts (countOf .opening t) (countOf .closing t) (countTokens false t))

theorem checkCounts_eq_ok_iff {t : Text} :
    checkCounts t = .ok () ↔
      countOf .opening t = countOf .closing t ∧ countOf .opening t = countTokens false t := by
  rw [checkCounts]
  split
  · next h => exact ⟨fun _ => h, fun _ => rfl⟩
  · next h => exact ⟨fun e => (by cases e), fun e => absurd e h⟩

/-! ## nesting -/

/-- An open fragment: where it starts and whether its own level has shown a token yet. -/
structure Level where
  start : Nat
  owns : Bool
  deriving DecidableEq, Repr

/-- Reads on from column `i` with the open fragments, the innermost first. -/
def checkNestingFrom (esc : Bool) (i : Nat) (levels : List Level) :
    Text → Except TemplateError Unit
  | [] =>
    match levels with
    | [] => .ok ()
    | l :: _ => .error (.unclosed l.start)
  | c :: r =>
    match sign esc c with
    | .opening => checkNestingFrom (c == '\\') (i + 1) (⟨i, false⟩ :: levels) r
    | .closing =>
      match levels with
      | [] => .error (.unmatched i)
      | l :: ls =>
        if l.owns then checkNestingFrom (c == '\\') (i + 1) ls r else .error (.tokenless l.start)
    | .token =>
      if startsKey r then
        match levels with
        | [] => .error (.outside i)
        | l :: ls => checkNestingFrom (c == '\\') (i + 1) (⟨l.start, true⟩ :: ls) r
      else checkNestingFrom (c == '\\') (i + 1) levels r
    | .plain => checkNestingFrom (c == '\\') (i + 1) levels r

def checkNesting (t : Text) : Except TemplateError Unit := checkNestingFrom false 0 [] t

theorem checkNesting_nil : checkNesting [] = .ok () := rfl

/-- What a character at column `i`, with `r` behind it, does to the open fragments. -/
inductive CheckStep (i : Nat) (r : Text) : Sign → List Level → List Level → Prop where
  | opening {ls : List Level} : CheckStep i r .opening ls (⟨i, false⟩ :: ls)
  | closing {l : Level} {ls : List Level} (hl : l.owns = true) : CheckStep i r .closing (l :: ls) ls
  | token {l : Level} {ls : List Level} (hk : startsKey r = true) :
      CheckStep i r .token (l :: ls) (⟨l.start, true⟩ :: ls)
  | bare {ls : List Level} (hk : startsKey r = false) : CheckStep i r .token ls ls
  | plain {ls : List Level} : CheckStep i r .plain ls ls

/-- The check goes on exactly where a character can do something. -/
theorem checkNestingFrom_cons_iff {esc : Bool} {i : Nat} {levels : List Level} {c : Char} {r : Text} :
    checkNestingFrom esc i levels (c :: r) = .ok () ↔
      ∃ levels', CheckStep i r (sign esc c) levels levels' ∧
        checkNestingFrom (c == '\\') (i + 1) levels' r = .ok () := by
  constructor
  · intro h
    cases hs : sign esc c with
    | opening =>
      simp only [checkNestingFrom, hs] at h
      exact ⟨_, .opening, h⟩
    | closing =>
      cases levels with
      | nil => simp [checkNestingFrom, hs] at h
      | cons l ls =>
        cases hl : l.owns with
        | false => simp [checkNestingFrom, hs, hl] at h
        | true =>
          simp only [checkNestingFrom, hs, hl, if_true] at h
          exact ⟨_, .closing hl, h⟩
    | token =>
      cases hk : startsKey r with
      | false =>
        simp only [checkNestingFrom, hs, hk, Bool.false_eq_true, if_false] at h
        exact ⟨_, .bare hk, h⟩
      | true =>
        cases levels with
        | nil => simp [checkNestingFrom, hs, hk] at h
        | cons l ls =>
          simp only [checkNestingFrom, hs, hk, if_true] at h
          exact ⟨_, .token hk, h⟩
    | plain =>
      simp only [checkNestingFrom, hs] at h
      exact ⟨_, .plain, h⟩
  · rintro ⟨levels', hstep, h⟩
    generalize hs : sign esc c = s at hstep
    cases hstep with
    | opening => simpa only [checkNestingFrom, hs] using h
    | closing hl => simpa only [checkNestingFrom, hs, hl, if_true] using h
    | token hk => simpa only [checkNestingFrom, hs, hk, if_true] using h
    | bare hk => simpa only [checkNestingFrom, hs, hk, Bool.false_eq_true, if_false] using h
    | plain => simpa only [checkNestingFrom, hs] using h

/-! ## both -/

/-- The counts first; the nesting only when asked for. -/
def check (strict : Bool) (t : Text) : Except TemplateError Unit :=
  match checkCounts t with
  | .error e => .error e
  | .ok () => if strict then checkNesting t else .ok ()

theorem check_lenient (t : Text) : check false t = checkCounts t := by
  rw [check]
  split <;> simp_all

theorem check_strict_eq_ok_iff {t : Text} :
    check true t = .ok () ↔ checkCounts t = .ok () ∧ checkNesting t = .ok () := by
  rw [check]
  split <;> simp_all

end Template
end Citations
