import Citations.Options
import Citations.Placeholder.Fill

/-!
# Filled placeholders

* `fillWith_end`, `fillWith_field`   a placeholder without a field, and one that starts with one;
  `fillWith_error`, `fillWith_field_error`   the same where the text or the field cannot be read;
* `fill_key`        a placeholder with `{key}` as its only field;
* `fill_default`    the default placeholder is the key in square brackets.
-/

namespace Citations
namespace Placeholder

variable {memory : Memory}

section
variable {inner : Text → Except PlaceholderError Text} {key pattern before r : Text}
  {e : PlaceholderError}

theorem fillWith_error (h : literal pattern = .error e) :
    fillWith memory inner key pattern = .error e := by
  rw [fillWith]
  split
  · next e' he =>
    rw [h] at he
    cases he
    rfl
  · next b hb => rw [h] at hb; cases hb
  · next b r hb => rw [h] at hb; cases hb

theorem fillWith_field_error (hl : literal pattern = .ok (before, some r))
    (hf : field r = .error e) : fillWith memory inner key pattern = .error e := by
  rw [fillWith]
  split
  · next e he => rw [hl] at he; cases he
  · next b hb => rw [hl] at hb; cases hb
  · next b r1 hb =>
    rw [hl] at hb
    cases hb
    split
    · next e1 he =>
      rw [hf] at he
      cases he
      rfl
    · next f1 r1 hf1 => rw [hf] at hf1; cases hf1

end

theorem fillWith_end {inner : Text → Except PlaceholderError Text} {key pattern before : Text}
    (h : literal pattern = .ok (before, none)) : fillWith memory inner key pattern = .ok before := by
  rw [fillWith]
  split
  · next e he => rw [h] at he; cases he
  · next b hb =>
    rw [h] at hb
    cases hb
    rfl
  · next b r hb => rw [h] at hb; cases hb

theorem fillWith_field {inner : Text → Except PlaceholderError Text}
    {key pattern before r r' : Text} {f : Field} (hl : literal pattern = .ok (before, some r))
    (hf : field r = .ok (f, r')) :
    fillWith memory inner key pattern = (do
      let x ← subject memory key f.name
      let x ← convert memory x f.conversion
      let layout ← if f.layout.contains '{' then inner f.layout else pure f.layout
      let t ← laidOut memory layout x
      let rest ← fillWith memory inner key r'
      return before ++ t ++ rest) := by
  rw [fillWith]
  split
  · next e he => rw [hl] at he; cases he
  · next b hb => rw [hl] at hb; cases hb
  · next b r1 hb =>
    rw [hl] at hb
    cases hb
    split
    · next e he => rw [hf] at he; cases he
    · next f1 r1 hf1 =>
      rw [hf] at hf1
      cases hf1
      rfl

/-- A placeholder with the key as its only field shows the key between its literal texts. -/
theorem fill_key {pattern before r after : Text} (key : Text)
    (hl : literal pattern = .ok (before, some ("key\x7d".toList ++ r)))
    (he : literal r = .ok (after, none)) :
    fill memory pattern key = .ok (before ++ key ++ after) := by
  have hf : field ("key\x7d".toList ++ r) = .ok (⟨"key".toList, none, []⟩, r) := by rfl
  rw [fill, fillWith_field hl hf, fillWith_end he]
  have hs : subject memory key "key".toList = .ok (.text key) := by
    have hn : wholeNumber? ("key".toList.takeWhile inName) = .ok none := by rfl
    have ht : "key".toList.takeWhile inName = "key".toList := by rfl
    have hd : "key".toList.dropWhile inName = [] := by rfl
    simp only [subject, ht, hd] at hn ⊢
    rw [hn]
    simp [bind, Except.bind, accesses]
  simp only [hs, bind, Except.bind, convert, laidOut]
  rfl

/-- The default placeholder shows the key in square brackets. -/
theorem fill_default (key : Text) :
    fill memory "[\x7bkey\x7d]".toList key = .ok ('[' :: key ++ [']']) := by
  have hl : literal "[\x7bkey\x7d]".toList = .ok (['['], some ("key\x7d".toList ++ [']'])) := by rfl
  have he : literal [']'] = .ok ([']'], none) := by rfl
  exact fill_key key hl he

/-- A placeholder that asks for anything but the key fails. -/
theorem fill_unknown {pattern before r r' name : Text} {f : Field} (key : Text)
    (hl : literal pattern = .ok (before, some r)) (hf : field r = .ok (f, r'))
    (hs : subject memory key f.name = .error (.unknownName name)) :
    fill memory pattern key = .error (.unknownName name) := by
  rw [fill, fillWith_field hl hf, hs]
  rfl

theorem mem_default {d : Char} {key : Text} :
    d ∈ '[' :: key ++ [']'] ↔ d = '[' ∨ d ∈ key ∨ d = ']' := by
  rw [List.cons_append, List.mem_cons, List.mem_append, List.mem_singleton]

end Placeholder
end Citations
