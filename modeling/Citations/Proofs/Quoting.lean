import Citations.Json.Reader

/-!
# Texts in quotes

Every character that would end a quoted text, begin an escape or break a line is written as an
escape.  What stands between the quotes is therefore read back as it was, up to the quote that ends
it.

* `Text.NoControl`           no character below the first printable one;
* `Json.noControl_quoted`    nothing below it is written;
* `Json.stringBody_escaped`  an escaped text is read up to the quote, as it was.
-/

namespace Citations

/-- No character is below U+0020. -/
def Text.NoControl (t : Text) : Prop := ∀ c ∈ t, 32 ≤ c.toNat

instance (t : Text) : Decidable t.NoControl := List.decidableBAll _ t

namespace CodePoint

theorem ofNat_toNat (c : Char) : ofNat c.toNat = .char c := by
  have hc : c.toNat < firstHalf ∨ firstHalf + 2048 ≤ c.toNat := by
    rcases c.valid with h | h
    · exact .inl h
    · exact .inr h.1
  rw [ofNat, dif_neg (by omega), Char.ofNat_toNat]

end CodePoint

namespace Json
open Text

/-! ## hexadecimal digits -/

theorem hexDigit?_digitChar : ∀ d < 16, hexDigit? (Nat.digitChar d) = some d := by decide

theorem le_toNat_digitChar : ∀ d < 16, 32 ≤ (Nat.digitChar d).toNat := by decide

theorem hex_one {n : Nat} (h : n < 16) : hex 1 n = [Nat.digitChar n] := by
  rw [hex, Nat.toDigits_of_lt_base h]
  rfl

theorem hex_succ {width : Nat} (hw : 0 < width) (n : Nat) :
    hex (width + 1) n = hex width (n / 16) ++ [Nat.digitChar (n % 16)] := by
  unfold hex
  rw [Nat.toDigits_eq_if (n := n) (by decide)]
  split
  · next h =>
    -- the digits in front are zeros, of which the numeral of zero is one
    obtain ⟨width, rfl⟩ := Nat.exists_eq_succ_of_ne_zero (Nat.ne_of_gt hw)
    rw [Nat.div_eq_of_lt h, Nat.mod_eq_of_lt h, padded, Nat.toDigits_zero, padded]
    exact congrArg (· ++ _) (List.replicate_succ' ..)
  · rw [padded, padded, List.length_append, List.length_singleton, Nat.add_sub_add_right,
      List.append_assoc]

theorem hex_four {n : Nat} (h : n < 65536) : hex 4 n =
    [Nat.digitChar (n / 4096), Nat.digitChar (n / 256 % 16), Nat.digitChar (n / 16 % 16),
      Nat.digitChar (n % 16)] := by
  rw [hex_succ (by decide), hex_succ (by decide), hex_succ (by decide), hex_one (by omega)]
  simp only [Nat.div_div_eq_div_mul, List.cons_append, List.nil_append, Nat.reduceMul]

theorem hex4?_hex {n : Nat} (h : n < 65536) :
    hex4? (Nat.digitChar (n / 4096)) (Nat.digitChar (n / 256 % 16)) (Nat.digitChar (n / 16 % 16))
      (Nat.digitChar (n % 16)) = some n := by
  rw [hex4?, hexDigit?_digitChar _ (by omega), hexDigit?_digitChar _ (by omega),
    hexDigit?_digitChar _ (by omega), hexDigit?_digitChar _ (by omega)]
  exact congrArg some (by omega)

/-! ## escapes -/

theorem noControl_hex {n : Nat} (h : n < 65536) : NoControl (hex 4 n) := by
  rw [hex_four h, NoControl]
  simp only [List.forall_mem_cons]
  exact ⟨le_toNat_digitChar _ (by omega), le_toNat_digitChar _ (by omega),
    le_toNat_digitChar _ (by omega), le_toNat_digitChar _ (by omega), nofun⟩

/-- A character is written by a letter behind a backslash, by its number, or as it is. -/
theorem escapedChar_cases (c : Char) :
    (∃ x, escapedChar c = ['\\', x] ∧ x ≠ 'u' ∧ escapeOf x = some c ∧ 32 ≤ x.toNat) ∨
    (escapedChar c = '\\' :: 'u' :: hex 4 c.toNat ∧ c.toNat < 32) ∨
    (escapedChar c = [c] ∧ c ≠ '"' ∧ c ≠ '\\' ∧ 32 ≤ c.toNat) := by
  unfold escapedChar
  iterate 7 (split; · next h => exact .inl ⟨_, rfl, by decide, by rw [h]; rfl, by decide⟩)
  split
  · next h => exact .inr (.inl ⟨rfl, h⟩)
  · next hquote hback _ _ _ _ _ h => exact .inr (.inr ⟨rfl, hquote, hback, Nat.not_lt.mp h⟩)

theorem noControl_escapedChar (c : Char) : NoControl (escapedChar c) := by
  unfold NoControl
  rcases escapedChar_cases c with ⟨x, h, _, _, hx⟩ | ⟨h, hc⟩ | ⟨h, _, _, hc⟩
  · rw [h, List.forall_mem_cons, List.forall_mem_singleton]
    exact ⟨by decide, hx⟩
  · rw [h, List.forall_mem_cons, List.forall_mem_cons]
    exact ⟨by decide, by decide, noControl_hex (by omega)⟩
  · rw [h, List.forall_mem_singleton]
    exact hc

theorem noControl_quoted (t : Text) : NoControl (quoted t) := by
  intro c hc
  rw [quoted, List.mem_append, List.mem_cons, escaped, List.mem_flatMap, List.mem_singleton] at hc
  rcases hc with (rfl | ⟨d, _, hd⟩) | rfl
  · decide
  · exact noControl_escapedChar d c hd
  · decide

/-! ## reading them -/

variable {opened : Nat} {t : Text}

/-- An escape by a number that is no high half is read alone. -/
theorem stringBody_hex {n : Nat} (hn : n < 65536) (hhigh : isHighHalf n = false) (ht : t ≠ []) :
    stringBody opened ('\\' :: 'u' :: hex 4 n ++ t) =
      push (.ofNat n) (stringBody opened t) := by
  obtain ⟨e, r, rfl⟩ := List.exists_cons_of_ne_nil ht
  rw [hex_four hn]
  simp only [List.cons_append, List.nil_append]
  rw [stringBody, if_neg (by decide), if_pos rfl, hex4?_hex hn]
  dsimp only
  split
  · rw [hhigh]
    rfl
  · rfl

theorem stringBody_escapedChar (c : Char) (ht : t ≠ []) :
    stringBody opened (escapedChar c ++ t) = push (.char c) (stringBody opened t) := by
  rcases escapedChar_cases c with ⟨x, h, hu, hx, _⟩ | ⟨h, hc⟩ | ⟨h, hquote, hback, hc⟩
  · rw [h, List.cons_append, List.cons_append, List.nil_append, stringBody.eq_def]
    dsimp only
    rw [if_neg (by decide), if_pos rfl]
    split
    · next heq => cases heq
    · next heq => exact absurd (List.cons.inj heq).1 hu
    · next heq =>
      obtain ⟨rfl, rfl⟩ := List.cons.inj heq
      rw [if_neg hu, hx]
  · have hhigh : isHighHalf c.toNat = false := by simp [isHighHalf]; omega
    rw [h, List.cons_append, List.cons_append, ← List.cons_append, ← List.cons_append,
      stringBody_hex (by omega) hhigh ht, CodePoint.ofNat_toNat]
  · rw [h, List.singleton_append, stringBody.eq_def]
    dsimp only
    rw [if_neg hquote, if_neg hback, if_neg (Nat.not_lt.mpr hc)]

/-- A text is read as it was, up to the quote behind it. -/
theorem stringBody_escaped (t r : Text) :
    stringBody opened (escaped t ++ '"' :: r) = .ok (t.map .char, r) := by
  induction t with
  | nil => rw [escaped_nil, List.nil_append, stringBody.eq_def]; rfl
  | cons c t ih =>
    have hrest : escaped t ++ '"' :: r ≠ [] :=
      List.append_ne_nil_of_right_ne_nil _ (List.cons_ne_nil _ _)
    rw [escaped_cons, List.append_assoc, stringBody_escapedChar c hrest, ih]
    rfl

end Json
end Citations
