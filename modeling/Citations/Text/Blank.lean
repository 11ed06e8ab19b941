import Citations.Text.Basic

/-!
# Blanks

The white space of every script, and the text without the blanks at its two ends.

* `isBlank`      white space;
* `trimmed`      the text without the blanks at its ends;
* `Trims t s`    what the text `s` has to do with `t` to be that; `trims_iff`.
-/

namespace Citations
namespace Text

/-- White space: tabs, line ends, separators of records and the spaces of every width. -/
def isBlank (c : Char) : Bool :=
  let n := c.toNat
  (9 ≤ n && n ≤ 13) || (28 ≤ n && n ≤ 32) || n == 0x85 || n == 0xa0 || n == 0x1680 ||
    (0x2000 ≤ n && n ≤ 0x200a) || n == 0x2028 || n == 0x2029 || n == 0x202f || n == 0x205f ||
    n == 0x3000

/-- The text without the blanks at its front. -/
def trimmedLeft (t : Text) : Text := t.dropWhile isBlank

/-- The text without the blanks at its end. -/
def trimmedRight (t : Text) : Text := (t.reverse.dropWhile isBlank).reverse

def trimmed (t : Text) : Text := trimmedLeft (trimmedRight t)

theorem trimmed_nil : trimmed [] = [] := rfl

/-- Around `s` the text `t` has nothing but blanks, and `s` has none at its own ends. -/
structure Trims (t s : Text) : Prop where
  within : ∃ a b, t = a ++ s ++ b ∧ (∀ c ∈ a, isBlank c = true) ∧ ∀ c ∈ b, isBlank c = true
  front : ∀ c, s.head? = some c → isBlank c = false
  back : ∀ c, s.getLast? = some c → isBlank c = false

theorem isBlank_of_mem_takeWhile {t : Text} {c : Char} (h : c ∈ t.takeWhile isBlank) :
    isBlank c = true := List.all_eq_true.mp List.all_takeWhile c h

theorem isBlank_of_head?_dropWhile {t : Text} {c : Char} (h : (t.dropWhile isBlank).head? = some c) :
    isBlank c = false := by
  have hnot := List.head?_dropWhile_not isBlank t
  rw [h] at hnot
  exact hnot

theorem dropWhile_eq_self {t : Text} (h : ∀ c, t.head? = some c → isBlank c = false) :
    t.dropWhile isBlank = t := by
  cases t with
  | nil => rfl
  | cons c r =>
    rw [List.dropWhile_cons, h c rfl]
    rfl

theorem trims_trimmed (t : Text) : t.Trims (trimmed t) := by
  let a := (trimmedRight t).takeWhile isBlank
  let b := (t.reverse.takeWhile isBlank).reverse
  have hright : trimmedRight t ++ b = t := by
    rw [trimmedRight, ← List.reverse_append, List.takeWhile_append_dropWhile, List.reverse_reverse]
  have hleft : a ++ trimmed t = trimmedRight t := List.takeWhile_append_dropWhile
  have hb : ∀ c ∈ b, isBlank c = true := by
    intro c hc
    exact isBlank_of_mem_takeWhile (List.mem_reverse.mp hc)
  refine ⟨⟨a, b, ?_, fun c => isBlank_of_mem_takeWhile, hb⟩, fun c => isBlank_of_head?_dropWhile, ?_⟩
  · rw [hleft, hright]
  · intro c hc
    have hlast : (trimmedRight t).getLast? = some c := by
      rw [← hleft, List.getLast?_append, hc]
      rfl
    rw [trimmedRight, List.getLast?_reverse] at hlast
    exact isBlank_of_head?_dropWhile hlast

theorem trimmed_of_trims {t s : Text} (h : t.Trims s) : trimmed t = s := by
  obtain ⟨⟨a, b, rfl, ha, hb⟩, hfront, hback⟩ := h
  have hb : ∀ c ∈ b.reverse, isBlank c = true := fun c hc => hb c (List.mem_reverse.mp hc)
  rw [trimmed, trimmedRight, List.reverse_append, List.dropWhile_append_of_pos hb]
  by_cases hs : s = []
  · have ha : ∀ c ∈ a.reverse, isBlank c = true := fun c hc => ha c (List.mem_reverse.mp hc)
    have hnil : (a.reverse ++ []).dropWhile isBlank = [] := List.dropWhile_append_of_pos ha
    rw [List.append_nil] at hnil
    rw [hs, List.append_nil, hnil]
    rfl
  · have hlast : ∀ c, (a ++ s).reverse.head? = some c → isBlank c = false := by
      intro c hc
      rw [List.head?_reverse, List.getLast?_append, List.getLast?_eq_some_getLast hs,
        Option.some_or, ← List.getLast?_eq_some_getLast hs] at hc
      exact hback c hc
    rw [dropWhile_eq_self hlast, List.reverse_reverse, trimmedLeft,
      List.dropWhile_append_of_pos ha, dropWhile_eq_self hfront]

/-- The trimmed text is the only one that stands between blanks and has none at its ends. -/
theorem trims_iff {t s : Text} : t.Trims s ↔ trimmed t = s :=
  ⟨trimmed_of_trims, fun h => h ▸ trims_trimmed t⟩

end Text
end Citations
