import Citations.Proofs.Depth

/-!
# An inserted value

What the scanners see of a text is the row of its signs.  An escaped value has no sign of its own
and escapes nothing behind it, and where it is not empty it also takes the place of what would be
escaped by a backslash before it.  So the signs of what stands around it are those which they would
have alone.

* `Inert w`               no sign within the text, and none behind it is lost;
* `Inert.signs`           the signs around an inert text are those of the two parts;
* `inert_escape`          an inserted value is inert, and so is a row of one ordinary character;
* `unescapedAt_around`    the unescaped characters around it are those of the two parts;
* `insertion_unseen`      what the scanners see of an inserted value.
-/

namespace Citations
namespace Template

/-! ## inert text -/

/-- A text in which the scanners see nothing, and that takes nothing from what stands around it. -/
structure Inert (w : Text) : Prop where
  ne_nil : w ≠ []
  plain : IsPlain false w
  ends : endsEscaping false w = false

theorem IsPlain.signs_eq {esc : Bool} {t : Text} (h : IsPlain esc t) :
    signs esc t = List.replicate t.length .plain := by
  rw [← length_signs esc t]
  exact List.eq_replicate_of_mem h

section
variable {a b w : Text}

theorem Inert.ends_behind (h : Inert w) (a : Text) : endsEscaping false (a ++ w) = false := by
  rw [endsEscaping_append, endsEscaping_of_ne_nil _ h.ne_nil, h.ends]

/-- Around an inert text stand the signs of the two parts, each as it is alone. -/
theorem Inert.signs (h : Inert w) (a b : Text) :
    signs false (a ++ w ++ b) =
      signs false a ++ List.replicate w.length .plain ++ signs false b := by
  rw [signs_append, h.ends_behind, signs_append, (h.plain.of_false _).signs_eq]

theorem inert_replicate {c : Char} (hs : c ∉ Escaper.syntaxChars) (hb : c ≠ '\\') {n : Nat}
    (hn : n ≠ 0) : Inert (List.replicate n c) := by
  refine ⟨fun h => hn ((List.replicate_eq_nil_iff c).mp h), ?_, ?_⟩
  · refine isPlain_of_unsigned (fun d hd => ?_) false
    rwa [List.eq_of_mem_replicate hd]
  · apply endsEscaping_eq_false_of_not_mem
    intro hm
    exact hb (List.eq_of_mem_replicate hm).symm

/-! ## what the scanners see around it -/

/-- The scan for fragments does not tell inert texts of one length from each other. -/
theorem spans_around {w' : Text} (h : Inert w) (h' : Inert w') (hl : w.length = w'.length)
    (a b : Text) : spans (a ++ w ++ b) = spans (a ++ w' ++ b) := by
  unfold spans
  rw [h.signs, h'.signs, hl]

theorem countOf_around (h : Inert w) {s : Sign} (hs : s ≠ .plain) (a b : Text) :
    countOf s (a ++ w ++ b) = countOf s a + countOf s b := by
  have hnone : (List.replicate w.length Sign.plain).count s = 0 :=
    List.count_eq_zero.mpr fun hm => hs (List.eq_of_mem_replicate hm)
  unfold countOf
  rw [h.signs, List.count_append, List.count_append, hnone]
  omega

theorem hasTokenSign_around (h : Inert w) (a b : Text) :
    hasTokenSign (a ++ w ++ b) = true ↔ hasTokenSign a = true ∨ hasTokenSign b = true := by
  have hnone : Sign.token ∉ List.replicate w.length Sign.plain := fun hm =>
    nomatch List.eq_of_mem_replicate hm
  rw [hasTokenSign_iff, hasTokenSign_iff, hasTokenSign_iff, h.signs, List.mem_append,
    List.mem_append, or_iff_left hnone]

/-- A sign that is not plain stands in the one part or in the other, moved. -/
theorem getElem?_around {s : Sign} (hs : s ≠ .plain) {x y : List Sign} {n i : Nat} :
    (x ++ List.replicate n .plain ++ y)[i]? = some s ↔
      x[i]? = some s ∨ ∃ j, y[j]? = some s ∧ i = x.length + n + j := by
  have hlen : (x ++ List.replicate n Sign.plain).length = x.length + n := by simp
  by_cases hlt : i < x.length + n
  · have hright : ¬ ∃ j, y[j]? = some s ∧ i = x.length + n + j := by
      rintro ⟨j, _, rfl⟩
      omega
    rw [List.getElem?_append_left (by omega), or_iff_left hright]
    by_cases hx : i < x.length
    · rw [List.getElem?_append_left hx]
    · -- the plain signs between the parts
      have hout : x[i]? = none := List.getElem?_eq_none (by omega)
      rw [List.getElem?_append_right (by omega), hout]
      constructor
      · intro h
        exact absurd (List.eq_of_mem_replicate (List.mem_of_getElem? h)) hs
      · intro h
        cases h
  · obtain ⟨j, rfl⟩ : ∃ j, i = x.length + n + j := ⟨i - (x.length + n), by omega⟩
    have hout : x[x.length + n + j]? = none := List.getElem?_eq_none (by omega)
    rw [List.getElem?_append_right (by omega), hlen, Nat.add_sub_cancel_left, hout]
    constructor
    · intro h
      exact Or.inr ⟨j, h, rfl⟩
    · rintro (h | ⟨k, h, hk⟩)
      · cases h
      · obtain rfl : j = k := by omega
        exact h

theorem exists_sign_of_mem {c : Char} (hc : c ∈ Escaper.syntaxChars) :
    ∃ s, s ≠ .plain ∧ ∀ esc d, sign esc d = s ↔ esc = false ∧ d = c := by
  simp only [Escaper.syntaxChars, List.mem_cons, List.not_mem_nil, or_false] at hc
  rcases hc with rfl | rfl | rfl
  · exact ⟨.opening, by decide, fun _ _ => sign_eq_opening_iff⟩
  · exact ⟨.closing, by decide, fun _ _ => sign_eq_closing_iff⟩
  · exact ⟨.token, by decide, fun _ _ => sign_eq_token_iff⟩

/-- The unescaped brackets and token signs are those of the two parts. -/
theorem unescapedAt_around (h : Inert w) {c : Char} (hc : c ∈ Escaper.syntaxChars) {i : Nat} :
    UnescapedAt (a ++ w ++ b) i c ↔
      UnescapedAt a i c ∨ ∃ j, UnescapedAt b j c ∧ i = a.length + w.length + j := by
  obtain ⟨s, hs, hsign⟩ := exists_sign_of_mem hc
  simp only [unescapedAt_iff hsign]
  rw [h.signs, getElem?_around hs, length_signs]

/-- What stands directly behind an inert text is not escaped, whatever it is. -/
theorem unescapedAt_behind (h : Inert w) (a : Text) (c : Char) (r : Text) :
    UnescapedAt (a ++ w ++ c :: r) (a.length + w.length) c := by
  rw [← List.length_append]
  exact unescapedAt_append (h.ends_behind a) c r

end

end Template

namespace Render
open Template Escaper

theorem escape_eq_nil_iff {v : Text} : escape v = [] ↔ v = [] := by
  cases v with
  | nil => exact iff_of_true rfl rfl
  | cons d v =>
    have hne : escapeChar syntaxChars d ≠ [] := by
      rcases escapeChar_cases d with ⟨_, e⟩ | ⟨_, e⟩ | ⟨_, _, e⟩
      all_goals
        rw [e]
        exact List.cons_ne_nil _ _
    rw [escape_cons]
    exact iff_of_false (fun h => hne (List.append_eq_nil_iff.mp h).1) (List.cons_ne_nil d v)

theorem inert_escape {v : Text} (hv : v ≠ []) : Inert (escape v) :=
  ⟨fun h => hv (escape_eq_nil_iff.mp h), isPlain_escape v false, endsEscaping_escape v⟩

/-- The scanners do not see an inserted value.  The spans are those that they would be with as many
letters in its place, the unescaped brackets and token signs are those of what stands before it and
of what stands behind it, and so are their numbers.  No value escapes what follows it. -/
theorem insertion_unseen {v : Text} (hv : v ≠ []) (a b : Text) :
    spans (a ++ escape v ++ b) = spans (a ++ List.replicate (escape v).length 'x' ++ b) ∧
    (∀ c ∈ syntaxChars, ∀ i, UnescapedAt (a ++ escape v ++ b) i c ↔
      UnescapedAt a i c ∨ ∃ j, UnescapedAt b j c ∧ i = a.length + (escape v).length + j) ∧
    (hasTokenSign (a ++ escape v ++ b) = true ↔ hasTokenSign a = true ∨ hasTokenSign b = true) ∧
    (∀ s, s ≠ .plain → countOf s (a ++ escape v ++ b) = countOf s a + countOf s b) ∧
    ∀ c r, b = c :: r → UnescapedAt (a ++ escape v ++ b) (a.length + (escape v).length) c := by
  have h := inert_escape hv
  have hletters : Inert (List.replicate (escape v).length 'x') :=
    inert_replicate (by decide) (by decide) fun hl => h.ne_nil (List.length_eq_zero_iff.mp hl)
  refine ⟨?_, fun c hc i => ?_, ?_, fun s hs => ?_, ?_⟩
  · apply spans_around h hletters
    rw [List.length_replicate]
  · exact unescapedAt_around h hc
  · exact hasTokenSign_around h a b
  · exact countOf_around h hs a b
  · rintro c r rfl
    exact unescapedAt_behind h a c r

/-- A value that ends in a backslash, between a backslash and a bracket. -/
theorem insertion_unseen_backslash : "a\\".toList ≠ [] ∧
    spans ("\\".toList ++ escape "a\\".toList ++ "\x7b@b\x7d".toList) = [⟨3, 6⟩] ∧
    UnescapedAt ("\\".toList ++ escape "a\\".toList ++ "\x7b@b\x7d".toList) 3 '{' := by
  have hv : "a\\".toList ≠ [] := by decide
  obtain ⟨hspans, _, _, _, hbehind⟩ := insertion_unseen hv "\\".toList "\x7b@b\x7d".toList
  refine ⟨hv, ?_, hbehind '{' "@b\x7d".toList rfl⟩
  rw [hspans]
  rfl

end Render
end Citations
