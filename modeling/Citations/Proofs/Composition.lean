import Citations.Proofs.Depth

/-!
# The spans of a text in parts

Where the bracket depth is zero and no backslash stands, a text can be cut: what stands before the
cut and what stands behind it are scanned as if each were alone.  A bracketed text at such a place
is one fragment, whatever fragments it holds, so its interior can be read, and exchanged, without
a look at what stands around it.

* `cleanEnd_iff`                  the places where a text can be cut, by the depth before them;
* `isInterior_iff`                what can stand in brackets at such a place;
* `CleanEnd.spans_around`         the spans around a bracketed text;
* `CleanEnd.fragmentTexts_around` the texts of these fragments;
* `spans_compose`                 all of it for a text that is cut.
-/

namespace Citations
namespace Template

theorem cleanEnd_iff {s : Text} : CleanEnd s ↔ depthAt s s.length = 0 ∧ ¬ ['\\'] <:+ s := by
  rw [depthAt_take, List.take_length, ← endsEscaping_eq_false_iff]
  exact ⟨fun h => ⟨h.depth, h.ends⟩, fun h => ⟨h.1, h.2⟩⟩

theorem isInterior_iff {t : Text} : IsInterior t ↔ WellNested t ∧ ¬ ['\\'] <:+ t := by
  rw [← endsEscaping_eq_false_iff]
  exact ⟨fun h => ⟨h.wellNested, h.ends⟩, fun h => ⟨h.1, h.2⟩⟩

section
variable {s t : Text}

/-- A bracketed text behind a clean end is one span, and no other one reaches into it. -/
theorem CleanEnd.spans_around (hs : CleanEnd s) (ht : IsInterior t) (w : Text) :
    spans (s ++ (Render.bracketed t ++ w)) =
      spans s ++ ⟨s.length, s.length + t.length + 1⟩ ::
        (spans w).map (Span.shift (s.length + t.length + 2)) := by
  have hlen : (Render.bracketed t).length = t.length + 2 := by simp [Render.bracketed]
  have hfirst : (⟨0, t.length + 1⟩ : Span).shift s.length =
      ⟨s.length, s.length + t.length + 1⟩ := by
    show (⟨0 + s.length, t.length + 1 + s.length⟩ : Span) = _
    rw [Span.mk.injEq]
    omega
  have hrest : ∀ a : Span, (a.shift (t.length + 2)).shift s.length =
      a.shift (s.length + t.length + 2) := by
    intro a
    show (⟨a.first + (t.length + 2) + s.length, a.last + (t.length + 2) + s.length⟩ : Span) =
      ⟨a.first + (s.length + t.length + 2), a.last + (s.length + t.length + 2)⟩
    rw [Span.mk.injEq]
    omega
  rw [hs.spans_append, (isInterior_bracketed ht).cleanEnd.spans_append, spans_bracketed ht, hlen,
    List.singleton_append, List.map_cons, List.map_map, hfirst]
  congr 2
  apply List.map_congr_left
  intro a _
  exact hrest a

theorem CleanEnd.fragmentTexts_around (hs : CleanEnd s) (ht : IsInterior t) (w : Text) :
    fragmentTexts (s ++ (Render.bracketed t ++ w)) =
      fragmentTexts s ++ Render.bracketed t :: fragmentTexts w := by
  rw [hs.fragmentTexts_append, fragmentTexts_bracketed_append ht]

/-- Behind a text at whose end no bracket is open and no backslash stands, the spans are those of
what follows, moved by its length.  A text in which the brackets match and that ends in no backslash
is one span there if it stands in brackets itself: the spans of what is before come before it, and
those of what is behind come behind it, moved.  The texts of the spans stay as they are. -/
theorem spans_compose (hd : depthAt s s.length = 0) (hb : ¬ ['\\'] <:+ s) (t : Text) :
    spans (s ++ t) = spans s ++ (spans t).map (Span.shift s.length) ∧
    fragmentTexts (s ++ t) = fragmentTexts s ++ fragmentTexts t ∧
    (WellNested t → ¬ ['\\'] <:+ t → ∀ w,
      spans (s ++ '{' :: t ++ '}' :: w) =
        spans s ++ ⟨s.length, s.length + t.length + 1⟩ ::
          (spans w).map (Span.shift (s.length + t.length + 2)) ∧
      fragmentTexts (s ++ '{' :: t ++ '}' :: w) =
        fragmentTexts s ++ ('{' :: t ++ ['}']) :: fragmentTexts w) := by
  have hs : CleanEnd s := cleanEnd_iff.mpr ⟨hd, hb⟩
  refine ⟨hs.spans_append t, hs.fragmentTexts_append t, ?_⟩
  intro hn ht w
  have hi : IsInterior t := isInterior_iff.mpr ⟨hn, ht⟩
  have htext : s ++ '{' :: t ++ '}' :: w = s ++ (Render.bracketed t ++ w) := by
    simp [Render.bracketed]
  rw [htext]
  exact ⟨hs.spans_around hi w, hs.fragmentTexts_around hi w⟩

end

/-- Behind a stray `}` and a fragment one with fragments in it, then an escaped `{`. -/
theorem spans_compose_nested :
    depthAt "\x7d\x7ba\x7d".toList "\x7d\x7ba\x7d".toList.length = 0 ∧
    ¬ ['\\'] <:+ "\x7d\x7ba\x7d".toList ∧
    WellNested "\x7bb\x7d\x7bc\x7d".toList ∧ ¬ ['\\'] <:+ "\x7bb\x7d\x7bc\x7d".toList ∧
    spans "\x7d\x7ba\x7d\x7b\x7bb\x7d\x7bc\x7d\x7d\\\x7b\x7bd\x7d".toList =
      [⟨1, 3⟩, ⟨4, 11⟩, ⟨14, 16⟩] := by
  have hd : depthAt "\x7d\x7ba\x7d".toList "\x7d\x7ba\x7d".toList.length = 0 := by decide
  have hb : ¬ ['\\'] <:+ "\x7d\x7ba\x7d".toList := by decide
  have hn : WellNested "\x7bb\x7d\x7bc\x7d".toList := by decide
  have ht : ¬ ['\\'] <:+ "\x7bb\x7d\x7bc\x7d".toList := by decide
  obtain ⟨_, _, haround⟩ := spans_compose hd hb "\x7bb\x7d\x7bc\x7d".toList
  exact ⟨hd, hb, hn, ht, (haround hn ht "\\\x7b\x7bd\x7d".toList).1⟩

end Template
end Citations
