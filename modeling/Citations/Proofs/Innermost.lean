import Citations.Proofs.Depth

/-!
# The innermost fragments

A recursion takes the fragments of a text and goes into the nested ones.  Each time it reads an
interior without what stands around it.  The leaves that it comes to can be told from the places in
the whole text alone: they are the innermost pairs of brackets with an `@` between them, in a
fragment of the top level.  The rest of the text may have brackets that do not match.

* `Reached t f`           the recursion over the text `t` comes to the fragment `f`;
* `Innermost t p`         a pair of brackets at or within the top level, and no pair within it;
* `matched_within`        a pair within a part of a text is one of the part alone;
* `SpanAt.innermost_iff`  the innermost pairs within a fragment are those of its interior;
* `leaf_reached_iff`      a leaf is reached if and only if there is an innermost pair with an `@`.
-/

namespace Citations

/-! ## pairs moved by what stands before them -/

namespace Span

theorem inside_shift {α : Type} (p : Span) (l m : List α) :
    (p.shift l.length).inside (l ++ m) = p.inside m := by
  have hfirst : p.first + l.length + 1 = l.length + (p.first + 1) := by omega
  show ((l ++ m).take (p.last + l.length)).drop (p.first + l.length + 1) = _
  rw [Nat.add_comm p.last, List.take_length_add_append, hfirst, List.drop_length_add_append]
  rfl

theorem inside_append {α : Type} {p : Span} {l : List α} (h : p.last ≤ l.length) (m : List α) :
    p.inside (l ++ m) = p.inside l := by
  rw [inside, inside, List.take_append_of_le_length h]

theorem mem_of_mem_inside {α : Type} {p : Span} {l : List α} {a : α} (h : a ∈ p.inside l) : a ∈ l :=
  List.mem_of_mem_take (List.mem_of_mem_drop h)

/-- A pair that starts behind a place is one that has been moved there. -/
theorem exists_shift {p : Span} {k : Nat} (h : k ≤ p.first) (hlt : p.first < p.last) :
    ∃ q : Span, p = q.shift k := by
  refine ⟨⟨p.first - k, p.last - k⟩, ?_⟩
  show p = ⟨p.first - k + k, p.last - k + k⟩
  rw [Nat.sub_add_cancel h, Nat.sub_add_cancel (by omega)]

end Span

namespace Template

section
variable {a x b : Text} {i : Nat} {c : Char}

/-- What stands before a text escapes nothing in it. -/
theorem unescapedAt_shift (ha : endsEscaping false a = false) :
    UnescapedAt (a ++ b) (i + a.length) c ↔ UnescapedAt b i c := by
  unfold UnescapedAt
  rw [List.getElem?_append_right (Nat.le_add_left _ _), Nat.add_sub_cancel]
  refine and_congr_right fun hc => ?_
  have hi := (List.getElem?_eq_some_iff.mp hc).1
  have hle : i + a.length ≤ (a ++ b).length := by
    rw [List.length_append]
    omega
  rw [escapedFrom_eq false _ hle, escapedFrom_eq false b (Nat.le_of_lt hi), Nat.add_comm,
    List.take_length_add_append, endsEscaping_append, ha]

theorem unescapedAt_append_left (hi : i < a.length) (b : Text) :
    UnescapedAt (a ++ b) i c ↔ UnescapedAt a i c := by
  have hle : i ≤ (a ++ b).length := by
    rw [List.length_append]
    omega
  unfold UnescapedAt
  rw [List.getElem?_append_left hi, escapedFrom_eq false _ hle,
    escapedFrom_eq false a (Nat.le_of_lt hi), List.take_append_of_le_length (Nat.le_of_lt hi)]

/-- Within a part of a text the pairs are those of the part alone. -/
theorem matched_within (ha : endsEscaping false a = false) {p : Span} (hp : p.first < x.length)
    (hp' : p.last < x.length) : Matched (a ++ x ++ b) (p.shift a.length) ↔ Matched x p := by
  have hat : ∀ {j d}, j < x.length →
      (UnescapedAt (a ++ x ++ b) (j + a.length) d ↔ UnescapedAt x j d) := by
    intro j d hj
    rw [List.append_assoc, unescapedAt_shift ha, unescapedAt_append_left hj]
  have hinside : (p.shift a.length).inside (signs false (a ++ x ++ b)) =
      p.inside (signs false x) := by
    have hle : p.last ≤ (signs false x).length := by
      rw [length_signs]
      exact Nat.le_of_lt hp'
    rw [List.append_assoc, signs_append, ← length_signs false a, Span.inside_shift, ha,
      signs_append, Span.inside_append hle]
  constructor
  · intro h
    refine ⟨(hat hp).mp h.opens, (hat hp').mp h.closes, Nat.lt_of_add_lt_add_right h.lt, ?_⟩
    rw [← hinside]
    exact h.between
  · intro h
    refine ⟨(hat hp).mpr h.opens, (hat hp').mpr h.closes, Nat.add_lt_add_right h.lt _, ?_⟩
    rw [hinside]
    exact h.between

end

/-! ## what the recursion comes to -/

/-- A fragment of the text, or one that is reached from the interior of a nested fragment. -/
inductive Reached : Text → Fragment → Prop where
  | top {t : Text} {f : Fragment} (h : f ∈ fragments t) : Reached t f
  | within {t : Text} {f g : Fragment} (hg : g ∈ fragments t) (hn : g.kind = .nested)
      (h : Reached g.interior f) : Reached t f

/-- No pair of brackets stands within the pair. -/
def Bare (t : Text) (p : Span) : Prop :=
  ∀ q, Matched t q → ¬ (p.first < q.first ∧ q.last < p.last)

/-- A pair of brackets of the top level or within one of it, and no pair within it. -/
structure Innermost (t : Text) (p : Span) : Prop where
  matched : Matched t p
  within : ∃ s, TopAt t s ∧ (p = s ∨ s.first < p.first ∧ p.last < s.last)
  bare : Bare t p

/-- Where the brackets match every pair stands at or within the top level. -/
theorem Matched.exists_top {x : Text} {p : Span} (h : Matched x p) (hx : WellNested x) :
    ∃ s, TopAt x s ∧ (p = s ∨ s.first < p.first ∧ p.last < s.last) := by
  obtain ⟨o, ho⟩ := exists_outline (bracketWord_iff.mpr hx)
  have hp := (matched_iff ho).mp h
  rw [Outline.spans_eq_flatMap] at hp
  obtain ⟨q, hq, hp⟩ := List.mem_flatMap.mp hp
  have htop : TopAt x q.1 := by
    rw [← mem_spans_iff, spans_eq_tops ho]
    exact List.mem_map_of_mem hq
  refine ⟨q.1, htop, ?_⟩
  rcases List.mem_cons.mp hp with hp | hp
  · exact Or.inl hp
  · right
    exact ((Outline.mem_spans_inner_iff (Outline.mem_pairs_of_mem_tops hq)).mp hp).2

/-- Matching brackets are pairs. -/
theorem exists_matched {x : Text} (hx : WellNested x) (ho : Sign.opening ∈ signs false x) :
    ∃ p, Matched x p := by
  obtain ⟨o, hword⟩ := exists_outline (bracketWord_iff.mpr hx)
  have hfragments : fragments x ≠ [] := fun h => (fragments_eq_nil_iff hword).mp h ho
  rw [fragments_eq, ne_eq, List.map_eq_nil_iff] at hfragments
  obtain ⟨s, hs⟩ := List.exists_mem_of_ne_nil _ hfragments
  obtain ⟨u, y, w, hp⟩ := exists_of_mem_spans hs
  exact ⟨s, hp.matched⟩

/-! ## the kinds of a fragment -/

theorem kindOf_eq_leaf_iff {f : Text} : kindOf f = .leaf ↔ '@' ∈ f ∧ isNested f = false := by
  unfold kindOf isLiteral
  by_cases ha : '@' ∈ f
  · cases isNested f <;> simp [ha]
  · simp [ha]

theorem kindOf_eq_nested_iff {f : Text} : kindOf f = .nested ↔ '@' ∈ f ∧ isNested f = true := by
  unfold kindOf isLiteral
  by_cases ha : '@' ∈ f
  · cases isNested f <;> simp [ha]
  · simp [ha]

section
variable {x : Text}

theorem mem_bracketed_iff : '@' ∈ Render.bracketed x ↔ '@' ∈ x := by
  simp [Render.bracketed]

theorem kindOf_bracketed_leaf (hx : endsEscaping false x = false) :
    kindOf (Render.bracketed x) = .leaf ↔ '@' ∈ x ∧ Sign.opening ∉ signs false x := by
  rw [kindOf_eq_leaf_iff, mem_bracketed_iff, isNested_bracketed hx, ← Bool.not_eq_true,
    List.contains_iff_mem]

theorem kindOf_bracketed_nested (hx : endsEscaping false x = false) :
    kindOf (Render.bracketed x) = .nested ↔ '@' ∈ x ∧ Sign.opening ∈ signs false x := by
  rw [kindOf_eq_nested_iff, mem_bracketed_iff, isNested_bracketed hx, List.contains_iff_mem]

end

/-! ## pairs within a fragment -/

section
variable {t u x w : Text} {s p : Span}

theorem SpanAt.mem_fragments (h : SpanAt t s u x w) : fragmentAt t s ∈ fragments t :=
  List.mem_map_of_mem h.mem_spans

theorem SpanAt.kind (h : SpanAt t s u x w) :
    (fragmentAt t s).kind = kindOf (Render.bracketed x) := by
  rw [← h.slice]
  rfl

theorem SpanAt.interior_eq (h : SpanAt t s u x w) : (fragmentAt t s).interior = x := by
  show Template.interior (s.slice t) = x
  rw [h.slice, interior_bracketed]

theorem SpanAt.inside_eq (h : SpanAt t s u x w) : s.inside t = x := by
  rw [← h.matched.interior, h.slice, interior_bracketed]

/-- The interior with what stands before and behind it. -/
theorem SpanAt.cut (h : SpanAt t s u x w) : ∃ a b, t = a ++ x ++ b ∧ a.length = s.first + 1 ∧
    s.last = s.first + x.length + 1 ∧ endsEscaping false a = false := by
  refine ⟨u ++ ['{'], '}' :: w, ?_, ?_, ?_, endsEscaping_open (q := [])⟩
  · rw [h.text, Render.bracketed]
    simp
  · rw [h.span, List.length_append]
    rfl
  · rw [h.span]

theorem SpanAt.length_lt (h : SpanAt t s u x w) : x.length < t.length := by
  rw [h.text, Render.bracketed]
  simp only [List.length_append, List.length_cons]
  omega

/-- A pair of the interior is a pair of the text, in its place. -/
theorem SpanAt.matched_shift (h : SpanAt t s u x w) (hp : Matched x p) :
    Matched t (p.shift (s.first + 1)) := by
  obtain ⟨a, b, rfl, hlen, -, ha⟩ := h.cut
  have hfirst := (List.getElem?_eq_some_iff.mp hp.opens.1).1
  have hlast := (List.getElem?_eq_some_iff.mp hp.closes.1).1
  rw [← hlen]
  exact (matched_within ha hfirst hlast).mpr hp

/-- A pair within the fragment is one of its interior. -/
theorem SpanAt.exists_shift (h : SpanAt t s u x w) {q : Span} (hq : Matched t q)
    (hlo : s.first < q.first) (hhi : q.last < s.last) :
    ∃ p, q = p.shift (s.first + 1) ∧ Matched x p := by
  obtain ⟨a, b, rfl, hlen, hend, ha⟩ := h.cut
  obtain ⟨p, rfl⟩ := Span.exists_shift (k := s.first + 1) hlo hq.lt
  have hlt : p.last + (s.first + 1) < s.last := hhi
  have hle : p.first + (s.first + 1) < p.last + (s.first + 1) := hq.lt
  rw [← hlen] at hq
  exact ⟨p, rfl, (matched_within ha (by omega) (by omega)).mp hq⟩

theorem SpanAt.inside_shift (h : SpanAt t s u x w) (hp : Matched x p) :
    (p.shift (s.first + 1)).inside t = p.inside x := by
  obtain ⟨a, b, rfl, hlen, -, -⟩ := h.cut
  have hlast := (List.getElem?_eq_some_iff.mp hp.closes.1).1
  rw [← hlen, List.append_assoc, Span.inside_shift, Span.inside_append (Nat.le_of_lt hlast)]

/-- A fragment is bare if no bracket opens in it. -/
theorem SpanAt.bare_iff (h : SpanAt t s u x w) : Bare t s ↔ Sign.opening ∉ signs false x := by
  obtain ⟨a, b, -, -, hend, -⟩ := h.cut
  constructor
  · intro hbare ho
    obtain ⟨p, hp⟩ := exists_matched h.interior.wellNested ho
    have hlast := (List.getElem?_eq_some_iff.mp hp.closes.1).1
    refine hbare _ (h.matched_shift hp) ⟨?_, ?_⟩
    · show s.first < p.first + (s.first + 1)
      omega
    · show p.last + (s.first + 1) < s.last
      omega
  · rintro ho q hq ⟨hlo, hhi⟩
    obtain ⟨p, rfl, hp⟩ := h.exists_shift hq hlo hhi
    exact ho (List.mem_of_getElem? (unescapedAt_opening.mp hp.opens))

/-- The innermost pairs within a fragment are those of its interior. -/
theorem SpanAt.innermost_iff (h : SpanAt t s u x w) (hp : Matched x p) :
    Innermost t (p.shift (s.first + 1)) ↔ Innermost x p := by
  obtain ⟨a, b, -, -, hend, -⟩ := h.cut
  have hlast := (List.getElem?_eq_some_iff.mp hp.closes.1).1
  have hlo : s.first < p.first + (s.first + 1) := by omega
  have hhi : p.last + (s.first + 1) < s.last := by omega
  constructor
  · intro hin
    refine ⟨hp, hp.exists_top h.interior.wellNested, ?_⟩
    rintro q hq ⟨hql, hqr⟩
    exact hin.bare _ (h.matched_shift hq) ⟨Nat.add_lt_add_right hql _, Nat.add_lt_add_right hqr _⟩
  · intro hin
    refine ⟨h.matched_shift hp, ⟨s, h.topAt, Or.inr ⟨hlo, hhi⟩⟩, ?_⟩
    rintro q hq ⟨hql, hqr⟩
    obtain ⟨p', rfl, hp'⟩ := h.exists_shift hq (Nat.lt_trans hlo hql) (Nat.lt_trans hqr hhi)
    exact hin.bare p' hp' ⟨Nat.lt_of_add_lt_add_right hql, Nat.lt_of_add_lt_add_right hqr⟩

end

/-! ## both accounts -/

theorem innermost_of_reached {t : Text} {f : Fragment} (h : Reached t f) (hl : f.kind = .leaf) :
    ∃ p, Innermost t p ∧ '@' ∈ p.inside t := by
  induction h with
  | @top t f hf =>
    obtain ⟨s, hs, rfl⟩ := List.mem_map.mp hf
    obtain ⟨u, x, w, hp⟩ := exists_of_mem_spans hs
    have hkind : kindOf (Render.bracketed x) = .leaf := hp.kind.symm.trans hl
    obtain ⟨ha, ho⟩ := (kindOf_bracketed_leaf hp.interior.ends).mp hkind
    refine ⟨s, ⟨hp.matched, ⟨s, hp.topAt, Or.inl rfl⟩, hp.bare_iff.mpr ho⟩, ?_⟩
    rwa [hp.inside_eq]
  | @within t f g hg hn hr ih =>
    obtain ⟨s, hs, rfl⟩ := List.mem_map.mp hg
    obtain ⟨u, x, w, hp⟩ := exists_of_mem_spans hs
    obtain ⟨p, hin, ha⟩ := ih hl
    have hx : (fragmentAt t s).interior = x := hp.interior_eq
    change Innermost (fragmentAt t s).interior p at hin
    change '@' ∈ p.inside (fragmentAt t s).interior at ha
    rw [hx] at hin ha
    refine ⟨p.shift (s.first + 1), (hp.innermost_iff hin.matched).mpr hin, ?_⟩
    rwa [hp.inside_shift hin.matched]

theorem reached_of_innermost {t : Text} {p : Span} (h : Innermost t p) (ha : '@' ∈ p.inside t) :
    ∃ f, Reached t f ∧ f.kind = .leaf := by
  induction hn : t.length using Nat.strongRecOn generalizing t p with
  | ind n ih =>
    obtain ⟨s, htop, hwithin⟩ := h.within
    obtain ⟨u, x, w, hp⟩ := htop.spanAt
    rcases hwithin with rfl | ⟨hlo, hhi⟩
    · -- the pair is a fragment itself
      rw [hp.inside_eq] at ha
      refine ⟨fragmentAt t p, .top hp.mem_fragments, ?_⟩
      rw [hp.kind]
      exact (kindOf_bracketed_leaf hp.interior.ends).mpr ⟨ha, hp.bare_iff.mp h.bare⟩
    · obtain ⟨q, rfl, hq⟩ := hp.exists_shift h.matched hlo hhi
      rw [hp.inside_shift hq] at ha
      obtain ⟨f, hf, hl⟩ := ih x.length (hn ▸ hp.length_lt) ((hp.innermost_iff hq).mp h) ha rfl
      have hopen := List.mem_of_getElem? (unescapedAt_opening.mp hq.opens)
      refine ⟨f, .within hp.mem_fragments ?_ ?_, hl⟩
      · rw [hp.kind]
        exact (kindOf_bracketed_nested hp.interior.ends).mpr ⟨Span.mem_of_mem_inside ha, hopen⟩
      · rwa [hp.interior_eq]

/-- The recursion comes to a leaf if and only if there is an `@` in an innermost pair. -/
theorem leaf_reached_iff (t : Text) :
    (∃ f, Reached t f ∧ f.kind = .leaf) ↔ ∃ p, Innermost t p ∧ '@' ∈ p.inside t :=
  ⟨fun ⟨_, hf, hl⟩ => innermost_of_reached hf hl, fun ⟨_, hp, ha⟩ => reached_of_innermost hp ha⟩

end Template
end Citations
