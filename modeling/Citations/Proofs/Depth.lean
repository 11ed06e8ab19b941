import Citations.Proofs.Segments

/-!
# The depth of a text and its spans

The bracket depth of a text starts at zero, grows at an unescaped `{` and falls at an unescaped `}`,
but never below zero.  The scan for spans finds the brackets at depth zero, each with the first
place behind it where the depth is zero again, in any text, whether its brackets match or not.

* `depthAt t k`       the depth before position `k`, by the characters at the positions;
* `TopAt t s`         a `{` at depth zero, and the first place behind it where the depth is zero again;
* `topAt_iff`         between such a pair of brackets stands a text in which the brackets match;
* `mem_spans_iff`     the spans of a text are its brackets at depth zero;
* `spans_exact`       they stand one behind the other, what they hold matches, and neither a `}` with
                      nothing open nor anything behind a `{` that stays open is seen.
-/

namespace Citations
namespace Template

/-! ## depth -/

instance (t : Text) (i : Nat) (c : Char) : Decidable (UnescapedAt t i c) :=
  inferInstanceAs (Decidable (_ ∧ _))

/-- The bracket depth before a position; a `}` with nothing open leaves it at zero. -/
def depthAt (t : Text) : Nat → Nat
  | 0 => 0
  | k + 1 =>
    if UnescapedAt t k '{' then depthAt t k + 1
    else if UnescapedAt t k '}' then depthAt t k - 1
    else depthAt t k

/-- The depth before a position is the one that the signs before it lead to. -/
theorem depthAt_eq (t : Text) (k : Nat) : depthAt t k = depthFrom 0 ((signs false t).take k) := by
  induction k with
  | zero => rfl
  | succ k ih =>
    rw [depthAt, ih, List.take_add_one, depthFrom_append]
    simp only [unescapedAt_opening, unescapedAt_closing]
    generalize depthFrom 0 ((signs false t).take k) = d
    cases (signs false t)[k]? with
    | none => rfl
    | some s => cases s <;> rfl

theorem signs_take (esc : Bool) (t : Text) (k : Nat) : signs esc (t.take k) = (signs esc t).take k := by
  induction t generalizing esc k with
  | nil => simp [signs]
  | cons c r ih =>
    cases k with
    | zero => rfl
    | succ k => rw [List.take_succ_cons, signs_cons, signs_cons, List.take_succ_cons, ih]

theorem depthAt_take (t : Text) (k : Nat) : depthAt t k = depthFrom 0 (signs false (t.take k)) := by
  rw [depthAt_eq, signs_take]

/-- A text cut at an unescaped character. -/
theorem UnescapedAt.cut {t : Text} {i : Nat} {c : Char} (h : UnescapedAt t i c) :
    i < t.length ∧ t = t.take i ++ c :: t.drop (i + 1) ∧ endsEscaping false (t.take i) = false := by
  obtain ⟨hlt, hc⟩ := List.getElem?_eq_some_iff.mp h.1
  refine ⟨hlt, ?_, ?_⟩
  · rw [← hc, ← List.drop_eq_getElem_cons hlt, List.take_append_drop]
  · rw [← escapedFrom_eq false t (Nat.le_of_lt hlt)]
    exact h.2

theorem unescapedAt_append {u : Text} (hu : endsEscaping false u = false) (c : Char) (w : Text) :
    UnescapedAt (u ++ c :: w) u.length c := by
  refine ⟨by simp, ?_⟩
  rw [escapedFrom_eq false _ (by simp), List.take_left, hu]

/-! ## the top level -/

/-- A `{` at depth zero, and the first position behind it after which the depth is zero again. -/
structure TopAt (t : Text) (s : Span) : Prop where
  opens : UnescapedAt t s.first '{'
  outside : depthAt t s.first = 0
  behind : s.first < s.last
  within : s.last < t.length
  closed : depthAt t (s.last + 1) = 0
  earliest : ∀ k, s.first < k → k < s.last → depthAt t (k + 1) ≠ 0

/-- Signs that lead from depth one never to zero match, up to what they leave open. -/
theorem nest_of_depth {d : Nat} {ss : List Sign}
    (h : ∀ k, k ≤ ss.length → depthFrom (d + 1) (ss.take k) ≠ 0) :
    nest d ss = some (depthFrom (d + 1) ss - 1) := by
  induction ss generalizing d with
  | nil => rfl
  | cons s ss ih =>
    have hrest : ∀ k, k ≤ ss.length → depthFrom (depthFrom (d + 1) [s]) (ss.take k) ≠ 0 := by
      intro k hk
      have := h (k + 1) (Nat.succ_le_succ hk)
      rwa [List.take_succ_cons, ← List.singleton_append, depthFrom_append] at this
    cases s with
    | opening => exact ih (d := d + 1) hrest
    | closing =>
      cases d with
      | zero => exact absurd rfl (hrest 0 (Nat.zero_le _))
      | succ d => exact ih (d := d) hrest
    | token => exact ih (d := d) hrest
    | plain => exact ih (d := d) hrest

/-- The only sign that leads from an open bracket to depth zero. -/
theorem eq_closing_of_depth {d : Nat} {s : Sign} (hd : d ≠ 0) (h : depthFrom d [s] = 0) :
    s = .closing ∧ d = 1 := by
  cases s with
  | opening => exact absurd h (Nat.succ_ne_zero d)
  | closing =>
    have h : d - 1 = 0 := h
    exact ⟨rfl, by omega⟩
  | token => exact absurd h hd
  | plain => exact absurd h hd

/-- Within matching brackets an outer bracket stays open. -/
theorem depthFrom_take_ne_zero {x : Text} (hx : WellNested x) (k : Nat) :
    depthFrom 1 ((signs false x).take k) ≠ 0 := by
  have hsplit := hx
  rw [WellNested, ← List.take_append_drop k (signs false x)] at hsplit
  obtain ⟨e, he, _⟩ := nest_split hsplit
  rw [depthFrom_of_nest (nest_add he 1)]
  exact Nat.succ_ne_zero e

section
variable {t u x w : Text} {s : Span}

/-- The depth behind a bracket that was opened at depth zero. -/
theorem depthAt_behind (hu : endsEscaping false u = false) (hd : depthFrom 0 (signs false u) = 0)
    (r : Text) (k : Nat) :
    depthAt (u ++ '{' :: r) (u.length + 1 + k) = depthFrom 1 ((signs false r).take k) := by
  have hlen : u.length + 1 + k = (signs false u).length + (k + 1) := by
    rw [length_signs]
    omega
  rw [depthAt_eq, signs_append, hu, hlen, List.take_length_add_append, depthFrom_append, hd]
  rfl

theorem TopAt.spanAt (h : TopAt t s) : ∃ u x w, SpanAt t s u x w := by
  obtain ⟨first, last⟩ := s
  obtain ⟨hopens, houtside, hbehind, hwithin, hclosed, hearliest⟩ := h
  dsimp only at hopens houtside hbehind hwithin hclosed hearliest
  obtain ⟨hlt, hcut, hu⟩ := hopens.cut
  have hlen : (t.take first).length = first := List.length_take_of_le (Nat.le_of_lt hlt)
  have hd : depthFrom 0 (signs false (t.take first)) = 0 := by
    rw [← depthAt_take]
    exact houtside
  -- the depth along the rest, up to the last bracket
  have hdepth : ∀ k, depthAt t (first + 1 + k) =
      depthFrom 1 ((signs false (t.drop (first + 1))).take k) := by
    intro k
    have := depthAt_behind hu hd (t.drop (first + 1)) k
    rwa [← hcut, hlen] at this
  obtain ⟨n, rfl⟩ : ∃ n, last = first + 1 + n := ⟨last - (first + 1), by omega⟩
  have hn : n < (t.drop (first + 1)).length := by
    rw [List.length_drop]
    omega
  generalize t.drop (first + 1) = r at hcut hdepth hn
  have hopen : ∀ k, k ≤ n → depthFrom 1 ((signs false r).take k) ≠ 0 := by
    intro k hk
    cases k with
    | zero => exact Nat.one_ne_zero
    | succ k =>
      rw [← hdepth]
      exact hearliest (first + 1 + k) (by omega) (by omega)
  -- the last bracket is a `}` with one bracket open before it
  obtain ⟨c, hc⟩ : ∃ c, r[n]? = some c := ⟨_, List.getElem?_eq_getElem hn⟩
  have hstep := hdepth (n + 1)
  rw [show first + 1 + (n + 1) = first + 1 + n + 1 by omega, hclosed, List.take_add_one,
    signs_getElem?, hc, depthFrom_append] at hstep
  obtain ⟨hsign, hone⟩ := eq_closing_of_depth (hopen n (Nat.le_refl n)) hstep.symm
  obtain ⟨hesc, rfl⟩ := sign_eq_closing_iff.mp hsign
  obtain ⟨_, hr, hx⟩ := UnescapedAt.cut ⟨hc, hesc⟩
  have hnest : WellNested (r.take n) := by
    have hall : ∀ k, k ≤ (signs false (r.take n)).length →
        depthFrom 1 ((signs false (r.take n)).take k) ≠ 0 := by
      intro k hk
      rw [length_signs, List.length_take_of_le (Nat.le_of_lt hn)] at hk
      rw [signs_take, List.take_take, Nat.min_eq_left hk]
      exact hopen k hk
    rw [WellNested, nest_of_depth hall, signs_take, hone]
  refine ⟨t.take first, r.take n, r.drop (n + 1), ⟨?_, ?_, hu, hd, ⟨hnest, hx⟩⟩⟩
  · rw [Render.bracketed]
    simpa [← hr] using hcut
  · rw [hlen, List.length_take_of_le (Nat.le_of_lt hn), Span.mk.injEq]
    omega

theorem SpanAt.topAt (h : SpanAt t s u x w) : TopAt t s := by
  obtain ⟨htext, rfl, hu, hd, hx⟩ := h
  have ht : t = u ++ '{' :: (x ++ '}' :: w) := by
    rw [htext, Render.bracketed]
    simp
  have hdepth := fun k => depthAt_behind hu hd (x ++ '}' :: w) k
  rw [← ht] at hdepth
  refine ⟨?_, ?_, ?_, ?_, ?_, fun k hlo hhi => ?_⟩
  · rw [ht]
    exact unescapedAt_append hu '{' _
  · rw [depthAt_take, ht, List.take_left]
    exact hd
  · show u.length < u.length + x.length + 1
    omega
  · rw [ht]
    simp only [List.length_append, List.length_cons]
    omega
  · have hsigns : (signs false (x ++ '}' :: w)).take (x.length + 1) =
        signs false x ++ [.closing] := by
      rw [signs_append, hx.ends, ← length_signs false x, List.take_length_add_append]
      rfl
    show depthAt t (u.length + x.length + 1 + 1) = 0
    rw [show u.length + x.length + 1 + 1 = u.length + 1 + (x.length + 1) by omega, hdepth, hsigns,
      depthFrom_append, depthFrom_of_nest (hx.nest 1)]
    rfl
  · dsimp only at hlo hhi
    obtain ⟨m, rfl⟩ : ∃ m, k = u.length + m := ⟨k - u.length, by omega⟩
    have hm : m ≤ (signs false x).length := by
      rw [length_signs]
      omega
    rw [show u.length + m + 1 = u.length + 1 + m by omega, hdepth, signs_append,
      List.take_append_of_le_length hm]
    exact depthFrom_take_ne_zero hx.wellNested m

/-- Between a bracket at depth zero and the place that closes it the brackets match. -/
theorem topAt_iff : TopAt t s ↔ ∃ u x w, SpanAt t s u x w :=
  ⟨TopAt.spanAt, fun ⟨_, _, _, h⟩ => h.topAt⟩

/-- Such a pair is one of unescaped brackets that match. -/
theorem SpanAt.matched (h : SpanAt t s u x w) : Matched t s := by
  have htop := h.topAt
  obtain ⟨htext, rfl, hu, hd, hx⟩ := h
  have hcut : t = (u ++ '{' :: x) ++ '}' :: w := by
    rw [htext, Render.bracketed]
    simp
  have hlen : (u ++ '{' :: x).length = u.length + x.length + 1 := by
    rw [List.length_append, List.length_cons]
    omega
  refine ⟨htop.opens, ?_, htop.behind, bracketWord_iff.mpr ?_⟩
  · rw [hcut, ← hlen]
    exact unescapedAt_append (endsEscaping_open.trans hx.ends) '}' w
  · have hinside : Span.inside ⟨u.length, u.length + x.length + 1⟩ (signs false t) = signs false x := by
      rw [Span.inside, ← signs_take, hcut, ← hlen, List.take_left, signs_append, hu,
        ← length_signs false u, List.drop_length_add_append]
      rfl
    rw [hinside]
    exact hx.wellNested

/-- A `}` with nothing open stands in no such pair. -/
theorem TopAt.stray (h : TopAt t s) {i : Nat} (hc : UnescapedAt t i '}') (hd : depthAt t i = 0) :
    i < s.first ∨ s.last < i := by
  by_contra hin
  have hne : i ≠ s.first := by
    rintro rfl
    have := hc.1.symm.trans h.opens.1
    cases this
  obtain ⟨k, rfl⟩ : ∃ k, i = k + 1 := ⟨i - 1, by omega⟩
  by_cases hk : k = s.first
  · subst hk
    rw [depthAt, if_pos h.opens] at hd
    cases hd
  · exact h.earliest k (by omega) (by omega) hd

/-! ## the scan -/

theorem SpanAt.mem_spans (h : SpanAt t s u x w) : s ∈ spans t := by
  obtain ⟨htext, rfl, hu, hd, hx⟩ := h
  have hsigns : signs false (Render.bracketed x ++ w) =
      .opening :: (signs false x ++ .closing :: signs false w) := by
    rw [signs_append, signs_bracketed false hx.ends, endsEscaping_bracketed]
    simp [sign]
  rw [htext, List.append_assoc, spans_append_from hd, hu, hsigns]
  refine List.mem_append_right _ ?_
  show _ ∈ spansFrom 1 u.length (u.length + 1) (signs false x ++ .closing :: signs false w)
  rw [spansFrom_within hx.wellNested, length_signs, Nat.add_right_comm]
  exact List.mem_cons_self

theorem mem_spans_iff : s ∈ spans t ↔ TopAt t s := by
  rw [topAt_iff]
  exact ⟨exists_of_mem_spans, fun ⟨_, _, _, h⟩ => h.mem_spans⟩

/-- A span starts at or behind the place that is read, or is the one that is open there. -/
theorem first_of_mem_spansFrom {d st i : Nat} {ss : List Sign} (h : s ∈ spansFrom d st i ss) :
    i ≤ s.first ∨ (d ≠ 0 ∧ s.first = st) := by
  induction ss generalizing d st i with
  | nil => cases h
  | cons sg ss ih =>
    cases sg with
    | opening =>
      rcases ih h with h | ⟨_, h⟩
      · exact Or.inl (by omega)
      · split at h
        · exact Or.inl (by omega)
        · next hd => exact Or.inr ⟨hd, h⟩
    | closing =>
      rw [spansFrom] at h
      split at h
      · next hd =>
        rcases List.mem_cons.mp h with rfl | h
        · exact Or.inr ⟨by omega, rfl⟩
        · rcases ih h with h | ⟨h, _⟩
          · exact Or.inl (by omega)
          · exact absurd rfl h
      · rcases ih h with h | ⟨hd, h⟩
        · exact Or.inl (by omega)
        · exact Or.inr ⟨by omega, h⟩
    | token => exact (ih h).imp (fun h => by omega) id
    | plain => exact (ih h).imp (fun h => by omega) id

theorem pairwise_spansFrom (d st i : Nat) (ss : List Sign) :
    (spansFrom d st i ss).Pairwise fun a b => a.last < b.first := by
  induction ss generalizing d st i with
  | nil => exact .nil
  | cons sg ss ih =>
    cases sg with
    | opening => exact ih ..
    | closing =>
      rw [spansFrom]
      split
      · refine List.pairwise_cons.mpr ⟨fun s hs => ?_, ih ..⟩
        rcases first_of_mem_spansFrom hs with h | ⟨h, _⟩
        · exact h
        · exact absurd rfl h
      · exact ih ..
    | token => exact ih ..
    | plain => exact ih ..

/-- The spans stand one behind the other, in the order of their starts and of their ends. -/
theorem pairwise_spans (t : Text) :
    (spans t).Pairwise fun a b => a.last < b.first ∧ a.first < b.first ∧ a.last < b.last := by
  have hapart := pairwise_spansFrom 0 0 0 (signs false t)
  rw [← spans_eq] at hapart
  refine hapart.imp_of_mem fun {a b} ha hb h => ?_
  have ha := (mem_spans_iff.mp ha).behind
  have hb := (mem_spans_iff.mp hb).behind
  exact ⟨h, by omega, by omega⟩

/-- A bracket that stays open hides what stands behind it. -/
theorem spansFrom_eq_nil {d : Nat} {ss : List Sign}
    (h : ∀ k, k ≤ ss.length → depthFrom d (ss.take k) ≠ 0) (st i : Nat) :
    spansFrom d st i ss = [] := by
  induction ss generalizing d st i with
  | nil => rfl
  | cons sg ss ih =>
    have hrest : ∀ k, k ≤ ss.length → depthFrom (depthFrom d [sg]) (ss.take k) ≠ 0 := by
      intro k hk
      have := h (k + 1) (Nat.succ_le_succ hk)
      rwa [List.take_succ_cons, ← List.singleton_append, depthFrom_append] at this
    cases sg with
    | opening => exact ih hrest ..
    | closing =>
      have hd : d ≠ 1 := by
        rintro rfl
        exact hrest 0 (Nat.zero_le _) rfl
      rw [spansFrom, if_neg hd]
      exact ih hrest ..
    | token => exact ih hrest ..
    | plain => exact ih hrest ..

/-- A `{` that is never closed at depth zero hides all that stands behind it. -/
theorem spans_of_unclosed {i : Nat} (ho : UnescapedAt t i '{') (hd : depthAt t i = 0)
    (h : ∀ k, i < k → k < t.length → depthAt t (k + 1) ≠ 0) : spans t = spans (t.take i) := by
  obtain ⟨hlt, hcut, hu⟩ := ho.cut
  have hlen : (t.take i).length = i := List.length_take_of_le (Nat.le_of_lt hlt)
  rw [depthAt_take] at hd
  have hopen : ∀ k, k ≤ (signs false (t.drop (i + 1))).length →
      depthFrom 1 ((signs false (t.drop (i + 1))).take k) ≠ 0 := by
    intro k hk
    rw [length_signs, List.length_drop] at hk
    have hdepth := depthAt_behind hu hd (t.drop (i + 1)) k
    rw [← hcut, hlen] at hdepth
    rw [← hdepth]
    cases k with
    | zero =>
      rw [hdepth]
      exact Nat.one_ne_zero
    | succ k => exact h (i + 1 + k) (by omega) (by omega)
  conv_lhs => rw [hcut]
  rw [spans_append_from hd, hu]
  show _ ++ spansFrom 1 _ _ (signs false (t.drop (i + 1))) = _
  rw [spansFrom_eq_nil hopen, List.append_nil]

/-- A `}` with nothing open is scanned like any other character that opens and escapes nothing. -/
theorem spans_set_stray {i : Nat} (hc : UnescapedAt t i '}') (hd : depthAt t i = 0) {c : Char}
    (ho : c ≠ '{') (hb : c ≠ '\\') : spans (t.set i c) = spans t := by
  obtain ⟨hlt, hcut, hu⟩ := hc.cut
  rw [depthAt_take] at hd
  have hset : t.set i c = t.take i ++ c :: t.drop (i + 1) := by
    rw [List.set_eq_take_append_cons_drop, if_pos hlt]
  have hskip : ∀ e, e ≠ '{' → e ≠ '\\' → spans (t.take i ++ e :: t.drop (i + 1)) =
      spans (t.take i) ++ spansFrom 0 0 ((t.take i).length + 1) (signs false (t.drop (i + 1))) := by
    intro e ho hb
    rw [spans_append_from hd, hu, signs_cons, beq_eq_false_iff_ne.mpr hb]
    congr 1
    cases hs : sign false e with
    | opening => exact absurd (sign_eq_opening_iff.mp hs).2 ho
    | closing => rfl
    | token => rfl
    | plain => rfl
  rw [hset, hskip c ho hb]
  conv_rhs => rw [hcut]
  exact (hskip '}' (by decide) (by decide)).symm

/-- The scan finds exactly the brackets at depth zero, from left to right.  Each pair has matching
brackets between its own.  A `}` with nothing open does no more than a plain character would, and a
`{` that is never closed at depth zero hides what stands behind it. -/
theorem spans_exact (t : Text) :
    (∀ s, s ∈ spans t ↔ TopAt t s) ∧
    (spans t).Pairwise (fun a b => a.last < b.first ∧ a.first < b.first ∧ a.last < b.last) ∧
    (∀ s ∈ spans t, s.last < t.length ∧ s.slice t = '{' :: s.inside t ++ ['}'] ∧
      UnescapedAt t s.last '}' ∧ BracketWord (s.inside (signs false t)) ∧
      WellNested (s.inside t)) ∧
    (∀ i, UnescapedAt t i '}' → depthAt t i = 0 →
      (∀ s ∈ spans t, i < s.first ∨ s.last < i) ∧
      ∀ c, c ≠ '{' → c ≠ '\\' → spans (t.set i c) = spans t) ∧
    ∀ i, UnescapedAt t i '{' → depthAt t i = 0 →
      (∀ k, i < k → k < t.length → depthAt t (k + 1) ≠ 0) →
      spans t = spans (t.take i) ∧ ∀ s ∈ spans t, s.last < i := by
  refine ⟨fun s => mem_spans_iff, pairwise_spans t, fun s hs => ?_, fun i hc hd => ⟨fun s hs => ?_,
    fun c ho hb => spans_set_stray hc hd ho hb⟩, fun i ho hd h => ⟨spans_of_unclosed ho hd h, ?_⟩⟩
  · have htop := mem_spans_iff.mp hs
    obtain ⟨u, x, w, hp⟩ := htop.spanAt
    have hm := hp.matched
    refine ⟨htop.within, hm.slice, hm.closes, hm.between, ?_⟩
    rw [← hm.interior, hp.slice, interior_bracketed]
    exact hp.interior.wellNested
  · have htop := mem_spans_iff.mp hs
    exact htop.stray hc hd
  · intro s hs
    rw [spans_of_unclosed ho hd h] at hs
    have := last_lt_of_mem_spans hs
    rw [List.length_take] at this
    omega

/-- A stray `}`, two brackets that match, and one that stays open. -/
def unbalanced : Text := "\x7d\x7ba\x7bb\x7d\x7d\x7bc".toList

theorem spans_unbalanced : TopAt unbalanced ⟨1, 6⟩ ∧
    (UnescapedAt unbalanced 0 '}' ∧ depthAt unbalanced 0 = 0 ∧
      spans (unbalanced.set 0 'x') = spans unbalanced) ∧
    UnescapedAt unbalanced 7 '{' ∧ depthAt unbalanced 7 = 0 ∧
      spans unbalanced = spans (unbalanced.take 7) := by
  obtain ⟨hmem, _, _, hstray, hopen⟩ := spans_exact unbalanced
  have hspan : ⟨1, 6⟩ ∈ spans unbalanced := by decide
  have hc : UnescapedAt unbalanced 0 '}' := by decide
  have ho : UnescapedAt unbalanced 7 '{' := by decide
  have hd : depthAt unbalanced 7 = 0 := by decide
  have hlate : ∀ k, 7 < k → k < unbalanced.length → depthAt unbalanced (k + 1) ≠ 0 := by
    intro k hlo hhi
    obtain rfl : k = 8 := Nat.le_antisymm (Nat.le_of_lt_succ hhi) hlo
    decide
  exact ⟨(hmem _).mp hspan,
    ⟨hc, rfl, (hstray 0 hc rfl).2 'x' (by decide) (by decide)⟩, ho, hd, (hopen 7 ho hd hlate).1⟩

end

end Template
end Citations
