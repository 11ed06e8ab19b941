import Mathlib.Algebra.GroupWithZero.Nat
import Mathlib.Data.List.Nodup
import Citations.Proofs.Brackets

/-!
# The outline of matching brackets

A row of signs whose brackets match is read by a grammar: it is empty, or starts with a token or a
plain sign, or with a pair of brackets around such a row.  The outline is the tree of that reading.
From it the pairs are listed with their places, so two scanners that each walk over the row can be
compared with the tree and not with each other.

* `Outline`, `Outline.word`     the tree, and the row that it reads;
* `BracketWord ss`              some outline reads `ss`; `bracketWord_iff` by the depth;
* `Outline.pairs`               the pairs with what they hold, an outer pair before its inner ones;
* `Outline.pops`                the pairs in the order in which they are closed;
* `Outline.tops`                the pairs within no other;
* `Outline.tokens`              the places of the tokens outside every pair;
* `Outline.mem_spans_iff`       the pairs are the brackets with a matching row between them.
-/

namespace Citations
namespace Template

/-- How a row of signs with matching brackets is put together. -/
inductive Outline where
  | nil
  | token (rest : Outline)
  | plain (rest : Outline)
  | pair (inner rest : Outline)
  deriving DecidableEq, Repr

namespace Outline

/-- The row of signs. -/
def word : Outline → List Sign
  | nil => []
  | token r => .token :: r.word
  | plain r => .plain :: r.word
  | pair a r => .opening :: a.word ++ .closing :: r.word

theorem word_nil : nil.word = [] := rfl
theorem word_token (r : Outline) : (token r).word = .token :: r.word := rfl
theorem word_plain (r : Outline) : (plain r).word = .plain :: r.word := rfl
theorem word_pair (a r : Outline) : (pair a r).word = .opening :: a.word ++ .closing :: r.word := rfl

/-- How many signs the row has. -/
def size (o : Outline) : Nat := o.word.length

theorem size_token (r : Outline) : (token r).size = r.size + 1 := rfl
theorem size_plain (r : Outline) : (plain r).size = r.size + 1 := rfl

theorem size_pair (a r : Outline) : (pair a r).size = a.size + r.size + 2 := by
  simp only [size, word_pair, List.length_append, List.length_cons]
  omega

end Outline

/-! ## words with matching brackets -/

/-- The brackets of the signs match. -/
def BracketWord (ss : List Sign) : Prop := ∃ o : Outline, o.word = ss

theorem nest_word (o : Outline) (d : Nat) : nest d o.word = some d := by
  induction o generalizing d with
  | nil => rfl
  | token r ih => exact ih d
  | plain r ih => exact ih d
  | pair a r iha ihr =>
    show nest (d + 1) (a.word ++ .closing :: r.word) = some d
    rw [nest_append_of (iha (d + 1))]
    exact ihr d

/-- Signs that close `d` brackets are `d + 1` outlines with a `}` between each two. -/
theorem exists_outlines {d : Nat} {ss : List Sign} (h : nest d ss = some 0) :
    ∃ (o : Outline) (os : List Outline), os.length = d ∧
      ss = o.word ++ os.flatMap fun p => .closing :: p.word := by
  induction ss generalizing d with
  | nil =>
    rw [nest_nil] at h
    exact ⟨.nil, [], (Option.some.inj h).symm, rfl⟩
  | cons s r ih =>
    cases s with
    | opening =>
      -- the first two outlines become a pair and what follows it
      obtain ⟨a, os, hlen, hr⟩ := ih (d := d + 1) h
      cases os with
      | nil => cases hlen
      | cons p os =>
        refine ⟨.pair a p, os, Nat.succ.inj hlen, ?_⟩
        rw [hr, Outline.word_pair, List.flatMap_cons]
        simp
    | closing =>
      cases d with
      | zero => cases h
      | succ d =>
        obtain ⟨o, os, hlen, hr⟩ := ih (d := d) h
        refine ⟨.nil, o :: os, congrArg Nat.succ hlen, ?_⟩
        rw [hr, Outline.word_nil, List.flatMap_cons]
        rfl
    | token =>
      obtain ⟨o, os, hlen, hr⟩ := ih (d := d) h
      exact ⟨.token o, os, hlen, congrArg _ hr⟩
    | plain =>
      obtain ⟨o, os, hlen, hr⟩ := ih (d := d) h
      exact ⟨.plain o, os, hlen, congrArg _ hr⟩

theorem bracketWord_iff {ss : List Sign} : BracketWord ss ↔ nest 0 ss = some 0 := by
  constructor
  · rintro ⟨o, rfl⟩
    exact nest_word o 0
  · intro h
    obtain ⟨o, os, hlen, hss⟩ := exists_outlines h
    rw [List.length_eq_zero_iff.mp hlen, List.flatMap_nil, List.append_nil] at hss
    exact ⟨o, hss.symm⟩

/-- The first `}` that is not matched is the same, wherever the reading of a word stops. -/
theorem eq_of_append_closing {a b v w : List Sign} (ha : nest 0 a = some 0) (hb : nest 0 b = some 0)
    (h : a ++ .closing :: v = b ++ .closing :: w) : a = b := by
  have hstop : ∀ {x y z : List Sign}, nest 0 x = some 0 → nest 0 (x ++ .closing :: y ++ z) ≠ some 0 := by
    intro x y z hx hxy
    rw [List.append_assoc, nest_append_of hx] at hxy
    cases hxy
  rcases List.append_eq_append_iff.mp h with ⟨m, hm, hm'⟩ | ⟨m, hm, hm'⟩
  · cases m with
    | nil => rw [hm, List.append_nil]
    | cons s m =>
      obtain rfl : Sign.closing = s := (List.cons.inj hm').1
      have := hstop (y := m) (z := []) ha
      rw [List.append_nil, ← hm] at this
      exact absurd hb this
  · cases m with
    | nil => rw [hm, List.append_nil]
    | cons s m =>
      obtain rfl : Sign.closing = s := (List.cons.inj hm').1
      have := hstop (y := m) (z := []) hb
      rw [List.append_nil, ← hm] at this
      exact absurd ha this

/-! ## pairs and tokens with their places -/

namespace Outline

/-- The pairs of brackets, each with what it holds, from position `i` on. -/
def pairs (i : Nat) : Outline → List (Span × Outline)
  | nil => []
  | token r => r.pairs (i + 1)
  | plain r => r.pairs (i + 1)
  | pair a r => (⟨i, i + a.size + 1⟩, a) :: (a.pairs (i + 1) ++ r.pairs (i + a.size + 2))

/-- The same pairs in the order of their closing brackets. -/
def pops (i : Nat) : Outline → List Span
  | nil => []
  | token r => r.pops (i + 1)
  | plain r => r.pops (i + 1)
  | pair a r => a.pops (i + 1) ++ ⟨i, i + a.size + 1⟩ :: r.pops (i + a.size + 2)

/-- The places of the tokens that stand outside every pair. -/
def tokens (i : Nat) : Outline → List Nat
  | nil => []
  | token r => i :: r.tokens (i + 1)
  | plain r => r.tokens (i + 1)
  | pair a r => r.tokens (i + a.size + 2)

def spans (i : Nat) (o : Outline) : List Span := (o.pairs i).map Prod.fst

theorem spans_pair (i : Nat) (a r : Outline) : (pair a r).spans i =
    ⟨i, i + a.size + 1⟩ :: (a.spans (i + 1) ++ r.spans (i + a.size + 2)) := by
  simp [spans, pairs]

theorem pops_perm (o : Outline) (i : Nat) : (o.pops i).Perm (o.spans i) := by
  induction o generalizing i with
  | nil => exact .refl _
  | token r ih => exact ih (i + 1)
  | plain r ih => exact ih (i + 1)
  | pair a r iha ihr =>
    rw [spans_pair]
    exact List.perm_middle.trans (((iha _).append (ihr _)).cons _)

/-- The pairs that stand within no other. -/
def tops (i : Nat) : Outline → List (Span × Outline)
  | nil => []
  | token r => r.tops (i + 1)
  | plain r => r.tops (i + 1)
  | pair a r => (⟨i, i + a.size + 1⟩, a) :: r.tops (i + a.size + 2)

/-- The pairs are the outer ones, each with the pairs of what it holds behind it. -/
theorem pairs_eq_flatMap (o : Outline) (i : Nat) :
    o.pairs i = (o.tops i).flatMap fun p => p :: p.2.pairs (p.1.first + 1) := by
  induction o generalizing i with
  | nil => rfl
  | token r ih => exact ih (i + 1)
  | plain r ih => exact ih (i + 1)
  | pair a r _ ihr =>
    rw [pairs, ihr, tops, List.flatMap_cons]
    rfl

theorem spans_eq_flatMap (o : Outline) (i : Nat) :
    o.spans i = (o.tops i).flatMap fun p => p.1 :: p.2.spans (p.1.first + 1) := by
  rw [spans, pairs_eq_flatMap, List.map_flatMap]
  rfl

theorem mem_pairs_of_mem_tops {o : Outline} {i : Nat} {p : Span × Outline} (h : p ∈ o.tops i) :
    p ∈ o.pairs i := by
  rw [pairs_eq_flatMap]
  exact List.mem_flatMap.mpr ⟨p, h, List.mem_cons_self⟩

/-- A pair lies within the row, and its interior fills it. -/
theorem place_of_mem_pairs {o : Outline} {i : Nat} {p : Span × Outline} (h : p ∈ o.pairs i) :
    i ≤ p.1.first ∧ p.1.last = p.1.first + p.2.size + 1 ∧ p.1.last < i + o.size := by
  induction o generalizing i with
  | nil => cases h
  | token r ih =>
    have := ih h
    rw [size_token]
    omega
  | plain r ih =>
    have := ih h
    rw [size_plain]
    omega
  | pair a r iha ihr =>
    rw [size_pair]
    rcases List.mem_cons.mp h with rfl | h
    · show i ≤ i ∧ i + a.size + 1 = i + a.size + 1 ∧ i + a.size + 1 < i + (a.size + r.size + 2)
      omega
    · rcases List.mem_append.mp h with h | h
      · have := iha h
        omega
      · have := ihr h
        omega

theorem mem_idxsOf_iff {s : Sign} {ss : List Sign} {i k : Nat} :
    k ∈ ss.idxsOf s i ↔ i ≤ k ∧ ss[k - i]? = some s := by
  rw [List.mem_idxsOf_iff_getElem_sub_pos, List.getElem?_eq_some_iff]
  simp only [beq_iff_eq]

/-- Where a sign stands in a pair and what follows it. -/
theorem idxsOf_word_pair (s : Sign) (i : Nat) (a r : Outline) :
    (pair a r).word.idxsOf s i =
      (if Sign.opening = s then [i] else []) ++ (a.word.idxsOf s (i + 1) ++
        ((if Sign.closing = s then [i + a.size + 1] else []) ++
          r.word.idxsOf s (i + a.size + 2))) := by
  have h1 : i + 1 + a.word.length = i + a.size + 1 := by
    rw [size]
    omega
  rw [word_pair, List.cons_append, List.idxsOf_cons, List.idxsOf_append, List.idxsOf_cons, h1]
  by_cases ho : Sign.opening = s
  · rw [if_pos ho, if_pos (beq_iff_eq.mpr ho)]
    subst ho
    rfl
  · rw [if_neg ho, if_neg fun h => ho (beq_iff_eq.mp h)]
    by_cases hc : Sign.closing = s
    · rw [if_pos hc, if_pos (beq_iff_eq.mpr hc)]
      rfl
    · rw [if_neg hc, if_neg fun h => hc (beq_iff_eq.mp h)]
      rfl

/-- The `{` of the pairs are those of the row. -/
theorem map_first_spans (o : Outline) (i : Nat) :
    (o.spans i).map Span.first = o.word.idxsOf .opening i := by
  induction o generalizing i with
  | nil => rfl
  | token r ih => exact ih (i + 1)
  | plain r ih => exact ih (i + 1)
  | pair a r iha ihr =>
    rw [spans_pair, idxsOf_word_pair, List.map_cons, List.map_append, iha, ihr]
    rfl

theorem map_last_pops (o : Outline) (i : Nat) :
    (o.pops i).map Span.last = o.word.idxsOf .closing i := by
  induction o generalizing i with
  | nil => rfl
  | token r ih => exact ih (i + 1)
  | plain r ih => exact ih (i + 1)
  | pair a r iha ihr =>
    rw [pops, idxsOf_word_pair, List.map_append, List.map_cons, iha, ihr]
    rfl

/-- No two pairs start at the same `{`. -/
theorem eq_of_first_eq {o : Outline} {i : Nat} {s s' : Span} (h : s ∈ o.spans i)
    (h' : s' ∈ o.spans i) (he : s.first = s'.first) : s = s' := by
  have hnodup : ((o.spans i).map Span.first).Nodup := by
    rw [map_first_spans]
    exact List.nodup_idxsOf
  exact List.inj_on_of_nodup_map hnodup h h' he

/-- What stands before and behind a pair. -/
theorem split_of_mem_pairs {o : Outline} {i : Nat} {p : Span × Outline} (h : p ∈ o.pairs i) :
    ∃ u w, o.word = u ++ (.opening :: p.2.word ++ .closing :: w) ∧ p.1.first = i + u.length := by
  induction o generalizing i with
  | nil => cases h
  | token r ih =>
    obtain ⟨u, w, hw, hi⟩ := ih h
    refine ⟨.token :: u, w, congrArg _ hw, ?_⟩
    rw [hi, List.length_cons]
    omega
  | plain r ih =>
    obtain ⟨u, w, hw, hi⟩ := ih h
    refine ⟨.plain :: u, w, congrArg _ hw, ?_⟩
    rw [hi, List.length_cons]
    omega
  | pair a r iha ihr =>
    rcases List.mem_cons.mp h with rfl | h
    · exact ⟨[], r.word, rfl, rfl⟩
    · rcases List.mem_append.mp h with h | h
      · obtain ⟨u, w, hw, hi⟩ := iha h
        refine ⟨.opening :: u, w ++ .closing :: r.word, ?_, ?_⟩
        · rw [word_pair, hw]
          simp
        · rw [hi, List.length_cons]
          omega
      · obtain ⟨u, w, hw, hi⟩ := ihr h
        refine ⟨.opening :: a.word ++ .closing :: u, w, ?_, ?_⟩
        · rw [word_pair, hw]
          simp
        · rw [hi]
          simp only [List.length_append, List.length_cons, size]
          omega

/-- The pairs are the brackets with a matching row between them. -/
theorem mem_spans_iff {o : Outline} {i : Nat} {s : Span} :
    s ∈ o.spans i ↔ ∃ u y w, o.word = u ++ (.opening :: y ++ .closing :: w) ∧ BracketWord y ∧
      s = ⟨i + u.length, i + u.length + y.length + 1⟩ := by
  constructor
  · intro h
    obtain ⟨⟨s, a⟩, hp, rfl⟩ := List.mem_map.mp h
    obtain ⟨u, w, hw, hfirst⟩ := split_of_mem_pairs hp
    obtain ⟨_, hlast, _⟩ := place_of_mem_pairs hp
    refine ⟨u, a.word, w, hw, ⟨a, rfl⟩, ?_⟩
    show s = _
    rw [← hfirst, ← size, ← hlast]
  · rintro ⟨u, y, w, hw, hy, rfl⟩
    -- the `{` belongs to some pair, and what that holds ends at the same `}`
    have hplace : i + u.length ∈ o.word.idxsOf .opening i := by
      rw [hw, List.idxsOf_append]
      exact List.mem_append_right _ List.mem_cons_self
    rw [← map_first_spans, spans, List.map_map] at hplace
    obtain ⟨⟨s, a⟩, hp, hfirst⟩ := List.mem_map.mp hplace
    obtain ⟨u', w', hw', hfirst'⟩ := split_of_mem_pairs hp
    obtain ⟨_, hlast, _⟩ := place_of_mem_pairs hp
    have hfirst : s.first = i + u.length := hfirst
    have hfirst' : s.first = i + u'.length := hfirst'
    obtain ⟨_, htail⟩ := List.append_inj (hw'.symm.trans hw) (by omega)
    have hya : a.word = y :=
      eq_of_append_closing (nest_word a 0) (bracketWord_iff.mp hy) (List.cons.inj htail).2
    refine List.mem_map.mpr ⟨(s, a), hp, ?_⟩
    show s = _
    rw [← hfirst, ← hya, ← size, ← hlast]

/-! ## levels -/

/-- A token outside every pair is one that no pair has in it. -/
theorem mem_tokens_iff {o : Outline} {i k : Nat} :
    k ∈ o.tokens i ↔
      k ∈ o.word.idxsOf .token i ∧ ∀ s ∈ o.spans i, ¬ (s.first < k ∧ k < s.last) := by
  induction o generalizing i with
  | nil => simp [tokens, word]
  | token r ih =>
    have hpairs : ∀ s ∈ r.spans (i + 1), ¬ (s.first < i ∧ i < s.last) := by
      intro s hs
      obtain ⟨p, hp, rfl⟩ := List.mem_map.mp hs
      have := place_of_mem_pairs hp
      omega
    rw [tokens, word_token, List.idxsOf_cons, if_pos (beq_self_eq_true _), List.mem_cons,
      List.mem_cons, ih]
    constructor
    · rintro (rfl | ⟨hk, hout⟩)
      · exact ⟨Or.inl rfl, hpairs⟩
      · exact ⟨Or.inr hk, hout⟩
    · rintro ⟨rfl | hk, hout⟩
      · exact Or.inl rfl
      · exact Or.inr ⟨hk, hout⟩
  | plain r ih => exact ih
  | pair a r iha ihr =>
    rw [tokens, ihr, idxsOf_word_pair, if_neg (by decide), if_neg (by decide), List.nil_append,
      List.nil_append, spans_pair]
    constructor
    · rintro ⟨hk, hout⟩
      have hge := List.ge_of_mem_idxsOf _ hk
      refine ⟨List.mem_append_right _ hk, fun s hs => ?_⟩
      rcases List.mem_cons.mp hs with rfl | hs
      · show ¬ (i < k ∧ k < i + a.size + 1)
        omega
      · rcases List.mem_append.mp hs with hs | hs
        · obtain ⟨p, hp, rfl⟩ := List.mem_map.mp hs
          have := place_of_mem_pairs hp
          omega
        · exact hout s hs
    · rintro ⟨hk, hout⟩
      have hpair : ¬ (i < k ∧ k < i + a.size + 1) := hout _ List.mem_cons_self
      rcases List.mem_append.mp hk with hk | hk
      · have hge := List.ge_of_mem_idxsOf _ hk
        have hlt := List.lt_add_of_mem_idxsOf _ hk
        rw [← size] at hlt
        omega
      · exact ⟨hk, fun s hs => hout s (List.mem_cons_of_mem _ (List.mem_append_right _ hs))⟩

/-- The signs within a pair are those of what it holds. -/
theorem mem_idxsOf_inner_iff {o : Outline} {i k : Nat} {p : Span × Outline} (h : p ∈ o.pairs i)
    (s : Sign) :
    k ∈ p.2.word.idxsOf s (p.1.first + 1) ↔
      k ∈ o.word.idxsOf s i ∧ p.1.first < k ∧ k < p.1.last := by
  obtain ⟨u, w, hw, hfirst⟩ := split_of_mem_pairs h
  obtain ⟨_, hlast, _⟩ := place_of_mem_pairs h
  rw [size] at hlast
  have hget : ∀ j, j < p.2.word.length → o.word[u.length + (j + 1)]? = p.2.word[j]? := by
    intro j hj
    rw [hw, List.getElem?_append_right (Nat.le_add_right _ _), Nat.add_sub_cancel_left,
      List.cons_append, List.getElem?_cons_succ, List.getElem?_append_left hj]
  rw [mem_idxsOf_iff, mem_idxsOf_iff]
  constructor
  · rintro ⟨hk, hs⟩
    have hlt := (List.getElem?_eq_some_iff.mp hs).1
    have hki : k - i = u.length + (k - (p.1.first + 1) + 1) := by omega
    rw [hki, hget _ hlt]
    exact ⟨⟨by omega, hs⟩, by omega, by omega⟩
  · rintro ⟨⟨_, hs⟩, hlo, hhi⟩
    have hki : k - i = u.length + (k - (p.1.first + 1) + 1) := by omega
    rw [hki, hget _ (by omega)] at hs
    exact ⟨hlo, hs⟩

/-- The pairs within a pair are those of what it holds. -/
theorem mem_spans_inner_iff {o : Outline} {i : Nat} {p : Span × Outline} (h : p ∈ o.pairs i)
    {s : Span} :
    s ∈ p.2.spans (p.1.first + 1) ↔
      s ∈ o.spans i ∧ p.1.first < s.first ∧ s.last < p.1.last := by
  obtain ⟨_, hlast, _⟩ := place_of_mem_pairs h
  have hout : ∀ {s}, s ∈ p.2.spans (p.1.first + 1) → s ∈ o.spans i := by
    intro s hs
    obtain ⟨u, w, hw, hfirst⟩ := split_of_mem_pairs h
    obtain ⟨u', y, w', hw', hy, rfl⟩ := mem_spans_iff.mp hs
    refine mem_spans_iff.mpr ⟨u ++ .opening :: u', y, w' ++ .closing :: w, ?_, hy, ?_⟩
    · rw [hw, hw']
      simp
    · have hlen : i + (u ++ .opening :: u').length = p.1.first + 1 + u'.length := by
        rw [hfirst, List.length_append, List.length_cons]
        omega
      rw [hlen]
  constructor
  · intro hs
    obtain ⟨q, hq, rfl⟩ := List.mem_map.mp hs
    have := place_of_mem_pairs hq
    exact ⟨hout hs, by omega, by omega⟩
  · rintro ⟨hs, hlo, hhi⟩
    obtain ⟨q, hq, rfl⟩ := List.mem_map.mp hs
    obtain ⟨_, hqlast, _⟩ := place_of_mem_pairs hq
    -- a `{` within the pair is one of what it holds, and starts a pair there
    have hplace : q.1.first ∈ p.2.word.idxsOf .opening (p.1.first + 1) := by
      have hfirsts : q.1.first ∈ o.word.idxsOf .opening i := by
        rw [← map_first_spans]
        exact List.mem_map_of_mem hs
      exact (mem_idxsOf_inner_iff h _).mpr ⟨hfirsts, hlo, by omega⟩
    rw [← map_first_spans] at hplace
    obtain ⟨s', hs', he⟩ := List.mem_map.mp hplace
    rwa [← eq_of_first_eq (hout hs') hs he]

/-- The tokens of a pair's own level: within it, and within none of its inner pairs. -/
theorem mem_tokens_inner_iff {o : Outline} {i k : Nat} {p : Span × Outline} (h : p ∈ o.pairs i) :
    k ∈ p.2.tokens (p.1.first + 1) ↔
      (k ∈ o.word.idxsOf .token i ∧ p.1.first < k ∧ k < p.1.last) ∧
        ∀ s ∈ o.spans i, p.1.first < s.first → s.last < p.1.last →
          ¬ (s.first < k ∧ k < s.last) := by
  rw [mem_tokens_iff, mem_idxsOf_inner_iff h]
  constructor
  · rintro ⟨hk, hout⟩
    exact ⟨hk, fun s hs hlo hhi => hout s ((mem_spans_inner_iff h).mpr ⟨hs, hlo, hhi⟩)⟩
  · rintro ⟨hk, hout⟩
    refine ⟨hk, fun s hs => ?_⟩
    obtain ⟨hs, hlo, hhi⟩ := (mem_spans_inner_iff h).mp hs
    exact hout s hs hlo hhi

/-! ## counts -/

/-- How many tokens stand outside every pair. -/
def own : Outline → Nat
  | nil => 0
  | token r => r.own + 1
  | plain r => r.own
  | pair _ r => r.own

theorem length_tokens (o : Outline) (i : Nat) : (o.tokens i).length = o.own := by
  induction o generalizing i with
  | nil => rfl
  | token r ih => exact congrArg Nat.succ (ih (i + 1))
  | plain r ih => exact ih (i + 1)
  | pair a r _ ihr => exact ihr _

theorem nodup_tokens (o : Outline) (i : Nat) : (o.tokens i).Nodup := by
  induction o generalizing i with
  | nil => exact List.nodup_nil
  | token r ih =>
    refine List.nodup_cons.mpr ⟨fun h => ?_, ih (i + 1)⟩
    have := List.ge_of_mem_idxsOf _ (mem_tokens_iff.mp h).1
    omega
  | plain r ih => exact ih (i + 1)
  | pair a r _ ihr => exact ihr _

theorem count_opening_word (o : Outline) (i : Nat) :
    o.word.count .opening = (o.pairs i).length := by
  rw [← List.length_idxsOf (s := i), ← map_first_spans, spans, List.length_map, List.length_map]

/-- Every token stands at one level. -/
theorem count_token_word (o : Outline) (i : Nat) :
    o.word.count .token = o.own + ((o.pairs i).map fun p => p.2.own).sum := by
  induction o generalizing i with
  | nil => rfl
  | token r ih =>
    rw [word_token, List.count_cons_self, ih (i + 1), own, pairs]
    omega
  | plain r ih =>
    rw [word_plain, List.count_cons_of_ne (by decide), ih (i + 1)]
    rfl
  | pair a r iha ihr =>
    rw [word_pair, List.cons_append, List.count_cons_of_ne (by decide), List.count_append,
      List.count_cons_of_ne (by decide), iha (i + 1), ihr (i + a.size + 2), pairs, List.map_cons,
      List.map_append, List.sum_cons, List.sum_append, own]
    show a.own + _ + (r.own + _) = r.own + (a.own + (_ + _))
    omega

end Outline
end Template
end Citations
