import Citations.Proofs.Acceptance
import Citations.Proofs.Fragments

/-!
# The fragments of fragments

The scan for fragments finds those of one level.  Applied again to the interior of each of them,
down to the bottom, it finds the pairs that the check of the brackets pops: both walk over the same
outline.  An interior is read without the text before it, which does no harm, because its first
character stands behind a bracket.

* `fragmentAt t s`         the fragment of `t` at a span;
* `deepFragments k t`      the fragments of `t` at every depth, where `t` starts at column `k`;
* `spans_eq_tops`          one scan finds the outer pairs of the outline;
* `deepFragments_eq`       the repeated scan finds all its pairs, as fragments of the whole text;
* `Segmented t ps`         what the fragments at every depth have to do with the pairs `ps`;
* `segmented_of_checkNesting`   for the pairs which the check of the brackets pops.
-/

namespace Citations
namespace Template

/-! ## one level -/

theorem spansFrom_map_bracketOf (d s i : Nat) (ss : List Sign) :
    spansFrom d s i (ss.map bracketOf) = spansFrom d s i ss := by
  induction ss generalizing d s i with
  | nil => rfl
  | cons sg r ih =>
    cases sg with
    | opening => exact ih ..
    | closing =>
      show (if d = 1 then _ else _) = if d = 1 then _ else _
      rw [ih, ih]
    | token => exact ih ..
    | plain => exact ih ..

theorem spansFrom_word (o : Outline) (s i : Nat) :
    spansFrom 0 s i o.word = (o.tops i).map Prod.fst := by
  induction o generalizing s i with
  | nil => rfl
  | token r ih => exact ih s (i + 1)
  | plain r ih => exact ih s (i + 1)
  | pair a r _ ihr =>
    have hi : i + 1 + a.word.length = i + a.size + 1 := by
      rw [Outline.size]
      omega
    show spansFrom 1 i (i + 1) (a.word ++ .closing :: r.word) = _
    rw [spansFrom_within (nest_word a 0), hi, Outline.tops, List.map_cons, ← ihr i]
    rfl

section
variable {t : Text} {o : Outline}

/-- One scan finds the outer pairs. -/
theorem spans_eq_tops (ho : o.word = marks false t) : spans t = (o.tops 0).map Prod.fst := by
  rw [← spansFrom_word o 0, ho, ← spansFrom_map_bracketOf, map_bracketOf_marks,
    spansFrom_map_bracketOf, spans_eq]

theorem tops_shift (o : Outline) (i k : Nat) :
    o.tops (i + k) = (o.tops i).map fun p => (p.1.shift k, p.2) := by
  induction o generalizing i with
  | nil => rfl
  | token r ih =>
    rw [Outline.tops, Outline.tops, Nat.add_right_comm]
    exact ih (i + 1)
  | plain r ih =>
    rw [Outline.tops, Outline.tops, Nat.add_right_comm]
    exact ih (i + 1)
  | pair a r _ ihr =>
    have hlast : i + k + a.size + 1 = i + a.size + 1 + k := by omega
    have hrest : i + k + a.size + 2 = i + a.size + 2 + k := by omega
    rw [Outline.tops, Outline.tops, hlast, hrest, ihr]
    rfl

/-! ## a pair in the text -/

theorem escapedFrom_eq (esc : Bool) (t : Text) {i : Nat} (h : i ≤ t.length) :
    escapedFrom esc t i = endsEscaping esc (t.take i) := by
  induction t generalizing esc i with
  | nil =>
    rw [Nat.le_zero.mp h]
    rfl
  | cons c r ih =>
    cases i with
    | zero => rfl
    | succ i =>
      have hrest := ih (c == '\\') (Nat.le_of_succ_le_succ h)
      rw [List.take_succ_cons, endsEscaping_cons, ← hrest]
      cases i <;> rfl

theorem Matched.split {s : Span} (h : Matched t s) :
    t = t.take s.first ++ (Render.bracketed (s.inside t) ++ t.drop (s.last + 1)) := by
  have := Span.split h.opens.1 h.closes.1 h.lt
  simpa [Render.bracketed] using this

theorem Matched.length_inside {s : Span} (h : Matched t s) :
    s.first ≤ t.length ∧ s.last = s.first + (s.inside t).length + 1 := by
  have hlast := (List.getElem?_eq_some_iff.mp h.closes.1).1
  have hlt := h.lt
  rw [Span.inside, List.length_drop, List.length_take]
  omega

/-- The slice of a pair is a bracketed text. -/
theorem Matched.slice {s : Span} (h : Matched t s) :
    s.slice t = Render.bracketed (s.inside t) := by
  obtain ⟨hfirst, hlast⟩ := h.length_inside
  have hlen : s.last + 1 = (t.take s.first ++ Render.bracketed (s.inside t)).length := by
    rw [List.length_append, List.length_take, Nat.min_eq_left hfirst, Render.bracketed,
      List.length_append, List.length_cons, List.length_singleton, hlast]
    omega
  have htake : t.take (s.last + 1) = t.take s.first ++ Render.bracketed (s.inside t) := by
    conv_lhs => rw [h.split, ← List.append_assoc, hlen, List.take_left]
  rw [Span.slice, htake]
  exact List.drop_left' (List.length_take_of_le hfirst)

theorem Matched.interior {s : Span} (h : Matched t s) : interior (s.slice t) = s.inside t := by
  rw [h.slice, interior_bracketed]

theorem Matched.ends_before {s : Span} (h : Matched t s) :
    endsEscaping false (t.take s.first) = false := by
  rw [← escapedFrom_eq false t h.length_inside.1]
  exact h.opens.2

theorem Matched.ends {s : Span} (h : Matched t s) : endsEscaping false (s.inside t) = false := by
  have hlast := (List.getElem?_eq_some_iff.mp h.closes.1).1
  have htake : t.take s.last = t.take s.first ++ '{' :: s.inside t := by
    obtain ⟨hfirst, hlen⟩ := h.length_inside
    have hcount : s.last = (t.take s.first ++ '{' :: s.inside t).length := by
      rw [List.length_append, List.length_take, Nat.min_eq_left hfirst, List.length_cons, hlen]
      omega
    have hsplit : t = (t.take s.first ++ '{' :: s.inside t) ++ '}' :: t.drop (s.last + 1) := by
      conv_lhs => rw [h.split]
      simp [Render.bracketed]
    conv_lhs => rw [hsplit, hcount, List.take_left]
  rw [← endsEscaping_open (u := t.take s.first), ← htake,
    ← escapedFrom_eq false t (Nat.le_of_lt hlast)]
  exact h.closes.2

theorem marks_append (esc : Bool) (a : Text) {b : Text} (hb : startsKey b = false) :
    marks esc (a ++ b) = marks esc a ++ marks (endsEscaping esc a) b := by
  induction a generalizing esc with
  | nil => rfl
  | cons c r ih =>
    have hmark : mark esc c (r ++ b) = mark esc c r := by
      have hkey : startsKey (r ++ b) = startsKey r := by
        cases r with
        | nil => exact hb
        | cons d r => rfl
      rw [mark, mark, hkey]
    rw [List.cons_append, marks_cons, marks_cons, endsEscaping_cons, ih, hmark]
    rfl

theorem startsKey_opening (r : Text) : startsKey ('{' :: r) = false := by
  show Text.isWord '{' = false
  decide

theorem startsKey_closing (r : Text) : startsKey ('}' :: r) = false := by
  show Text.isWord '}' = false
  decide

/-- A text between two unescaped brackets is read as if it stood alone. -/
theorem marks_bracketed {u x : Text} (hu : endsEscaping false u = false)
    (hx : endsEscaping false x = false) (w : Text) :
    marks false (u ++ (Render.bracketed x ++ w)) =
      marks false u ++ (.opening :: marks false x ++ .closing :: marks false w) := by
  have hword : Render.bracketed x ++ w = '{' :: (x ++ '}' :: w) := by simp [Render.bracketed]
  have hinner : marks false (x ++ '}' :: w) = marks false x ++ .closing :: marks false w := by
    rw [marks_append false x (startsKey_closing w), hx]
    rfl
  rw [hword, marks_append false u (startsKey_opening _), hu]
  show marks false u ++ (.opening :: marks false (x ++ '}' :: w)) = _
  rw [hinner]
  rfl

/-- What a pair of the outline holds is what is read between its brackets. -/
theorem word_of_mem_pairs (ho : o.word = marks false t) {p : Span × Outline} (hp : p ∈ o.pairs 0) :
    p.2.word = marks false (p.1.inside t) := by
  have hm := (matched_iff ho).mpr (List.mem_map_of_mem hp)
  obtain ⟨u, w, hw, hfirst⟩ := Outline.split_of_mem_pairs hp
  obtain ⟨_, hlast, _⟩ := Outline.place_of_mem_pairs hp
  obtain ⟨hle, hinside⟩ := hm.length_inside
  have htext := marks_bracketed hm.ends_before hm.ends (t.drop (p.1.last + 1))
  rw [← hm.split, ← ho, hw] at htext
  have hu : u.length = (marks false (t.take p.1.first)).length := by
    rw [length_marks, List.length_take, Nat.min_eq_left hle, hfirst, Nat.zero_add]
  obtain ⟨_, htail⟩ := List.append_inj htext hu
  rw [Outline.size] at hlast
  refine (List.append_inj (List.cons.inj htail).2 ?_).1
  rw [length_marks]
  omega

end

/-! ## every level -/

/-- The fragment of a text at a span. -/
def fragmentAt (t : Text) (s : Span) : Fragment := ⟨s, s.slice t, kindOf (s.slice t)⟩

theorem fragments_eq (t : Text) : fragments t = (spans t).map (fragmentAt t) := rfl

theorem length_interior_of_mem_fragments {t : Text} {f : Fragment} (h : f ∈ fragments t) :
    f.interior.length < t.length := by
  obtain ⟨s, hs, rfl⟩ := List.mem_map.mp h
  obtain ⟨u, x, w, hp⟩ := exists_of_mem_spans hs
  show (interior (s.slice t)).length < t.length
  rw [hp.slice, interior_bracketed, hp.text, Render.bracketed]
  simp only [List.length_append, List.length_cons]
  omega

/-- The fragments of a text that starts at column `k`, with those of their interiors, down to the
bottom. -/
def deepFragments (k : Nat) (t : Text) : List Fragment :=
  (fragments t).attach.flatMap fun ⟨f, _h⟩ =>
    { f with span := f.span.shift k } :: deepFragments (k + f.span.first + 1) f.interior
termination_by t.length
decreasing_by exact length_interior_of_mem_fragments _h

theorem deepFragments_unfold (k : Nat) (t : Text) :
    deepFragments k t = (fragments t).flatMap fun f =>
      { f with span := f.span.shift k } :: deepFragments (k + f.span.first + 1) f.interior := by
  rw [deepFragments]
  simp

/-- A pair found in a part of a text is, at its place in the whole, the same fragment. -/
theorem fragmentAt_shift {t : Text} {s : Span} (h : s.last < t.length) (before after : Text) :
    fragmentAt (before ++ t ++ after) (s.shift before.length) =
      { fragmentAt t s with span := s.shift before.length } := by
  have hslice : (s.shift before.length).slice (before ++ t ++ after) = s.slice t := by
    rw [List.append_assoc, Span.slice_shift, Span.slice_append h]
  rw [fragmentAt, hslice]
  rfl

/-- The fragments at every depth are those at the pairs of the outline. -/
theorem deepFragments_eq {t : Text} {o : Outline} (ho : o.word = marks false t)
    (before after : Text) :
    deepFragments before.length t =
      (o.spans before.length).map (fragmentAt (before ++ t ++ after)) := by
  induction hn : t.length using Nat.strongRecOn generalizing t o before after with
  | ind n ih =>
    have htops := tops_shift o 0 before.length
    rw [Nat.zero_add] at htops
    rw [deepFragments_unfold, fragments_eq, spans_eq_tops ho, Outline.spans_eq_flatMap, htops,
      List.flatMap_map, List.flatMap_map, List.flatMap_map, List.map_flatMap]
    refine List.flatMap_congr fun p hp => ?_
    have hp := Outline.mem_pairs_of_mem_tops hp
    have hm := (matched_iff ho).mpr (List.mem_map_of_mem hp)
    have hlast := (List.getElem?_eq_some_iff.mp hm.closes.1).1
    obtain ⟨hfirst, hlen⟩ := hm.length_inside
    -- the interior, with what stands around it in the whole text
    have hbefore : (before ++ t.take p.1.first ++ ['{']).length = before.length + p.1.first + 1 := by
      rw [List.length_append, List.length_append, List.length_take_of_le hfirst]
      rfl
    have hwhole : before ++ t.take p.1.first ++ ['{'] ++ p.1.inside t ++
        ('}' :: t.drop (p.1.last + 1) ++ after) = before ++ t ++ after := by
      conv_rhs => rw [hm.split]
      simp [Render.bracketed]
    have hinner := ih (p.1.inside t).length (by omega) (word_of_mem_pairs ho hp)
      (before ++ t.take p.1.first ++ ['{']) ('}' :: t.drop (p.1.last + 1) ++ after) rfl
    rw [hbefore, hwhole] at hinner
    have hshift : (p.1.shift before.length).first + 1 = before.length + p.1.first + 1 := by
      show p.1.first + before.length + 1 = _
      omega
    rw [List.map_cons, hshift, ← hinner, fragmentAt_shift hlast]
    show _ :: deepFragments _ (interior (p.1.slice t)) = _
    rw [hm.interior]
    rfl

/-- The fragments of a whole text at every depth. -/
theorem deepFragments_zero {t : Text} {o : Outline} (ho : o.word = marks false t) :
    deepFragments 0 t = (o.spans 0).map (fragmentAt t) := by
  have := deepFragments_eq ho [] []
  rwa [List.nil_append, List.append_nil] at this

/-! ## the kinds -/

theorem mem_of_token_mem_marks {esc : Bool} {t : Text} (h : Sign.token ∈ marks esc t) : '@' ∈ t := by
  obtain ⟨i, hi⟩ := List.mem_iff_getElem?.mp h
  obtain ⟨hs, _⟩ := (marks_getElem?_token esc t i).mp hi
  rw [signs_getElem?, Option.map_eq_some_iff] at hs
  obtain ⟨c, hc, hsign⟩ := hs
  rw [(sign_eq_token_iff.mp hsign).2] at hc
  exact List.mem_of_getElem? hc

theorem fragments_eq_nil_iff {t : Text} {o : Outline} (ho : o.word = marks false t) :
    fragments t = [] ↔ Sign.opening ∉ signs false t := by
  have hopen : Sign.opening ∈ signs false t ↔ Sign.opening ∈ o.word := by
    rw [ho, List.mem_iff_getElem?, List.mem_iff_getElem?]
    exact exists_congr fun i => (marks_getElem?_bracket (by decide) (by decide) false t i).symm
  have hpairs : o.pairs 0 = [] ↔ Sign.opening ∉ o.word := by
    rw [← List.count_eq_zero, o.count_opening_word 0, List.length_eq_zero_iff]
  rw [hopen, ← hpairs, fragments_eq, List.map_eq_nil_iff, spans_eq_tops ho, List.map_eq_nil_iff,
    Outline.pairs_eq_flatMap]
  constructor
  · intro h
    rw [h]
    rfl
  · intro h
    refine List.eq_nil_iff_forall_not_mem.mpr fun p hp => ?_
    exact List.cons_ne_nil _ _ (List.flatMap_eq_nil_iff.mp h p hp)

/-- What the fragments at every depth have to do with a list of pairs: they are those pairs, each
unescaped bracket belongs to exactly one of them, and their kinds say what they hold. -/
structure Segmented (t : Text) (ps : List Span) : Prop where
  pairing : ((deepFragments 0 t).map (·.span)).Perm ps
  starts_nodup : ((deepFragments 0 t).map (·.span.first)).Nodup
  starts : ∀ i, i ∈ (deepFragments 0 t).map (·.span.first) ↔ UnescapedAt t i '{'
  ends_nodup : ((deepFragments 0 t).map (·.span.last)).Nodup
  ends : ∀ i, i ∈ (deepFragments 0 t).map (·.span.last) ↔ UnescapedAt t i '}'
  texts : ∀ f ∈ deepFragments 0 t, f.text = f.span.slice t
  nonliteral : ∀ f ∈ deepFragments 0 t, f.kind ≠ .literal
  nested : ∀ f ∈ deepFragments 0 t, f.kind = .nested ↔ fragments f.interior ≠ []
  leaf : ∀ f ∈ deepFragments 0 t, f.kind = .leaf →
    ∀ i, ¬ UnescapedAt f.interior i '{' ∧ ¬ UnescapedAt f.interior i '}'

section
variable {t : Text} {o : Outline}

/-- The brackets of the outline are the unescaped ones of the text. -/
theorem mem_idxsOf_bracket (ho : o.word = marks false t) {c : Char} {s : Sign}
    (hs : ∀ esc d, sign esc d = s ↔ esc = false ∧ d = c) (h : s ≠ .token) (h' : s ≠ .plain)
    {i : Nat} : i ∈ o.word.idxsOf s 0 ↔ UnescapedAt t i c := by
  rw [Outline.mem_idxsOf_iff, ho, Nat.sub_zero, marks_getElem?_bracket h h', ← unescapedAt_iff hs]
  exact and_iff_right (Nat.zero_le i)

/-- Between the brackets of a pair stands a well-nested text. -/
theorem wellNested_of_mem_pairs (ho : o.word = marks false t) {p : Span × Outline}
    (hp : p ∈ o.pairs 0) : WellNested (p.1.inside t) :=
  bracketWord_iff.mp (bracketWord_marks.mp ⟨p.2, word_of_mem_pairs ho hp⟩)

theorem interior_of_mem_pairs (ho : o.word = marks false t) {p : Span × Outline}
    (hp : p ∈ o.pairs 0) : (fragmentAt t p.1).interior = p.1.inside t :=
  ((matched_iff ho).mpr (List.mem_map_of_mem hp)).interior

/-- A fragment with a token of its own says by its kind whether it holds fragments. -/
theorem kind_of_mem_pairs (ho : o.word = marks false t) {p : Span × Outline} (hp : p ∈ o.pairs 0)
    (hown : 0 < p.2.own) :
    (fragmentAt t p.1).kind =
      if fragments (fragmentAt t p.1).interior = [] then .leaf else .nested := by
  have hm := (matched_iff ho).mpr (List.mem_map_of_mem hp)
  have hword := word_of_mem_pairs ho hp
  have htoken : '@' ∈ p.1.inside t := by
    have hmark : Sign.token ∈ marks false (p.1.inside t) := by
      rw [← List.count_pos_iff, ← hword, p.2.count_token_word 0]
      omega
    exact mem_of_token_mem_marks hmark
  have hliteral : isLiteral (p.1.slice t) = false := by
    rw [hm.slice, isLiteral, Render.bracketed]
    simp [htoken]
  rw [interior_of_mem_pairs ho hp, fragmentAt, kindOf, hliteral, hm.slice, isNested_bracketed hm.ends]
  simp only [fragments_eq_nil_iff hword, List.contains_iff_mem, Bool.false_eq_true, if_false]
  split <;> simp_all

/-- A fragment without fragments in it holds no unescaped bracket at all. -/
theorem no_brackets_of_fragments_eq_nil (ho : o.word = marks false t) {p : Span × Outline}
    (hp : p ∈ o.pairs 0) (h : fragments (fragmentAt t p.1).interior = []) (i : Nat) :
    ¬ UnescapedAt (fragmentAt t p.1).interior i '{' ∧
      ¬ UnescapedAt (fragmentAt t p.1).interior i '}' := by
  rw [interior_of_mem_pairs ho hp] at h ⊢
  have hopen := (fragments_eq_nil_iff (word_of_mem_pairs ho hp)).mp h
  have hcount := nest_count (wellNested_of_mem_pairs ho hp)
  rw [List.count_eq_zero.mpr hopen] at hcount
  have hclose : Sign.closing ∉ signs false (p.1.inside t) := List.count_eq_zero.mp (by omega)
  rw [unescapedAt_opening, unescapedAt_closing]
  exact ⟨fun hi => hopen (List.mem_of_getElem? hi), fun hi => hclose (List.mem_of_getElem? hi)⟩

/-- The fragments at every depth are the pairs that the check of the brackets pops. -/
theorem segmented_of_pops {ps : List Span} (h : pops t = .ok ps) : Segmented t ps := by
  have hnesting := checkNesting_eq_ok_iff.mpr ⟨ps, h⟩
  obtain ⟨o, ho⟩ := exists_outline (bracketWord_iff.mpr (nest_of_checkNestingFrom hnesting))
  obtain ⟨hpairs, _, rfl⟩ := (pops_eq_ok_iff ho).mp h
  have hdeep := deepFragments_zero ho
  have hspans : (deepFragments 0 t).map (·.span) = o.spans 0 := by
    rw [hdeep, List.map_map]
    exact List.map_id _
  have hfirsts : (deepFragments 0 t).map (·.span.first) = o.word.idxsOf .opening 0 := by
    rw [← Outline.map_first_spans, ← hspans, List.map_map]
    rfl
  have hlasts : ((deepFragments 0 t).map (·.span.last)).Perm (o.word.idxsOf .closing 0) := by
    have hmap : (deepFragments 0 t).map (·.span.last) = (o.spans 0).map Span.last := by
      rw [← hspans, List.map_map]
      rfl
    rw [hmap, ← Outline.map_last_pops]
    exact ((o.pops_perm 0).map _).symm
  have hmem : ∀ f ∈ deepFragments 0 t, ∃ p ∈ o.pairs 0, f = fragmentAt t p.1 := by
    intro f hf
    rw [hdeep] at hf
    obtain ⟨s, hs, rfl⟩ := List.mem_map.mp hf
    obtain ⟨p, hp, rfl⟩ := List.mem_map.mp hs
    exact ⟨p, hp, rfl⟩
  refine ⟨?_, ?_, fun i => ?_, ?_, fun i => ?_, fun f hf => ?_, fun f hf => ?_, fun f hf => ?_,
    fun f hf hleaf => ?_⟩
  · rw [hspans]
    exact (o.pops_perm 0).symm
  · rw [hfirsts]
    exact List.nodup_idxsOf
  · rw [hfirsts]
    exact mem_idxsOf_bracket ho (fun _ _ => sign_eq_opening_iff) (by decide) (by decide)
  · exact hlasts.nodup_iff.mpr List.nodup_idxsOf
  · rw [hlasts.mem_iff]
    exact mem_idxsOf_bracket ho (fun _ _ => sign_eq_closing_iff) (by decide) (by decide)
  all_goals obtain ⟨p, hp, rfl⟩ := hmem f hf
  · rfl
  · rw [kind_of_mem_pairs ho hp (hpairs p hp)]
    split <;> simp
  · rw [kind_of_mem_pairs ho hp (hpairs p hp)]
    split <;> simp_all
  · rw [kind_of_mem_pairs ho hp (hpairs p hp)] at hleaf
    refine no_brackets_of_fragments_eq_nil ho hp ?_
    by_contra hne
    rw [if_neg hne] at hleaf
    cases hleaf

/-- Where the check of the brackets raises nothing, scanning for fragments again and again finds
the pairs that the check pops. -/
theorem segmented_of_checkNesting (h : checkNesting t = .ok ()) :
    ∃ ps, pops t = .ok ps ∧ Segmented t ps := by
  obtain ⟨ps, hps⟩ := checkNesting_eq_ok_iff.mp h
  exact ⟨ps, hps, segmented_of_pops hps⟩

/-- The case of one fragment in another, behind an escaped bracket. -/
theorem segmented_nested : checkNesting "\\\x7b\x7b@a \x7b@b\x7d\x7d".toList = .ok () ∧
    Segmented "\\\x7b\x7b@a \x7b@b\x7d\x7d".toList [⟨6, 9⟩, ⟨2, 10⟩] := by
  have hcheck : checkNesting "\\\x7b\x7b@a \x7b@b\x7d\x7d".toList = .ok () := by rfl
  obtain ⟨ps, hps, hseg⟩ := segmented_of_checkNesting hcheck
  obtain rfl : [⟨6, 9⟩, ⟨2, 10⟩] = ps := Except.ok.inj ((by rfl : _ = _).symm.trans hps)
  exact ⟨hcheck, hseg⟩

end

end Template
end Citations
