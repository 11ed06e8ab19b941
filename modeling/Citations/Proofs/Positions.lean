import Citations.Proofs.Nesting
import Citations.Proofs.Outline

/-!
# Replacing at the place of a fragment

A pass puts what a fragment becomes wherever the text of the fragment occurs, one fragment after
the other.  What it stands for is the exchange of each fragment at its own place.  The two agree on
a text if and only if the replacements, all of them applied to the text of one fragment, leave just
what that fragment becomes: an earlier replacement may change the text by which a later fragment is
to be found, and then what that one becomes is lost.

* `patch g t`            each top-level fragment of `t` exchanged at its own place;
* `positional c t`       the pass that exchanges each fragment so;
* `Laid t`               how a text with matching brackets is laid out; `laid_of_wellNested`;
* `Exchanges.laid`       the replacements go through the parts of a text one by one;
* `replaceAll_eq_patch_iff`   they are the exchange iff they are so on every fragment;
* `pass_eq_positional_iff`    the same for a pass.
-/

namespace Citations
namespace Template

/-! ## exchanging the fragments of a text -/

/-- The text from position `i` on, with what stands in each span exchanged for what goes with it. -/
def patchFrom (t : Text) (i : Nat) : List (Span × Text) → Text
  | [] => t.drop i
  | (s, new) :: r => (t.take s.first).drop i ++ new ++ patchFrom t (s.last + 1) r

/-- The text with each top-level fragment exchanged, at its own place, for what `g` makes of it. -/
def patch (g : Text → Text) (t : Text) : Text :=
  patchFrom t 0 ((spans t).map fun s => (s, g (s.slice t)))

theorem patchFrom_shift (a b : Text) (i : Nat) (ps : List (Span × Text)) :
    patchFrom (a ++ b) (i + a.length) (ps.map fun p => (p.1.shift a.length, p.2)) =
      patchFrom b i ps := by
  induction ps generalizing i with
  | nil =>
    show (a ++ b).drop (i + a.length) = b.drop i
    rw [Nat.add_comm, List.drop_length_add_append]
  | cons p ps ih =>
    obtain ⟨s, new⟩ := p
    have hnext : s.last + a.length + 1 = s.last + 1 + a.length := Nat.add_right_comm _ _ _
    show ((a ++ b).take (s.first + a.length)).drop (i + a.length) ++ new ++
      patchFrom (a ++ b) (s.last + a.length + 1) _ = _
    rw [hnext, ih, Nat.add_comm s.first, List.take_length_add_append, Nat.add_comm i,
      List.drop_length_add_append]
    rfl

/-- Behind the last span of a text the next one starts with its own. -/
theorem patchFrom_append {a b : Text} {i : Nat} (hi : i ≤ a.length) {ps qs : List (Span × Text)}
    (hps : ∀ p ∈ ps, p.1.first ≤ p.1.last ∧ p.1.last < a.length) :
    patchFrom (a ++ b) i (ps ++ qs.map fun p => (p.1.shift a.length, p.2)) =
      patchFrom a i ps ++ patchFrom b 0 qs := by
  induction ps generalizing i with
  | nil =>
    cases qs with
    | nil => exact List.drop_append_of_le_length hi
    | cons q qs =>
      obtain ⟨s, new⟩ := q
      have hnext : s.last + a.length + 1 = s.last + 1 + a.length := Nat.add_right_comm _ _ _
      show ((a ++ b).take (s.first + a.length)).drop i ++ new ++
        patchFrom (a ++ b) (s.last + a.length + 1) _ =
          a.drop i ++ (b.take s.first ++ new ++ patchFrom b (s.last + 1) qs)
      rw [hnext, patchFrom_shift, Nat.add_comm s.first, List.take_length_add_append,
        List.drop_append_of_le_length hi]
      simp only [List.append_assoc]
  | cons p ps ih =>
    obtain ⟨⟨hle, hlt⟩, hrest⟩ := List.forall_mem_cons.mp hps
    obtain ⟨s, new⟩ := p
    have hle : s.first ≤ s.last := hle
    have hlt : s.last < a.length := hlt
    show ((a ++ b).take s.first).drop i ++ new ++
      patchFrom (a ++ b) (s.last + 1) (ps ++ qs.map fun p => (p.1.shift a.length, p.2)) =
        (a.take s.first).drop i ++ new ++ patchFrom a (s.last + 1) ps ++ patchFrom b 0 qs
    rw [ih (by omega) hrest, List.take_append_of_le_length (by omega)]
    simp only [List.append_assoc]

section
variable (g : Text → Text)

theorem patch_of_no_opening {p : Text} (hp : countFrom .opening false p = 0) : patch g p = p := by
  have hnone : spans p = [] := List.map_eq_nil_iff.mp (fragmentTexts_of_no_opening hp)
  rw [patch, hnone]
  rfl

theorem patch_bracketed {x : Text} (h : IsInterior x) :
    patch g (Render.bracketed x) = g (Render.bracketed x) := by
  have hend : (Render.bracketed x).drop (x.length + 1 + 1) = [] :=
    List.drop_eq_nil_of_le (by simp [Render.bracketed])
  rw [patch, spans_bracketed h, List.map_singleton, slice_bracketed]
  show [] ++ g (Render.bracketed x) ++ (Render.bracketed x).drop (x.length + 1 + 1) = _
  rw [hend, List.append_nil, List.nil_append]

theorem first_le_of_mem_spans {s : Span} {t : Text} (h : s ∈ spans t) : s.first ≤ s.last := by
  obtain ⟨u, x, w, hp⟩ := exists_of_mem_spans h
  rw [hp.span]
  show u.length ≤ u.length + x.length + 1
  omega

theorem patch_append {a : Text} (h : IsInterior a) (b : Text) :
    patch g (a ++ b) = patch g a ++ patch g b := by
  have hpairs : (spans (a ++ b)).map (fun s => (s, g (s.slice (a ++ b)))) =
      (spans a).map (fun s => (s, g (s.slice a))) ++
        ((spans b).map fun s => (s, g (s.slice b))).map fun p => (p.1.shift a.length, p.2) := by
    rw [h.cleanEnd.spans_append, List.map_append, List.map_map, List.map_map]
    congr 1
    · refine List.map_congr_left fun s hs => ?_
      rw [Span.slice_append (last_lt_of_mem_spans hs)]
    · refine List.map_congr_left fun s _ => ?_
      show (s.shift a.length, g ((s.shift a.length).slice (a ++ b))) = _
      rw [Span.slice_shift]
      rfl
  rw [patch, hpairs, patchFrom_append (Nat.zero_le _)]
  · rfl
  · intro p hp
    obtain ⟨s, hs, rfl⟩ := List.mem_map.mp hp
    exact ⟨first_le_of_mem_spans hs, last_lt_of_mem_spans hs⟩

end

/-! ## the layout of a text -/

/-- A text laid out: gaps without a `{`, and between them fragments that are laid out in turn. -/
inductive Laid : Text → Prop where
  | gap {p : Text} (hn : WellNested p) (hb : '{' ∉ p) : Laid p
  | fragment {p x w : Text} (hp : IsInterior p) (hb : '{' ∉ p) (hx : Laid x)
      (he : endsEscaping false x = false) (hw : Laid w) : Laid (p ++ Render.bracketed x ++ w)

/-- A text is cut where its signs are. -/
theorem exists_cut {esc : Bool} {t : Text} {a b : List Sign} {s : Sign}
    (h : signs esc t = a ++ s :: b) :
    ∃ x c w, t = x ++ c :: w ∧ signs esc x = a ∧ sign (endsEscaping esc x) c = s ∧
      signs (c == '\\') w = b := by
  induction a generalizing esc t with
  | nil =>
    cases t with
    | nil => cases h
    | cons c w =>
      obtain ⟨hs, hw⟩ := List.cons.inj h
      exact ⟨[], c, w, rfl, rfl, hs, hw⟩
  | cons s' a ih =>
    cases t with
    | nil => cases h
    | cons d t =>
      obtain ⟨hs, ht⟩ := List.cons.inj h
      obtain ⟨x, c, w, rfl, hx, hc, hw⟩ := ih ht
      refine ⟨d :: x, c, w, rfl, ?_, hc, hw⟩
      rw [signs_cons, hs, hx]

/-- The outline of a text, read behind a gap, is a layout. -/
theorem laid_of_word (o : Outline) {p t : Text} (hp : WellNested p) (hb : '{' ∉ p)
    (ho : o.word = signs (endsEscaping false p) t)
    (hu : NoEscapedOpening (endsEscaping false p) t) : Laid (p ++ t) := by
  induction o generalizing p t with
  | nil =>
    cases t with
    | nil =>
      rw [List.append_nil]
      exact .gap hp hb
    | cons => cases ho
  | token r ih | plain r ih =>
    cases t with
    | nil => cases ho
    | cons c t =>
      obtain ⟨hs, ht⟩ := List.cons.inj ho
      have hc : c ≠ '{' := by
        intro hc
        rw [hu.1 hc, hc] at hs
        cases hs
      have hsplit : p ++ c :: t = (p ++ [c]) ++ t := by simp
      rw [hsplit]
      refine ih ?_ ?_ ?_ ?_
      · rw [WellNested, signs_append, nest_append_of hp, signs_cons, ← hs]
        rfl
      · intro hm
        rcases List.mem_append.mp hm with hm | hm
        · exact hb hm
        · exact hc (List.mem_singleton.mp hm).symm
      · rw [endsEscaping_concat]
        exact ht
      · rw [endsEscaping_concat]
        exact hu.2
  | pair a r iha ihr =>
    cases t with
    | nil => cases ho
    | cons c t =>
      obtain ⟨hs, ht⟩ := List.cons.inj ho
      obtain ⟨hesc, rfl⟩ := sign_eq_opening_iff.mp hs.symm
      have ht : signs false t = a.word ++ .closing :: r.word := ht.symm
      obtain ⟨x, d, w, rfl, hx, hd, hw⟩ := exists_cut ht
      obtain ⟨he, rfl⟩ := sign_eq_closing_iff.mp hd
      obtain ⟨hux, huw⟩ := noEscapedOpening_append.mp hu.2
      have hlaid : Laid x := iha (p := []) rfl List.not_mem_nil hx.symm hux
      have hrest : Laid w := ihr (p := []) rfl List.not_mem_nil hw.symm huw.2
      have hsplit : p ++ '{' :: (x ++ '}' :: w) = p ++ Render.bracketed x ++ w := by
        simp [Render.bracketed]
      rw [hsplit]
      exact .fragment ⟨hp, hesc⟩ hb hlaid he hrest

theorem laid_of_wellNested {t : Text} (hn : WellNested t) (hu : NoEscapedOpening false t) :
    Laid t := by
  obtain ⟨o, ho⟩ := bracketWord_iff.mpr hn
  exact laid_of_word o (p := []) rfl List.not_mem_nil ho hu

theorem Regular.laid {t : Text} (h : Regular t) : Laid t :=
  laid_of_wellNested h.interior.wellNested h.unescaped

theorem regular_of_bare {p : Text} (hp : IsInterior p) (hb : '{' ∉ p) : Regular p :=
  ⟨hp, noEscapedOpening_of_not_mem hb false⟩

theorem Laid.regular {t : Text} (h : Laid t) (he : endsEscaping false t = false) : Regular t := by
  induction h with
  | gap hn hb => exact regular_of_bare ⟨hn, he⟩ hb
  | @fragment p x w hp hb _ hex _ ihx ihw =>
    have hpx := hp.append (isInterior_bracketed (ihx hex).interior)
    rw [endsEscaping_append, hpx.ends] at he
    refine ⟨hpx.append (ihw he).interior, noEscapedOpening_append.mpr ⟨?_, ?_⟩⟩
    · refine noEscapedOpening_append.mpr ⟨noEscapedOpening_of_not_mem hb false, ?_⟩
      rw [hp.ends]
      exact (ihx hex).bracketed.unescaped
    · rw [hpx.ends]
      exact (ihw he).unescaped

theorem countFrom_opening_of_bare {p : Text} (hb : '{' ∉ p) : countFrom .opening false p = 0 :=
  countFrom_of_not_mem (fun _ _ => sign_eq_opening_iff) hb false

theorem fragmentTexts_of_bare {p : Text} (hb : '{' ∉ p) : fragmentTexts p = [] :=
  fragmentTexts_of_no_opening (countFrom_opening_of_bare hb)

theorem fragmentTexts_behind {p a : Text} (hp : IsInterior p) (hb : '{' ∉ p) (ha : IsInterior a)
    (w : Text) : fragmentTexts (p ++ a ++ w) = fragmentTexts a ++ fragmentTexts w := by
  rw [List.append_assoc, fragmentTexts_append hp, fragmentTexts_of_bare hb, List.nil_append,
    fragmentTexts_append ha]

theorem patch_laid (g : Text → Text) {p x w : Text} (hp : IsInterior p) (hb : '{' ∉ p)
    (hx : Regular x) :
    patch g (p ++ Render.bracketed x ++ w) = p ++ g (Render.bracketed x) ++ patch g w := by
  rw [List.append_assoc, patch_append g hp, patch_of_no_opening g (countFrom_opening_of_bare hb),
    patch_append g (isInterior_bracketed hx.interior), patch_bracketed g hx.interior,
    List.append_assoc]

/-! ## replacing in a laid out text -/

section
variable (new : Text) {y : Text}

theorem replace_of_bare {p : Text} (hb : '{' ∉ p) (w : Text) :
    Text.replace (Render.bracketed y) new (p ++ w) =
      p ++ Text.replace (Render.bracketed y) new w :=
  Text.replace_append_of_not_mem hb w

/-- At a fragment the replacement meets the fragment itself or goes on inside it. -/
theorem replace_fragment (hy : IsInterior y) {x : Text} (hx : IsInterior x)
    (hin : ∀ w, Text.replace (Render.bracketed y) new (x ++ w) =
      Text.replace (Render.bracketed y) new x ++ Text.replace (Render.bracketed y) new w)
    (w : Text) :
    Text.replace (Render.bracketed y) new (Render.bracketed x ++ w) =
      (if x = y then new else Render.bracketed (Text.replace (Render.bracketed y) new x)) ++
        Text.replace (Render.bracketed y) new w := by
  have hne : Render.bracketed y ≠ [] := bracketed_ne_nil y
  by_cases hxy : x = y
  · rw [if_pos hxy, hxy, Text.replace_append_self _ _ hne]
  · have hmiss : ¬ Render.bracketed y <+: Render.bracketed x ++ w := fun hp =>
      hxy (eq_of_starts_bracketed hx hy hp).symm
    have hsplit : Render.bracketed x ++ w = '{' :: (x ++ '}' :: w) := by simp [Render.bracketed]
    have hclose : Text.replace (Render.bracketed y) new ('}' :: w) =
        '}' :: Text.replace (Render.bracketed y) new w :=
      replace_of_bare new (p := ['}']) (by decide) w
    rw [hsplit] at hmiss
    rw [if_neg hxy, hsplit, Text.replace_cons _ hne hmiss, hin, hclose]
    simp [Render.bracketed]

/-- No occurrence of a fragment text lies over the end of a laid out text. -/
theorem Laid.replace_append (hy : IsInterior y) {a : Text} (h : Laid a) (w : Text) :
    Text.replace (Render.bracketed y) new (a ++ w) =
      Text.replace (Render.bracketed y) new a ++ Text.replace (Render.bracketed y) new w := by
  have hnil : Text.replace (Render.bracketed y) new [] = [] :=
    Text.replace_nil_right _ (bracketed_ne_nil y)
  induction h generalizing w with
  | @gap p _ hb =>
    have hself := replace_of_bare new (y := y) hb []
    rw [List.append_nil, hnil, List.append_nil] at hself
    rw [replace_of_bare new hb, hself]
  | @fragment p x v hp hb hx he _ ihx ihv =>
    have hint := (hx.regular he).interior
    rw [List.append_assoc, List.append_assoc, List.append_assoc, replace_of_bare new hb,
      replace_of_bare new hb, replace_fragment new hy hint ihx, replace_fragment new hy hint ihx,
      ihv]
    simp only [List.append_assoc]

end

end Template

namespace Render
open Template

/-! ## the replacements of a pass -/

/-- What can stand in the place of a fragment: a fragment again, or a text without a `{`. -/
inductive Piece : Text → Prop where
  | fragment {z : Text} (h : Regular z) : Piece (bracketed z)
  | bare {p : Text} (hp : IsInterior p) (hb : '{' ∉ p) : Piece p

theorem Piece.regular {f : Text} (h : Piece f) : Regular f := by
  cases h with
  | fragment hz => exact hz.bracketed
  | bare hp hb => exact regular_of_bare hp hb

theorem Piece.length_fragmentTexts {f : Text} (h : Piece f) : (fragmentTexts f).length ≤ 1 := by
  cases h with
  | fragment hz => exact Nat.le_of_eq (congrArg List.length (fragmentTexts_bracketed hz.interior))
  | bare _ hb =>
    rw [fragmentTexts_of_bare hb]
    exact Nat.zero_le 1

/-- Replacements of closed fragment texts by such pieces. -/
def Exchanges (pairs : List (Text × Text)) : Prop :=
  ∀ p ∈ pairs, (∃ y, IsInterior y ∧ p.1 = bracketed y) ∧ Piece p.2

section
variable {pairs : List (Text × Text)}

theorem Exchanges.regular (h : Exchanges pairs) {a : Text} (ha : Regular a) :
    Regular (Text.replaceAll pairs a) := by
  refine Text.replaceAll_preserves (fun p hp => ?_) (fun p hp u w hu => ?_) ha
  · obtain ⟨⟨y, _, hy⟩, _⟩ := h p hp
    rw [hy]
    exact bracketed_ne_nil y
  · obtain ⟨⟨y, hint, hy⟩, hnew⟩ := h p hp
    rw [hy] at hu
    exact hnew.regular.exchange hint hu

theorem Exchanges.append (h : Exchanges pairs) {a : Text} (ha : Regular a) (w : Text) :
    Text.replaceAll pairs (a ++ w) = Text.replaceAll pairs a ++ Text.replaceAll pairs w := by
  induction pairs generalizing a w with
  | nil => rfl
  | cons p ps ih =>
    obtain ⟨hp, hps⟩ := List.forall_mem_cons.mp h
    obtain ⟨⟨y, hint, hy⟩, _⟩ := hp
    have hone : Exchanges [p] := List.forall_mem_singleton.mpr (h p List.mem_cons_self)
    rw [Text.replaceAll_cons, Text.replaceAll_cons, Text.replaceAll_cons, hy,
      ha.laid.replace_append _ hint, ← hy]
    exact ih hps (hone.regular ha) _

theorem Exchanges.bare (h : Exchanges pairs) {p : Text} (hb : '{' ∉ p) :
    Text.replaceAll pairs p = p := by
  induction pairs with
  | nil => rfl
  | cons q qs ih =>
    obtain ⟨⟨⟨y, _, hy⟩, _⟩, hqs⟩ := List.forall_mem_cons.mp h
    have hnot : ¬ q.1 <:+: p := by
      intro hin
      rw [hy] at hin
      exact hb (hin.subset List.mem_cons_self)
    rw [Text.replaceAll_cons, Text.replace_of_not_infix _ hnot, ih hqs]

/-- The replacements go through the parts of a text one by one. -/
theorem Exchanges.laid (h : Exchanges pairs) {p x : Text} (hp : IsInterior p) (hb : '{' ∉ p)
    (hx : Regular x) (w : Text) :
    Text.replaceAll pairs (p ++ bracketed x ++ w) =
      p ++ Text.replaceAll pairs (bracketed x) ++ Text.replaceAll pairs w := by
  rw [List.append_assoc, h.append (regular_of_bare hp hb), h.bare hb, h.append hx.bracketed,
    List.append_assoc]

/-- A fragment is replaced by a piece. -/
theorem Exchanges.piece (h : Exchanges pairs) {f : Text} (hf : Piece f) :
    Piece (Text.replaceAll pairs f) := by
  induction pairs generalizing f with
  | nil => exact hf
  | cons p ps ih =>
    obtain ⟨hp, hps⟩ := List.forall_mem_cons.mp h
    have hone : Exchanges [p] := List.forall_mem_singleton.mpr hp
    rw [Text.replaceAll_cons]
    refine ih hps ?_
    cases hf with
    | bare hi hb =>
      have hself : Text.replace p.1 p.2 f = f := hone.bare hb
      rw [hself]
      exact .bare hi hb
    | @fragment z hz =>
      obtain ⟨⟨y, hint, hy⟩, hnew⟩ := hp
      have hrep := replace_fragment p.2 hint hz.interior
        (fun w => hz.laid.replace_append p.2 hint w) []
      rw [List.append_nil, Text.replace_nil_right _ (bracketed_ne_nil y), List.append_nil] at hrep
      rw [hy, hrep]
      by_cases hzy : z = y
      · rw [if_pos hzy]
        exact hnew
      · rw [if_neg hzy]
        have hreg : Regular (Text.replace p.1 p.2 z) := hone.regular hz
        rw [hy] at hreg
        exact .fragment hreg

end

/-! ## the replacements and the exchange -/

/-- What `g` makes of a fragment text is a piece, and the replacements make the same of it, unless
it is a fragment again. -/
structure Compares (pairs : List (Text × Text)) (g : Text → Text) (f : Text) : Prop where
  piece : Piece (g f)
  agrees : (∃ y, Regular y ∧ g f = bracketed y) ∨ Text.replaceAll pairs f = g f

section
variable {pairs : List (Text × Text)} {g : Text → Text}

/-- The replacements leave no more fragments than the exchange. -/
theorem length_fragmentTexts_le (h : Exchanges pairs) {t : Text} (ht : Laid t)
    (hg : ∀ f ∈ fragmentTexts t, Compares pairs g f) :
    (fragmentTexts (Text.replaceAll pairs t)).length ≤ (fragmentTexts (patch g t)).length := by
  induction ht with
  | gap _ hb =>
    have hgap := patch_of_no_opening g (countFrom_opening_of_bare hb)
    exact Nat.le_of_eq (by rw [h.bare hb, hgap])
  | @fragment p x w hp hb hx he _ _ ihw =>
    have hreg := hx.regular he
    rw [fragmentTexts_behind hp hb (isInterior_bracketed hreg.interior),
      fragmentTexts_bracketed hreg.interior, List.singleton_append] at hg
    obtain ⟨hfirst, hrest⟩ := List.forall_mem_cons.mp hg
    have hpiece := h.piece (.fragment hreg)
    have hle := ihw hrest
    have hone : (fragmentTexts (Text.replaceAll pairs (bracketed x))).length ≤
        (fragmentTexts (g (bracketed x))).length := by
      rcases hfirst.agrees with ⟨y, hy, hgy⟩ | heq
      · rw [hgy, fragmentTexts_bracketed hy.interior]
        exact hpiece.length_fragmentTexts
      · exact Nat.le_of_eq (by rw [heq])
    rw [h.laid hp hb hreg, patch_laid g hp hb hreg,
      fragmentTexts_behind hp hb hpiece.regular.interior,
      fragmentTexts_behind hp hb hfirst.piece.regular.interior, List.length_append,
      List.length_append]
    omega

/-- The first fragment is the same in both, if the whole texts are. -/
theorem Compares.eq_of_append (h : Exchanges pairs) {x w : Text} (hx : Regular x)
    (hf : Compares pairs g (bracketed x)) (hw : Laid w)
    (hg : ∀ f ∈ fragmentTexts w, Compares pairs g f)
    (heq : Text.replaceAll pairs (bracketed x) ++ Text.replaceAll pairs w =
      g (bracketed x) ++ patch g w) :
    Text.replaceAll pairs (bracketed x) = g (bracketed x) := by
  rcases hf.agrees with ⟨y, hy, hgy⟩ | hsame
  · have hpiece := h.piece (.fragment hx)
    have hle := length_fragmentTexts_le h hw hg
    rw [hgy] at heq ⊢
    generalize Text.replaceAll pairs (bracketed x) = f at heq hpiece ⊢
    cases hpiece with
    | fragment hz => rw [eq_of_starts_bracketed hz.interior hy.interior ⟨_, heq.symm⟩]
    | bare hi hb =>
      -- the fragment would be lost, and one more left in what follows
      have hlen := congrArg (fun t => (fragmentTexts t).length) heq
      simp only [fragmentTexts_append hi, fragmentTexts_of_bare hb, List.nil_append,
        fragmentTexts_bracketed_append hy.interior, List.length_cons] at hlen
      omega
  · exact hsame

theorem replaceAll_eq_patch_iff (h : Exchanges pairs) {t : Text} (ht : Laid t)
    (hg : ∀ f ∈ fragmentTexts t, Compares pairs g f) :
    Text.replaceAll pairs t = patch g t ↔
      ∀ f ∈ fragmentTexts t, Text.replaceAll pairs f = g f := by
  induction ht with
  | gap _ hb =>
    rw [h.bare hb, patch_of_no_opening g (countFrom_opening_of_bare hb), fragmentTexts_of_bare hb]
    exact iff_of_true rfl fun f hf => nomatch hf
  | @fragment p x w hp hb hx he hw _ ihw =>
    have hreg := hx.regular he
    have htexts : fragmentTexts (p ++ bracketed x ++ w) = bracketed x :: fragmentTexts w := by
      rw [fragmentTexts_behind hp hb (isInterior_bracketed hreg.interior),
        fragmentTexts_bracketed hreg.interior, List.singleton_append]
    rw [htexts] at hg ⊢
    obtain ⟨hfirst, hrest⟩ := List.forall_mem_cons.mp hg
    rw [h.laid hp hb hreg, patch_laid g hp hb hreg, List.append_assoc, List.append_assoc,
      List.append_cancel_left_eq, List.forall_mem_cons, ← ihw hrest]
    constructor
    · intro heq
      have hsame := hfirst.eq_of_append h hreg hw hrest heq
      rw [hsame] at heq
      exact ⟨hsame, List.append_cancel_left heq⟩
    · rintro ⟨hsame, hw⟩
      rw [hsame, hw]

/-- A fragment without a `{` in it is met by its own replacement alone. -/
theorem Exchanges.leaf (h : Exchanges pairs) {x new : Text} (hx : IsInterior x) (hb : '{' ∉ x)
    (hnew : '{' ∉ new) (hsame : ∀ p ∈ pairs, p.1 = bracketed x → p.2 = new)
    (hmem : bracketed x ∈ pairs.map Prod.fst) : Text.replaceAll pairs (bracketed x) = new := by
  induction pairs with
  | nil => cases hmem
  | cons p ps ih =>
    obtain ⟨⟨⟨y, hint, hy⟩, _⟩, hps⟩ := List.forall_mem_cons.mp h
    have hps : Exchanges ps := hps
    obtain ⟨hp, hsame⟩ := List.forall_mem_cons.mp hsame
    have hbare : ∀ w, Text.replace (bracketed y) p.2 (x ++ w) =
        Text.replace (bracketed y) p.2 x ++ Text.replace (bracketed y) p.2 w :=
      fun w => (regular_of_bare hx hb).laid.replace_append p.2 hint w
    have hself : Text.replace (bracketed y) p.2 x = x := by
      have := replace_of_bare p.2 (y := y) hb []
      rwa [List.append_nil, Text.replace_nil_right _ (bracketed_ne_nil y), List.append_nil] at this
    have hrep := replace_fragment p.2 hint hx hbare []
    rw [List.append_nil, Text.replace_nil_right _ (bracketed_ne_nil y), List.append_nil, hself]
      at hrep
    rw [Text.replaceAll_cons, hy, hrep]
    by_cases hxy : x = y
    · rw [if_pos hxy, hp (by rw [hy, hxy]), hps.bare hnew]
    · rw [if_neg hxy]
      refine ih hps hsame ?_
      rw [List.map_cons, hy] at hmem
      exact (List.mem_cons.mp hmem).resolve_left fun e => hxy (bracketed_injective e)

end

/-! ## a pass and the exchange that it stands for -/

/-- What becomes of a fragment text: a literal stays, a nested fragment keeps its brackets around
what a pass makes of its interior, and a leaf is expanded. -/
def resolution (c : Context) (f : Text) : Noted PlaceholderError Text :=
  if isLiteral f then return f
  else if isNested f then bracketed <$> pass c (interior f)
  else expand c (interior f)

/-- The text with each top-level fragment exchanged, at its own place, for what becomes of it. -/
def positional (c : Context) (t : Text) : Noted PlaceholderError Text := do
  let resolved ← (spans t).mapM fun s => do
    let new ← resolution c (s.slice t)
    return (s, new)
  return patchFrom t 0 resolved

/-- The fragment texts that a pass solves, each with what `g` makes of it. -/
def replacements (g : Text → Text) (t : Text) : List (Text × Text) :=
  (openTexts t).map fun f => (f, g f)

theorem map_fst_replacements (g : Text → Text) (t : Text) :
    (replacements g t).map Prod.fst = openTexts t := by
  rw [replacements, List.map_map]
  exact List.map_id' _

/-- `g` gives what becomes of each fragment text. -/
def Resolves (c : Context) (g : Text → Text) : Prop := ∀ f, (resolution c f).outcome = .ok (g f)

section
variable {c : Context} {g : Text → Text}

theorem isLiteral_iff {f : Text} : isLiteral f = true ↔ '@' ∉ f := by
  simp [isLiteral]

theorem Resolves.literal (hg : Resolves c g) {f : Text} (hf : '@' ∉ f) : g f = f := by
  have h := hg f
  rw [resolution, if_pos (isLiteral_iff.mpr hf)] at h
  exact (Noted.outcome_pure_eq_ok.mp h).symm

theorem Resolves.solves (hg : Resolves c g) {f : Text} (hf : '@' ∈ f) : Solves c f (g f) := by
  have h := hg f
  rw [resolution, if_neg fun hl => isLiteral_iff.mp hl hf] at h
  cases hn : isNested f with
  | true =>
    rw [hn, if_pos rfl] at h
    obtain ⟨t, ht, hgf⟩ := Noted.outcome_map_eq_ok.mp h
    rw [← hgf]
    exact .nested hn ht
  | false =>
    rw [hn, if_neg Bool.false_ne_true] at h
    exact .leaf hn ((expand_outcome c).mp h)

theorem resolves_exists (hd : c.options.debug = false) : ∃ g, Resolves c g := by
  have hone : ∀ f, ∃ new, (resolution c f).outcome = .ok new := by
    intro f
    rw [resolution]
    split
    · exact ⟨f, rfl⟩
    · split
      · obtain ⟨t, ht⟩ := pass_exists c (expands_exists c hd) (interior f)
        exact ⟨bracketed t, Noted.outcome_map_eq_ok.mpr ⟨t, ht, rfl⟩⟩
      · obtain ⟨new, hnew⟩ := expands_exists c hd (interior f)
        exact ⟨new, (expand_outcome c).mpr hnew⟩
  choose g hg using hone
  exact ⟨g, hg⟩

theorem Resolves.pass (hg : Resolves c g) (t : Text) :
    (pass c t).outcome = .ok (Text.replaceAll (replacements g t) t) := by
  refine (pass_outcome c).mpr ⟨_, ⟨map_fst_replacements g t, fun p hp => ?_⟩, rfl⟩
  obtain ⟨f, hf, rfl⟩ := List.mem_map.mp hp
  exact hg.solves (mem_openTexts_iff.mp hf).1

theorem results_of_forall {ε α β : Type} {f : α → Noted ε β} {r : α → β}
    (h : ∀ a, (f a).outcome = .ok (r a)) (as : List α) : Noted.Results f as (as.map r) := by
  induction as with
  | nil => exact .nil
  | cons a as ih => exact .cons (h a) ih

theorem Resolves.positional (hg : Resolves c g) (t : Text) :
    (positional c t).outcome = .ok (patch g t) := by
  refine Noted.outcome_bind_eq_ok.mpr ⟨(spans t).map fun s => (s, g (s.slice t)), ?_, rfl⟩
  refine Noted.outcome_mapM_eq_ok.mpr (results_of_forall (fun s => ?_) _)
  exact Noted.outcome_bind_eq_ok.mpr ⟨_, hg _, rfl⟩

theorem opening_mem_signs {esc : Bool} {t : Text} (h : NoEscapedOpening esc t) (hm : '{' ∈ t) :
    Sign.opening ∈ signs esc t := by
  induction t generalizing esc with
  | nil => cases hm
  | cons d r ih =>
    rw [signs_cons]
    rcases List.mem_cons.mp hm with rfl | hm
    · rw [h.1 rfl]
      exact List.mem_cons_self
    · exact List.mem_cons_of_mem _ (ih h.2 hm)

theorem bare_of_leaf {x : Text} (hx : Regular x) (hn : isNested (bracketed x) = false) :
    '{' ∉ x := by
  intro hm
  rw [isNested_bracketed hx.interior.ends] at hn
  exact absurd (opening_mem_signs hx.unescaped hm) (by simpa using hn)

theorem Expands.bare (hd : c.options.debug = false) (hv : ∀ key, '{' ∉ c.resolve key)
    {x new : Text} (h : Expands c x new) (hx : '{' ∉ x) : '{' ∉ new := by
  cases h with
  | whole => exact hx
  | removed => exact List.not_mem_nil
  | @filled k shown hk hs =>
    have hcut := (firstToken?_spec hk).text
    rw [hcut] at hx
    have hshown : '{' ∉ shown := by
      cases hs with
      | value => exact fun hm => hv _ (mem_of_mem_escape (by decide) (by decide) hm)
      | placeholder _ hd' =>
        rw [hd] at hd'
        cases hd'
    intro hm
    rcases List.mem_append.mp hm with hm | hm
    · rcases List.mem_append.mp hm with hm | hm
      · exact hx (List.mem_append_left _ (List.mem_append_left _ hm))
      · exact hshown hm
    · exact hx (List.mem_append_right _ hm)

theorem Solves.piece (hd : c.options.debug = false) (hv : ∀ key, '{' ∉ c.resolve key)
    {x new : Text} (hx : Regular x) (h : Solves c (bracketed x) new) : Piece new := by
  cases h with
  | nested _ h =>
    rw [interior_bracketed] at h
    exact .fragment (regular_of_pass hd hv h hx)
  | leaf hn h =>
    rw [interior_bracketed] at h
    exact .bare (h.regular hd hv hx).interior (h.bare hd hv (bare_of_leaf hx hn))

section
variable {t : Text}

theorem exists_of_mem_fragmentTexts (hu : NoEscapedOpening false t) {f : Text}
    (hf : f ∈ fragmentTexts t) : ∃ x, Regular x ∧ f = bracketed x := by
  obtain ⟨s, hs, rfl⟩ := List.mem_map.mp hf
  obtain ⟨u, x, w, hp⟩ := exists_of_mem_spans hs
  exact ⟨x, hp.regular hu, hp.slice⟩

theorem mem_openTexts_iff_fragmentTexts {f : Text} :
    f ∈ openTexts t ↔ f ∈ fragmentTexts t ∧ '@' ∈ f := by
  rw [openTexts_eq, List.mem_eraseDups, List.mem_filter, List.contains_iff_mem]

theorem exchanges_replacements (hd : c.options.debug = false) (hv : ∀ key, '{' ∉ c.resolve key)
    (hg : Resolves c g) (hu : NoEscapedOpening false t) : Exchanges (replacements g t) := by
  intro p hp
  obtain ⟨f, hf, rfl⟩ := List.mem_map.mp hp
  obtain ⟨hmem, ha⟩ := mem_openTexts_iff_fragmentTexts.mp hf
  obtain ⟨x, hx, rfl⟩ := exists_of_mem_fragmentTexts hu hmem
  exact ⟨⟨x, hx.interior, rfl⟩, (hg.solves ha).piece hd hv hx⟩

/-- No fragment that a pass solves is found in a literal. -/
theorem replaceAll_literal {f : Text} (hf : '@' ∉ f) :
    Text.replaceAll (replacements g t) f = f := by
  have hnone : ∀ p ∈ replacements g t, ¬ p.1 <:+: f := by
    intro p hp hin
    obtain ⟨f', hf', rfl⟩ := List.mem_map.mp hp
    exact hf (hin.subset (mem_openTexts_iff.mp hf').1)
  generalize replacements g t = ps at hnone
  induction ps with
  | nil => rfl
  | cons p ps ih =>
    obtain ⟨hp, hps⟩ := List.forall_mem_cons.mp hnone
    rw [Text.replaceAll_cons, Text.replace_of_not_infix _ hp, ih hps]

theorem compares_replacements (hd : c.options.debug = false) (hv : ∀ key, '{' ∉ c.resolve key)
    (hg : Resolves c g) (hu : NoEscapedOpening false t) {f : Text} (hf : f ∈ fragmentTexts t) :
    Compares (replacements g t) g f := by
  obtain ⟨x, hx, rfl⟩ := exists_of_mem_fragmentTexts hu hf
  by_cases ha : '@' ∈ bracketed x
  · have hsolves := hg.solves ha
    refine ⟨hsolves.piece hd hv hx, ?_⟩
    generalize hnew : g (bracketed x) = new at hsolves
    cases hsolves with
    | nested _ h =>
      rw [interior_bracketed] at h
      exact Or.inl ⟨_, regular_of_pass hd hv h hx, rfl⟩
    | leaf hn h =>
      rw [interior_bracketed] at h
      have hb := bare_of_leaf hx hn
      refine Or.inr ((exchanges_replacements hd hv hg hu).leaf hx.interior hb (h.bare hd hv hb)
        (fun p hp he => ?_) ?_)
      · obtain ⟨f, _, rfl⟩ := List.mem_map.mp hp
        have he : f = bracketed x := he
        rw [← hnew, ← he]
      · rw [map_fst_replacements]
        exact mem_openTexts_iff_fragmentTexts.mpr ⟨hf, ha⟩
  · have hsame := hg.literal ha
    refine ⟨?_, Or.inr ?_⟩
    · rw [hsame]
      exact .fragment hx
    · rw [hsame, replaceAll_literal ha]

/-- A pass over a text with matching brackets is the exchange of its fragments at their own places,
if and only if the replacements leave of each fragment text what becomes of it. -/
theorem Resolves.pass_eq_positional_iff (hg : Resolves c g) (hd : c.options.debug = false)
    (hv : ∀ key, '{' ∉ c.resolve key) (hn : WellNested t) (hu : NoEscapedOpening false t) :
    (Render.pass c t).outcome = (Render.positional c t).outcome ↔
      ∀ f ∈ openTexts t, Text.replaceAll (replacements g t) f = g f := by
  rw [hg.pass, hg.positional, Except.ok.injEq,
    replaceAll_eq_patch_iff (exchanges_replacements hd hv hg hu) (laid_of_wellNested hn hu)
      fun f hf => compares_replacements hd hv hg hu hf]
  constructor
  · intro h f hf
    exact h f (mem_openTexts_iff_fragmentTexts.mp hf).1
  · intro h f hf
    by_cases ha : '@' ∈ f
    · exact h f (mem_openTexts_iff_fragmentTexts.mpr ⟨hf, ha⟩)
    · rw [replaceAll_literal ha, hg.literal ha]

end

end

end Render
end Citations
