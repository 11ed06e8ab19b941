import Citations.Proofs.Brackets
import Citations.Proofs.Replacing

/-!
# The fragments of a text put together

The scan for top-level fragments goes from left to right and forgets, at depth zero, what it has
read.  So the fragment texts of two texts put together are those of the one and then those of the
other, as long as the first leaves no bracket open and no backslash at the seam.

* `fragmentTexts t`          the texts of the top-level fragments, from left to right;
* `CleanEnd a`               no bracket is open at the end of `a`, and no backslash stands there;
* `fragmentTexts_append`     what comes behind a closed text is read as if it stood alone;
* `fragmentTexts_bracketed`  a closed text between two brackets is one fragment;
* `unbordered_bracketed`     no two occurrences of one fragment text overlap;
* `openTexts_eq`             the texts that a pass solves.
-/

namespace Citations

def Span.shift (k : Nat) (s : Span) : Span := ⟨s.first + k, s.last + k⟩

theorem Span.slice_shift (s : Span) (a b : Text) :
    (s.shift a.length).slice (a ++ b) = s.slice b := by
  have h1 : s.last + a.length + 1 = a.length + (s.last + 1) := by omega
  have h2 : s.first + a.length = a.length + s.first := Nat.add_comm _ _
  show ((a ++ b).take (s.last + a.length + 1)).drop (s.first + a.length) = _
  rw [h1, h2, List.take_length_add_append, List.drop_length_add_append]
  rfl

theorem Span.slice_append {s : Span} {a : Text} (h : s.last < a.length) (b : Text) :
    s.slice (a ++ b) = s.slice a := by
  rw [slice, slice, List.take_append_of_le_length (by omega)]

namespace Template

/-! ## spans -/

/-- At depth zero it does not matter where the last fragment started. -/
theorem spansFrom_zero (s s' i : Nat) (ss : List Sign) :
    spansFrom 0 s i ss = spansFrom 0 s' i ss := by
  induction ss generalizing i with
  | nil => rfl
  | cons sg r ih =>
    cases sg with
    | opening => rfl
    | closing => exact ih (i + 1)
    | token => exact ih (i + 1)
    | plain => exact ih (i + 1)

theorem spansFrom_shift (k d s i : Nat) (ss : List Sign) :
    spansFrom d (s + k) (i + k) ss = (spansFrom d s i ss).map (Span.shift k) := by
  induction ss generalizing d s i with
  | nil => rfl
  | cons sg r ih =>
    have hi : i + k + 1 = i + 1 + k := Nat.add_right_comm i k 1
    cases sg with
    | opening =>
      have hs : (if d = 0 then i + k else s + k) = (if d = 0 then i else s) + k := by
        split <;> rfl
      rw [spansFrom, spansFrom, hi, hs]
      exact ih ..
    | closing =>
      rw [spansFrom, spansFrom, hi]
      by_cases hd : d = 1
      · rw [if_pos hd, if_pos hd, List.map_cons, ih]
        rfl
      · rw [if_neg hd, if_neg hd]
        exact ih ..
    | token =>
      rw [spansFrom, spansFrom, hi]
      exact ih ..
    | plain =>
      rw [spansFrom, spansFrom, hi]
      exact ih ..

theorem last_lt_of_mem_spansFrom {sp : Span} {d s i : Nat} {ss : List Sign}
    (h : sp ∈ spansFrom d s i ss) : sp.last < i + ss.length := by
  induction ss generalizing d s i with
  | nil => cases h
  | cons sg r ih =>
    have step : ∀ {d s}, sp ∈ spansFrom d s (i + 1) r → sp.last < i + (sg :: r).length := by
      intro d s h
      have := ih h
      rw [List.length_cons]
      omega
    cases sg with
    | opening => exact step h
    | closing =>
      rw [spansFrom] at h
      split at h
      · rcases List.mem_cons.mp h with rfl | h
        · rw [List.length_cons]
          exact Nat.lt_add_of_pos_right (Nat.succ_pos _)
        · exact step h
      · exact step h
    | token => exact step h
    | plain => exact step h

/-- Behind signs that leave no bracket open the scan starts anew. -/
theorem spansFrom_append {d : Nat} {ss : List Sign} (h : depthFrom d ss = 0) (s i : Nat)
    (r : List Sign) :
    spansFrom d s i (ss ++ r) = spansFrom d s i ss ++ spansFrom 0 0 (i + ss.length) r := by
  induction ss generalizing d s i with
  | nil =>
    obtain rfl : d = 0 := h
    exact spansFrom_zero s 0 i r
  | cons sg ss ih =>
    have hi : i + (sg :: ss).length = i + 1 + ss.length := by
      rw [List.length_cons]
      omega
    rw [List.cons_append, hi]
    cases sg with
    | opening => exact ih h ..
    | closing =>
      rw [spansFrom, spansFrom]
      by_cases hd : d = 1
      · subst hd
        rw [if_pos rfl, if_pos rfl, List.cons_append, ih h]
      · rw [if_neg hd, if_neg hd]
        exact ih h ..
    | token => exact ih h ..
    | plain => exact ih h ..

/-- Nothing ends while an outer bracket stays open. -/
theorem spansFrom_within {d e : Nat} {ss : List Sign} (h : nest d ss = some e) (s i : Nat)
    (r : List Sign) :
    spansFrom (d + 1) s i (ss ++ r) = spansFrom (e + 1) s (i + ss.length) r := by
  induction ss generalizing d i with
  | nil =>
    rw [nest_nil] at h
    rw [Option.some.inj h]
    rfl
  | cons sg ss ih =>
    have hi : i + (sg :: ss).length = i + 1 + ss.length := by
      rw [List.length_cons]
      omega
    rw [List.cons_append, hi]
    cases sg with
    | opening => exact ih (d := d + 1) h _
    | closing =>
      cases d with
      | zero => cases h
      | succ d =>
        rw [spansFrom, if_neg (by omega)]
        exact ih (d := d) h _
    | token => exact ih (d := d) h _
    | plain => exact ih (d := d) h _

theorem last_lt_of_mem_spans {s : Span} {t : Text} (h : s ∈ spans t) : s.last < t.length := by
  rw [spans_eq] at h
  have := last_lt_of_mem_spansFrom h
  rwa [length_signs, Nat.zero_add] at this

/-- A text behind which the scan starts anew: no bracket is open at its end, and what follows is not
escaped. -/
structure CleanEnd (a : Text) : Prop where
  depth : depthFrom 0 (signs false a) = 0
  ends : endsEscaping false a = false

theorem IsInterior.cleanEnd {a : Text} (h : IsInterior a) : CleanEnd a :=
  ⟨depthFrom_of_nest h.wellNested, h.ends⟩

/-- Behind a text that leaves no bracket open what follows is scanned from its place on. -/
theorem spans_append_from {a : Text} (h : depthFrom 0 (signs false a) = 0) (b : Text) :
    spans (a ++ b) = spans a ++ spansFrom 0 0 a.length (signs (endsEscaping false a) b) := by
  rw [spans_eq, spans_eq, signs_append, spansFrom_append h, length_signs, Nat.zero_add]

/-- Behind a clean end the spans are those of what follows, moved. -/
theorem CleanEnd.spans_append {a : Text} (h : CleanEnd a) (b : Text) :
    spans (a ++ b) = spans a ++ (spans b).map (Span.shift a.length) := by
  have hshift := spansFrom_shift a.length 0 0 0 (signs false b)
  rw [spansFrom_zero (0 + a.length) 0, Nat.zero_add] at hshift
  rw [spans_append_from h.depth, h.ends, hshift, spans_eq b]

theorem spans_bracketed {x : Text} (h : IsInterior x) :
    spans (Render.bracketed x) = [⟨0, x.length + 1⟩] := by
  rw [spans_eq, signs_bracketed false h.ends]
  show spansFrom 1 0 1 (signs false x ++ [.closing]) = _
  rw [spansFrom_within h.wellNested, length_signs, Nat.add_comm 1]
  rfl

theorem slice_bracketed (x : Text) :
    (⟨0, x.length + 1⟩ : Span).slice (Render.bracketed x) = Render.bracketed x :=
  List.take_of_length_le (by simp [Render.bracketed])

/-! ## fragment texts -/

/-- The texts of the top-level fragments, from left to right. -/
def fragmentTexts (t : Text) : List Text := (spans t).map fun s => s.slice t

theorem CleanEnd.fragmentTexts_append {a : Text} (h : CleanEnd a) (b : Text) :
    fragmentTexts (a ++ b) = fragmentTexts a ++ fragmentTexts b := by
  rw [fragmentTexts, h.spans_append, List.map_append, List.map_map]
  congr 1
  · exact List.map_congr_left fun s hs => Span.slice_append (last_lt_of_mem_spans hs) b
  · exact List.map_congr_left fun s _ => s.slice_shift a b

theorem fragmentTexts_append {a : Text} (h : IsInterior a) (b : Text) :
    fragmentTexts (a ++ b) = fragmentTexts a ++ fragmentTexts b :=
  h.cleanEnd.fragmentTexts_append b

theorem fragmentTexts_bracketed {x : Text} (h : IsInterior x) :
    fragmentTexts (Render.bracketed x) = [Render.bracketed x] := by
  rw [fragmentTexts, spans_bracketed h, List.map_singleton, slice_bracketed]

theorem fragmentTexts_bracketed_append {x : Text} (h : IsInterior x) (r : Text) :
    fragmentTexts (Render.bracketed x ++ r) = Render.bracketed x :: fragmentTexts r := by
  rw [fragmentTexts_append (isInterior_bracketed h), fragmentTexts_bracketed h]
  rfl

/-- Where one fragment text starts, no other does. -/
theorem eq_of_starts_bracketed {x y w : Text} (hx : IsInterior x) (hy : IsInterior y)
    (h : Render.bracketed y <+: Render.bracketed x ++ w) : y = x := by
  obtain ⟨r, hr⟩ := h
  have htexts := congrArg fragmentTexts hr
  rw [fragmentTexts_bracketed_append hx, fragmentTexts_bracketed_append hy] at htexts
  exact bracketed_injective (List.cons.inj htexts).1

/-- A text that a bracketed one both ends and starts with, but for the brackets. -/
theorem border_bracketed {x a q b : Text} (ha : a ≠ []) (hq : q ≠ [])
    (haq : a ++ q = Render.bracketed x) (hqb : q ++ b = Render.bracketed x) :
    ∃ a' y b', x = a' ++ '{' :: y ∧ x = y ++ '}' :: b' := by
  obtain ⟨c, a, rfl⟩ := List.exists_cons_of_ne_nil ha
  obtain ⟨d, q, rfl⟩ := List.exists_cons_of_ne_nil hq
  obtain ⟨rfl, hstart⟩ : d = '{' ∧ q ++ b = x ++ ['}'] := List.cons.inj hqb
  obtain ⟨_, hend⟩ : c = '{' ∧ a ++ '{' :: q = x ++ ['}'] := List.cons.inj haq
  have hne : q ≠ [] := by
    rintro rfl
    have := (List.append_inj' hend rfl).2
    cases this
  obtain ⟨y, e, rfl⟩ := (List.eq_nil_or_concat q).resolve_left hne
  rw [List.concat_eq_append] at hstart hend
  have hend : a ++ '{' :: y ++ [e] = x ++ ['}'] := by simpa using hend
  obtain ⟨hx, he⟩ := List.append_inj' hend rfl
  obtain rfl : e = '}' := (List.cons.inj he).1
  have hb : b ≠ [] := by
    rintro rfl
    have h1 := congrArg List.length hx
    have h2 := congrArg List.length hstart
    simp only [List.length_append, List.length_cons, List.length_nil] at h1 h2
    omega
  obtain ⟨b, f, rfl⟩ := (List.eq_nil_or_concat b).resolve_left hb
  have hstart : y ++ '}' :: b ++ [f] = x ++ ['}'] := by simpa using hstart
  exact ⟨a, y, b, hx.symm, (List.append_inj' hstart rfl).1.symm⟩

/-- An interior that starts with `y` and a `}` does not end with a `{` and `y`: where it starts, `y`
leaves a bracket open, and at the end it leaves none. -/
theorem no_border {a x y b : Text} (hx : IsInterior x) (ha : x = a ++ '{' :: y)
    (hb : x = y ++ '}' :: b) : False := by
  have hends : endsEscaping false y = false := by
    have := hx.ends
    rwa [ha, endsEscaping_open] at this
  have hstart := hx.wellNested
  rw [WellNested, hb, signs_append, hends] at hstart
  obtain ⟨k, hk, hclose⟩ := nest_split hstart
  have hend := hx.wellNested
  rw [WellNested, ha, signs_append] at hend
  obtain ⟨m, _, hm⟩ := nest_split hend
  have hopen : ∃ j, nest j (signs false y) = some 0 := by
    cases hesc : endsEscaping false a with
    | false => exact ⟨m + 1, by rw [hesc] at hm; exact hm⟩
    | true => exact ⟨m, by rw [hesc] at hm; exact hm⟩
  obtain ⟨j, hj⟩ := hopen
  have hadd := nest_add hk j
  rw [Nat.zero_add, hj] at hadd
  cases k with
  | zero => cases hclose
  | succ k =>
    have := Option.some.inj hadd
    omega

/-- No two occurrences of one fragment text overlap. -/
theorem unbordered_bracketed {x : Text} (hx : IsInterior x) :
    Text.Unbordered (Render.bracketed x) := by
  intro a q b haq hqb
  by_cases ha : a = []
  · exact Or.inl ha
  · refine Or.inr (Classical.byContradiction fun hq => ?_)
    obtain ⟨_, _, _, hend, hstart⟩ := border_bracketed ha hq haq hqb
    exact no_border hx hend hstart

theorem fragmentTexts_of_no_opening {t : Text} (h : countFrom .opening false t = 0) :
    fragmentTexts t = [] := by
  have hmem : Sign.opening ∉ signs false t := List.count_eq_zero.mp h
  have : ∀ (ss : List Sign) s i, Sign.opening ∉ ss → spansFrom 0 s i ss = [] := by
    intro ss
    induction ss with
    | nil => exact fun _ _ _ => rfl
    | cons sg r ih =>
      intro s i hm
      have hr := ih s (i + 1) fun h => hm (List.mem_cons_of_mem _ h)
      cases sg with
      | opening => exact absurd List.mem_cons_self hm
      | closing => exact hr
      | token => exact hr
      | plain => exact hr
  rw [fragmentTexts, spans_eq, this _ _ _ hmem]
  rfl

end Template

namespace Render
open Template

/-- A pass solves the different fragment texts that hold an `@`. -/
theorem openTexts_eq (t : Text) :
    openTexts t = ((fragmentTexts t).filter (·.contains '@')).eraseDups := by
  have hkind : ∀ f : Text, decide (kindOf f ≠ .literal) = f.contains '@' := by
    intro f
    rw [Bool.eq_iff_iff, decide_eq_true_iff, ne_eq, kindOf_eq_literal_iff, Classical.not_not,
      List.contains_iff_mem]
  rw [openTexts, fragments, fragmentTexts, List.filter_map, List.filter_map, List.map_map]
  congr 3
  funext s
  exact hkind (s.slice t)

theorem eraseDups_of_nodup {fs : List Text} (h : fs.Nodup) : fs.eraseDups = fs := by
  induction fs with
  | nil => rfl
  | cons f fs ih =>
    obtain ⟨hf, hfs⟩ := List.nodup_cons.mp h
    have hkeep : fs.filter (fun g => !g == f) = fs := by
      refine List.filter_eq_self.mpr fun g hg => ?_
      have : g ≠ f := fun e => hf (e ▸ hg)
      simpa using this
    rw [List.eraseDups_cons, hkeep, ih hfs]

theorem openTexts_of_nodup {t : Text} {fs : List Text} (h : fragmentTexts t = fs)
    (ha : ∀ f ∈ fs, '@' ∈ f) (hn : fs.Nodup) : openTexts t = fs := by
  have hall : fs.filter (fun f => f.contains '@') = fs :=
    List.filter_eq_self.mpr fun f hf => List.contains_iff_mem.mpr (ha f hf)
  rw [openTexts_eq, h, hall, eraseDups_of_nodup hn]

end Render
end Citations
