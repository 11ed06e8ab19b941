import Citations.Render.Pass

/-!
# Brackets

How many signs of a sort a text has, how deep its brackets stand, and what can stand between two
brackets.

* `countFrom s esc t`   how many characters of `t` have the sign `s`, with `esc` for a backslash
                        directly before `t`; an inserted text changes it only at the seams;
* `nest d ss`           the bracket depth after the signs `ss`, from depth `d` on, or `none` where a
                        `}` has no `{`;
* `WellNested t`        the unescaped brackets of `t` match;
* `IsInterior x`        `x` can stand between two brackets: well nested, and its end does not
                        escape the `}`;
* `exists_of_mem_spans`   every span of a text is such an interior between two unescaped brackets.
-/

namespace Citations
namespace Template

/-! ## the end of a text -/

theorem endsEscaping_of_ne_nil (esc : Bool) {t : Text} (h : t ≠ []) :
    endsEscaping esc t = endsEscaping false t := by
  cases t with
  | nil => exact absurd rfl h
  | cons c r => rfl

theorem endsEscaping_concat (esc : Bool) (t : Text) (c : Char) :
    endsEscaping esc (t ++ [c]) = (c == '\\') := by
  rw [endsEscaping_append]
  rfl

theorem endsEscaping_eq_false_of_not_mem {t : Text} (h : '\\' ∉ t) :
    endsEscaping false t = false := by
  induction t with
  | nil => rfl
  | cons c r ih =>
    have hc : c ≠ '\\' := fun e => h (e ▸ List.mem_cons_self)
    have hr := ih fun hm => h (List.mem_cons_of_mem _ hm)
    rw [endsEscaping_cons, beq_eq_false_iff_ne.mpr hc]
    exact hr

/-- What stands behind a text is escaped if the text ends with a backslash. -/
theorem endsEscaping_iff {t : Text} : endsEscaping false t = true ↔ ['\\'] <:+ t := by
  rcases List.eq_nil_or_concat t with rfl | ⟨u, c, rfl⟩
  · exact iff_of_false Bool.false_ne_true fun h => List.cons_ne_nil _ _ (List.suffix_nil.mp h)
  · rw [List.concat_eq_append, endsEscaping_concat, beq_iff_eq]
    constructor
    · rintro rfl
      exact List.suffix_append u _
    · rintro ⟨v, hv⟩
      have hlast := (List.append_inj' hv rfl).2
      exact (List.cons.inj hlast).1.symm

theorem endsEscaping_eq_false_iff {t : Text} :
    endsEscaping false t = false ↔ ¬ ['\\'] <:+ t := by
  rw [← endsEscaping_iff, Bool.not_eq_true]

/-! ## counting signs -/

/-- How many characters of `t` have the sign `s`, with `esc` for a backslash before `t`. -/
def countFrom (s : Sign) (esc : Bool) (t : Text) : Nat := (signs esc t).count s

theorem countFrom_nil (s : Sign) (esc : Bool) : countFrom s esc [] = 0 := rfl

theorem countFrom_cons (s : Sign) (esc : Bool) (c : Char) (r : Text) :
    countFrom s esc (c :: r) = (if sign esc c = s then 1 else 0) + countFrom s (c == '\\') r := by
  rw [countFrom, signs_cons, List.count_cons, countFrom, Nat.add_comm]
  by_cases h : sign esc c = s <;> simp [h]

theorem countFrom_append (s : Sign) (esc : Bool) (a b : Text) :
    countFrom s esc (a ++ b) = countFrom s esc a + countFrom s (endsEscaping esc a) b := by
  rw [countFrom, signs_append, List.count_append]
  rfl

theorem countFrom_le {s : Sign} (h : s ≠ .plain) (esc : Bool) (t : Text) :
    countFrom s esc t ≤ countFrom s false t := by
  cases t with
  | nil => exact Nat.le_refl _
  | cons c r =>
    rw [countFrom_cons, countFrom_cons]
    cases esc with
    | false => exact Nat.le_refl _
    | true =>
      have : sign true c ≠ s := fun e => h (e ▸ sign_escaped c)
      simp [this]

theorem countFrom_append_le {s : Sign} (h : s ≠ .plain) (esc : Bool) (a b : Text) :
    countFrom s esc (a ++ b) ≤ countFrom s false a + countFrom s false b := by
  rw [countFrom_append]
  exact Nat.add_le_add (countFrom_le h esc a) (countFrom_le h _ b)

/-- A text put between two others has no more signs there than alone. -/
theorem countFrom_between_le {s : Sign} (hs : s ≠ .plain) (esc : Bool) (u new w : Text) :
    countFrom s esc (u ++ new ++ w) ≤
      countFrom s esc u + (countFrom s false new + countFrom s false w) := by
  rw [List.append_assoc, countFrom_append]
  have h1 := countFrom_le hs (endsEscaping esc u) (new ++ w)
  have h2 := countFrom_append_le hs false new w
  omega

section
variable {s : Sign} {d : Char}

/-- Only an escaped character is plain as well as a sign. -/
theorem ne_plain_of_iff (hs : ∀ esc c, sign esc c = s ↔ esc = false ∧ c = d) : s ≠ .plain := by
  rintro rfl
  have := ((hs true d).mp (sign_escaped d)).1
  cases this

theorem countFrom_of_not_mem (hs : ∀ esc c, sign esc c = s ↔ esc = false ∧ c = d) {t : Text}
    (h : d ∉ t) (esc : Bool) : countFrom s esc t = 0 := by
  induction t generalizing esc with
  | nil => rfl
  | cons c r ih =>
    have hc : sign esc c ≠ s := fun e => h (((hs _ _).mp e).2 ▸ List.mem_cons_self)
    rw [countFrom_cons, if_neg hc, ih fun hm => h (List.mem_cons_of_mem _ hm)]

end

/-! ## depth -/

/-- The depth after some signs, or `none` where it would fall below zero. -/
def nest (d : Nat) : List Sign → Option Nat
  | [] => some d
  | .opening :: r => nest (d + 1) r
  | .closing :: r =>
    match d with
    | 0 => none
    | d + 1 => nest d r
  | .token :: r => nest d r
  | .plain :: r => nest d r

theorem nest_nil (d : Nat) : nest d [] = some d := rfl

theorem nest_append (d : Nat) (a b : List Sign) :
    nest d (a ++ b) = (nest d a).bind fun e => nest e b := by
  induction a generalizing d with
  | nil => rfl
  | cons s r ih =>
    cases s with
    | opening => exact ih (d + 1)
    | closing =>
      cases d with
      | zero => rfl
      | succ d => exact ih d
    | token => exact ih d
    | plain => exact ih d

theorem nest_append_of {d e : Nat} {a b : List Sign} (h : nest d a = some e) :
    nest d (a ++ b) = nest e b := by
  rw [nest_append, h]
  rfl

/-- Under more open brackets the same signs do the same. -/
theorem nest_add {d e : Nat} {a : List Sign} (h : nest d a = some e) (k : Nat) :
    nest (d + k) a = some (e + k) := by
  induction a generalizing d with
  | nil =>
    rw [nest_nil] at h ⊢
    rw [Option.some.inj h]
  | cons s r ih =>
    cases s with
    | opening =>
      have := ih (d := d + 1) h
      rwa [Nat.add_right_comm] at this
    | closing =>
      cases d with
      | zero => cases h
      | succ d =>
        have := ih (d := d) h
        rw [Nat.add_right_comm]
        exact this
    | token => exact ih (d := d) h
    | plain => exact ih (d := d) h

/-- Every `{` raises the depth by one and every `}` lowers it by one. -/
theorem nest_count {d e : Nat} {a : List Sign} (h : nest d a = some e) :
    d + a.count .opening = e + a.count .closing := by
  induction a generalizing d with
  | nil =>
    rw [nest_nil] at h
    simp [Option.some.inj h]
  | cons s r ih =>
    cases s with
    | opening =>
      have := ih (d := d + 1) h
      have hne : Sign.opening ≠ .closing := by decide
      simp only [List.count_cons_self, List.count_cons_of_ne hne]
      omega
    | closing =>
      cases d with
      | zero => cases h
      | succ d =>
        have := ih (d := d) h
        simp only [List.count_cons_self,
          List.count_cons_of_ne (show Sign.closing ≠ .opening by decide)]
        omega
    | token => simpa using ih (d := d) h
    | plain => simpa using ih (d := d) h

theorem nest_split {d e : Nat} {a b : List Sign} (h : nest d (a ++ b) = some e) :
    ∃ m, nest d a = some m ∧ nest m b = some e := by
  rw [nest_append] at h
  exact Option.bind_eq_some_iff.mp h

/-- Where no `}` stands alone the depth that stops at zero is the same. -/
theorem depthFrom_of_nest {d e : Nat} {ss : List Sign} (h : nest d ss = some e) :
    depthFrom d ss = e := by
  induction ss generalizing d with
  | nil => exact Option.some.inj h
  | cons s ss ih =>
    cases s with
    | opening => exact ih (d := d + 1) h
    | closing =>
      cases d with
      | zero => cases h
      | succ d => exact ih (d := d) h
    | token => exact ih (d := d) h
    | plain => exact ih (d := d) h

/-- The unescaped brackets of a text match. -/
def WellNested (t : Text) : Prop := nest 0 (signs false t) = some 0

instance (t : Text) : Decidable (WellNested t) := inferInstanceAs (Decidable (_ = _))

/-! ## interiors -/

/-- What can stand between an unescaped `{` and the `}` that closes it. -/
structure IsInterior (x : Text) : Prop where
  wellNested : WellNested x
  ends : endsEscaping false x = false

theorem IsInterior.nest {x : Text} (h : IsInterior x) (d : Nat) :
    nest d (signs false x) = some d := by
  have := nest_add h.wellNested d
  rwa [Nat.zero_add] at this

theorem IsInterior.append {x y : Text} (hx : IsInterior x) (hy : IsInterior y) :
    IsInterior (x ++ y) := by
  refine ⟨?_, ?_⟩
  · rw [WellNested, signs_append, nest_append_of hx.wellNested, hx.ends]
    exact hy.wellNested
  · rw [endsEscaping_append, hx.ends]
    exact hy.ends

theorem interior_bracketed (x : Text) : interior (Render.bracketed x) = x := by
  simp [interior, Render.bracketed]

theorem bracketed_ne_nil (x : Text) : Render.bracketed x ≠ [] := by
  simp [Render.bracketed]

theorem bracketed_injective {x y : Text} (h : Render.bracketed x = Render.bracketed y) : x = y := by
  rw [← interior_bracketed x, h, interior_bracketed]

theorem endsEscaping_bracketed (esc : Bool) (x : Text) :
    endsEscaping esc (Render.bracketed x) = false :=
  endsEscaping_concat esc ('{' :: x) '}'

section
variable {x : Text}

theorem signs_bracketed (esc : Bool) (h : endsEscaping false x = false) :
    signs esc (Render.bracketed x) = sign esc '{' :: signs false x ++ [.closing] := by
  rw [Render.bracketed, List.cons_append, signs_cons, signs_append]
  have : endsEscaping ('{' == '\\') x = false := h
  rw [this]
  rfl

theorem nest_bracketed (h : IsInterior x) (d : Nat) :
    nest d (signs false (Render.bracketed x)) = some d := by
  rw [signs_bracketed false h.ends]
  show nest (d + 1) (signs false x ++ [.closing]) = some d
  rw [nest_append_of (h.nest (d + 1))]
  rfl

theorem isInterior_bracketed (h : IsInterior x) : IsInterior (Render.bracketed x) :=
  ⟨nest_bracketed h 0, endsEscaping_bracketed false x⟩

theorem isNested_bracketed (h : endsEscaping false x = false) :
    isNested (Render.bracketed x) = (signs false x).contains .opening := by
  have hs : (signs false (Render.bracketed x)).drop 1 = signs false x ++ [.closing] := by
    rw [signs_bracketed false h]
    rfl
  rw [isNested, hs]
  simp

theorem isNested_bracketed_eq_false (h : endsEscaping false x = false)
    (ho : countFrom .opening false x = 0) : isNested (Render.bracketed x) = false := by
  have : Sign.opening ∉ signs false x := List.count_eq_zero.mp ho
  rw [isNested_bracketed h]
  simpa using this

theorem countFrom_closing_leaf (h : IsInterior x) (hl : isNested (Render.bracketed x) = false) :
    countFrom .closing false x = 0 := by
  rw [isNested_bracketed h.ends] at hl
  have ho : (signs false x).count .opening = 0 := by
    rw [List.count_eq_zero]
    simpa using hl
  have := nest_count h.wellNested
  rw [countFrom]
  omega

theorem countFrom_closing_bracketed (esc : Bool) (h : endsEscaping false x = false) :
    countFrom .closing esc (Render.bracketed x) = countFrom .closing false x + 1 := by
  have ho : sign esc '{' ≠ .closing := by cases esc <;> decide
  rw [countFrom, signs_bracketed esc h, List.cons_append, List.count_cons_of_ne ho,
    List.count_append]
  rfl

theorem countFrom_opening_bracketed (esc : Bool) (h : endsEscaping false x = false) :
    countFrom .opening esc (Render.bracketed x) =
      (if esc then 0 else 1) + countFrom .opening false x := by
  unfold countFrom
  rw [signs_bracketed esc h, List.cons_append, List.count_cons, List.count_append]
  cases esc
  · show countFrom .opening false x + 0 + 1 = 1 + countFrom .opening false x
    omega
  · show countFrom .opening false x + 0 + 0 = 0 + countFrom .opening false x
    omega

/-- The tokens of a bracketed text are those between the brackets. -/
theorem countFrom_token_bracketed (esc : Bool) (x : Text) :
    countFrom .token esc (Render.bracketed x) = countFrom .token false x := by
  have hopen : sign esc '{' ≠ .token := by cases esc <;> decide
  have hclose : ∀ e, countFrom .token e ['}'] = 0 := by decide
  unfold Render.bracketed
  rw [List.cons_append, countFrom_cons, if_neg hopen, countFrom_append, hclose]
  show 0 + (countFrom .token false x + 0) = _
  omega

/-- Brackets add no more than one sign of a sort. -/
theorem countFrom_bracketed_le {s : Sign} (hs : s ≠ .plain) (esc : Bool) (x : Text) :
    countFrom s esc (Render.bracketed x) ≤ countFrom s false x + 1 := by
  have hle := countFrom_append_le hs false x ['}']
  have hcons : countFrom s esc (Render.bracketed x) =
      (if sign esc '{' = s then 1 else 0) + countFrom s false (x ++ ['}']) := countFrom_cons _ _ _ _
  have hlast : countFrom s false ['}'] = if Sign.closing = s then 1 else 0 := countFrom_cons _ _ _ _
  by_cases hopen : sign esc '{' = s
  · have hclose : Sign.closing ≠ s := by
      rintro rfl
      cases esc <;> cases hopen
    rw [if_pos hopen] at hcons
    rw [if_neg hclose] at hlast
    omega
  · rw [if_neg hopen] at hcons
    have hone : (if Sign.closing = s then 1 else 0) ≤ 1 := by split <;> omega
    omega

end

/-! ## spans -/

/-- The place of a bracketed text behind an unescaped end at depth zero. -/
structure SpanAt (t : Text) (s : Span) (u x w : Text) : Prop where
  text : t = u ++ Render.bracketed x ++ w
  span : s = ⟨u.length, u.length + x.length + 1⟩
  ends : endsEscaping false u = false
  depth : depthFrom 0 (signs false u) = 0
  interior : IsInterior x

theorem SpanAt.slice {t u x w : Text} {s : Span} (h : SpanAt t s u x w) :
    s.slice t = Render.bracketed x := by
  have hl : (Render.bracketed x).length = x.length + 2 := by simp [Render.bracketed]
  have ht : t.take (u.length + x.length + 1 + 1) = u ++ Render.bracketed x := by
    rw [h.text, List.take_append_of_le_length]
    · rw [List.take_of_length_le]
      simp only [List.length_append, hl]
      omega
    · simp only [List.length_append, hl]
      omega
  rw [h.span]
  show (t.take (u.length + x.length + 1 + 1)).drop u.length = _
  rw [ht, List.drop_left]

theorem depthFrom_concat (t : Text) (c : Char) :
    depthFrom 0 (signs false (t ++ [c])) =
      depthFrom (depthFrom 0 (signs false t)) [sign (endsEscaping false t) c] := by
  rw [signs_append, depthFrom_append]
  rfl

/-- What has been read of a fragment that is still open. -/
def OpenAt (pre : Text) (start depth : Nat) : Prop :=
  depth ≠ 0 → ∃ u q, pre = u ++ '{' :: q ∧ start = u.length ∧ endsEscaping false u = false ∧
    depthFrom 0 (signs false u) = 0 ∧ nest 0 (signs false q) = some (depth - 1)

theorem endsEscaping_open {u q : Text} :
    endsEscaping false (u ++ '{' :: q) = endsEscaping false q := by
  rw [endsEscaping_append]
  rfl

section
variable {pre : Text} {start depth : Nat} {c : Char}

theorem OpenAt.concat {depth' : Nat} (h : OpenAt pre start depth) (hd : depth ≠ 0)
    (hn : nest (depth - 1) [sign (endsEscaping false pre) c] = some (depth' - 1)) :
    OpenAt (pre ++ [c]) start depth' := by
  intro _
  obtain ⟨u, q, rfl, hs, he, hu, hq⟩ := h hd
  refine ⟨u, q ++ [c], by simp, hs, he, hu, ?_⟩
  rw [signs_append, nest_append_of hq, ← endsEscaping_open (u := u)]
  exact hn

/-- A bracket opens the fragment, or one within it. -/
theorem OpenAt.opening (h : OpenAt pre start depth) (hdep : depthFrom 0 (signs false pre) = depth)
    (hs : sign (endsEscaping false pre) c = .opening) :
    OpenAt (pre ++ [c]) (if depth = 0 then pre.length else start) (depth + 1) := by
  by_cases hd : depth = 0
  · intro _
    obtain ⟨hesc, rfl⟩ := sign_eq_opening_iff.mp hs
    refine ⟨pre, [], rfl, by rw [if_pos hd], hesc, by rw [hdep, hd], ?_⟩
    rw [hd]
    rfl
  · rw [if_neg hd]
    refine h.concat hd ?_
    rw [hs]
    show some (depth - 1 + 1) = some (depth + 1 - 1)
    rw [Nat.sub_add_cancel (Nat.pos_of_ne_zero hd)]
    rfl

theorem OpenAt.closing (h : OpenAt pre start depth) (hd : depth ≠ 1)
    (hs : sign (endsEscaping false pre) c = .closing) : OpenAt (pre ++ [c]) start (depth - 1) := by
  intro hd'
  refine h.concat (by omega) ?_ hd'
  rw [hs]
  obtain ⟨k, rfl⟩ : ∃ k, depth = k + 2 := ⟨depth - 2, by omega⟩
  rfl

theorem OpenAt.keep {sg : Sign} (h : OpenAt pre start depth)
    (hs : sign (endsEscaping false pre) c = sg) (hsg : sg = .token ∨ sg = .plain) :
    OpenAt (pre ++ [c]) start depth := by
  intro hd
  refine h.concat hd ?_ hd
  rw [hs]
  rcases hsg with rfl | rfl <;> rfl

/-- The bracket of the fragment closes it. -/
theorem OpenAt.spanAt (h : OpenAt pre start 1) (hs : sign (endsEscaping false pre) c = .closing)
    (r : Text) : ∃ u x w, SpanAt (pre ++ [c] ++ r) ⟨start, pre.length⟩ u x w := by
  obtain ⟨u, q, rfl, rfl, he, hu, hq⟩ := h Nat.one_ne_zero
  obtain ⟨hesc, rfl⟩ := sign_eq_closing_iff.mp hs
  rw [endsEscaping_open] at hesc
  refine ⟨u, q, r, ⟨by simp [Render.bracketed], ?_, he, hu, ⟨hq, hesc⟩⟩⟩
  simp only [List.length_append, List.length_cons, Span.mk.injEq, true_and]
  omega

end

/-- Reading on from `pre`: every span found is one of the whole text. -/
theorem spanAt_of_mem_spansFrom {s : Span} (r : Text) :
    ∀ (pre : Text) (depth start : Nat), depthFrom 0 (signs false pre) = depth →
      OpenAt pre start depth →
      s ∈ spansFrom depth start pre.length (signs (endsEscaping false pre) r) →
      ∃ u x w, SpanAt (pre ++ r) s u x w := by
  induction r with
  | nil =>
    intro pre depth start _ _ hm
    simp [signs, spansFrom] at hm
  | cons c r ih =>
    intro pre depth start hdep hopen hm
    have hsplit : pre ++ c :: r = (pre ++ [c]) ++ r := by simp
    have hlen : (pre ++ [c]).length = pre.length + 1 := by simp
    have hends : endsEscaping false (pre ++ [c]) = (c == '\\') := endsEscaping_concat false pre c
    have hdep' := depthFrom_concat pre c
    rw [hdep] at hdep'
    rw [signs_cons, ← hends] at hm
    rw [hsplit]
    cases hsg : sign (endsEscaping false pre) c with
    | opening =>
      rw [hsg] at hm hdep'
      rw [spansFrom, ← hlen] at hm
      exact ih _ (depth + 1) _ hdep' (hopen.opening hdep hsg) hm
    | closing =>
      rw [hsg] at hm hdep'
      rw [spansFrom, ← hlen] at hm
      by_cases hd : depth = 1
      · subst hd
        rw [if_pos rfl] at hm
        rcases List.mem_cons.mp hm with rfl | hm
        · exact hopen.spanAt hsg r
        · exact ih _ 0 start hdep' (fun h => absurd rfl h) hm
      · rw [if_neg hd] at hm
        exact ih _ (depth - 1) start hdep' (hopen.closing hd hsg) hm
    | token =>
      rw [hsg] at hm hdep'
      rw [spansFrom, ← hlen] at hm
      exact ih _ depth start hdep' (hopen.keep hsg (Or.inl rfl)) hm
    | plain =>
      rw [hsg] at hm hdep'
      rw [spansFrom, ← hlen] at hm
      exact ih _ depth start hdep' (hopen.keep hsg (Or.inr rfl)) hm

theorem exists_of_mem_spans {t : Text} {s : Span} (h : s ∈ spans t) : ∃ u x w, SpanAt t s u x w :=
  spanAt_of_mem_spansFrom t [] 0 0 rfl (fun h => absurd rfl h) (spans_eq t ▸ h)

/-- The text of a fragment that a pass solves. -/
theorem exists_of_mem_openTexts {t f : Text} (h : f ∈ Render.openTexts t) :
    '@' ∈ f ∧ ∃ s u x w, SpanAt t s u x w ∧ f = Render.bracketed x := by
  obtain ⟨ha, s, hs, rfl⟩ := Render.mem_openTexts_iff.mp h
  obtain ⟨u, x, w, hp⟩ := exists_of_mem_spans hs
  exact ⟨ha, s, u, x, w, hp, hp.slice⟩

end Template
end Citations
