import Citations.Proofs.Fragments
import Citations.Proofs.Progress

/-!
# The brackets of a run

As long as no value holds a `{`, every text of a run has matching brackets: no `{` of a text is
ever escaped, so a fragment text is met only where it is a fragment, and what it becomes closes
what it opens.  A value with a `{` breaks this, because a fragment text may then be met inside an
inserted value.

* `wellNested_of_check`   the strict check matches the brackets;
* `Regular t`             matching brackets, none of them escaped;
* `regular_of_pass`       what a pass keeps, from `Regular.exchange`;
* `brackets_kept_iff`     the values that can be given to every citation.
-/

namespace Citations

/-! ## the strict check -/

namespace Template

/-- The open fragments of the strict check are as many as the brackets that are open. -/
theorem nest_of_checkNestingFrom {esc : Bool} {i : Nat} {levels : List Level} {t : Text}
    (h : checkNestingFrom esc i levels t = .ok ()) : nest levels.length (signs esc t) = some 0 := by
  induction t generalizing esc i levels with
  | nil =>
    cases levels with
    | nil => rfl
    | cons l ls => cases h
  | cons c r ih =>
    obtain ⟨levels', hstep, h⟩ := checkNestingFrom_cons_iff.mp h
    have hrest := ih h
    rw [signs_cons]
    generalize sign esc c = s at hstep ⊢
    cases hstep with
    | opening | closing | token | bare | plain => exact hrest

theorem wellNested_of_check {t : Text} (h : check true t = .ok ()) : WellNested t :=
  nest_of_checkNestingFrom (check_strict_eq_ok_iff.mp h).2

/-! ## regular texts -/

/-- A text whose brackets match, none of them a `{` behind a backslash. -/
structure Regular (t : Text) : Prop where
  interior : IsInterior t
  unescaped : NoEscapedOpening false t

theorem regular_nil : Regular [] := ⟨⟨rfl, rfl⟩, trivial⟩

theorem regular_of_check {t : Text} (h : check true t = .ok ()) (hb : '\\' ∉ t) : Regular t :=
  ⟨⟨wellNested_of_check h, endsEscaping_eq_false_of_not_mem hb⟩,
    noEscapedOpening_of_no_backslash hb⟩

theorem Regular.bracketed {x : Text} (h : Regular x) : Regular (Render.bracketed x) := by
  refine ⟨isInterior_bracketed h.interior, ?_⟩
  rw [Render.bracketed, List.cons_append]
  refine ⟨fun _ => rfl, noEscapedOpening_append.mpr ⟨h.unescaped, ?_⟩⟩
  exact noEscapedOpening_of_not_mem (by decide) _

/-- Two texts for the same place: the brackets around do not notice the difference. -/
theorem IsInterior.exchange {u a b w : Text} (ha : IsInterior a)
    (hu : endsEscaping false u = false) (hb : IsInterior b) (h : IsInterior (u ++ a ++ w)) :
    IsInterior (u ++ b ++ w) := by
  have hsigns : ∀ m, IsInterior m →
      signs false (u ++ m ++ w) = signs false u ++ signs false m ++ signs false w := by
    intro m hm
    rw [signs_append, signs_append, endsEscaping_append, hu, hm.ends]
  have hends : ∀ m, IsInterior m → endsEscaping false (u ++ m ++ w) = endsEscaping false w := by
    intro m hm
    rw [endsEscaping_append, endsEscaping_append, hu, hm.ends]
  refine ⟨?_, ?_⟩
  · have hn := h.wellNested
    rw [WellNested, hsigns a ha, List.append_assoc] at hn
    obtain ⟨d, hd, hw⟩ := nest_split hn
    rw [nest_append_of (ha.nest d)] at hw
    rw [WellNested, hsigns b hb, List.append_assoc, nest_append_of hd, nest_append_of (hb.nest d)]
    exact hw
  · rw [hends b hb, ← hends a ha]
    exact h.ends

theorem Regular.exchange {u x new w : Text} (hnew : Regular new) (hx : IsInterior x)
    (h : Regular (u ++ Render.bracketed x ++ w)) : Regular (u ++ new ++ w) := by
  have hu := h.unescaped.ends
  refine ⟨(isInterior_bracketed hx).exchange hu hnew.interior h.interior, ?_⟩
  obtain ⟨hux, hw⟩ := noEscapedOpening_append.mp h.unescaped
  rw [endsEscaping_append, endsEscaping_bracketed] at hw
  refine noEscapedOpening_append.mpr ⟨noEscapedOpening_append.mpr ⟨?_, ?_⟩, ?_⟩
  · exact (noEscapedOpening_append.mp hux).1
  · rw [hu]
    exact hnew.unescaped
  · rw [endsEscaping_append, hu, hnew.interior.ends]
    exact hw

theorem SpanAt.regular {t u x w : Text} {s : Span} (hp : SpanAt t s u x w)
    (h : NoEscapedOpening false t) : Regular x := by
  refine ⟨hp.interior, ?_⟩
  rw [hp.text, List.append_assoc, noEscapedOpening_append, hp.ends, Render.bracketed,
    List.cons_append, List.cons_append, List.append_assoc] at h
  exact (noEscapedOpening_append.mp h.2.2).1

end Template

/-! ## what a pass keeps -/

namespace Render
open Template

section
variable {c : Context}

theorem Shows.regular (hd : c.options.debug = false) (hv : ∀ key, '{' ∉ c.resolve key)
    {key shown : Text} (h : Shows c key shown) : Regular shown := by
  cases h with
  | value =>
    refine ⟨⟨(isPlain_escape _ false).nest 0, endsEscaping_escape _⟩, ?_⟩
    refine noEscapedOpening_of_not_mem (fun hm => ?_) false
    exact hv key (mem_of_mem_escape (by decide) (by decide) hm)
  | placeholder _ hd' =>
    rw [hd] at hd'
    cases hd'

theorem isInterior_token {key : Text} (hk : ∀ d ∈ key, Text.isKeyChar d = true) :
    IsInterior ('@' :: key) :=
  ⟨(isPlain_key hk false).nest 0, (endsEscaping_key hk : endsEscaping false key = false)⟩

theorem Expands.regular (hd : c.options.debug = false) (hv : ∀ key, '{' ∉ c.resolve key)
    {x new : Text} (h : Expands c x new) (hx : Regular x) : Regular new := by
  cases h with
  | whole => exact hx
  | removed => exact regular_nil
  | @filled k shown hk hs =>
    have hcut := firstToken?_spec hk
    have hshown := hs.regular hd hv
    have hint := hx.interior
    have hbare := hx.unescaped
    rw [hcut.text] at hint hbare
    refine ⟨(isInterior_token hcut.key_chars).exchange hcut.ends hshown.interior hint, ?_⟩
    obtain ⟨hb, ha⟩ := noEscapedOpening_append.mp hbare
    rw [endsEscaping_append, hcut.ends, (isInterior_token hcut.key_chars).ends] at ha
    refine noEscapedOpening_append.mpr ⟨noEscapedOpening_append.mpr ⟨?_, ?_⟩, ?_⟩
    · exact (noEscapedOpening_append.mp hb).1
    · rw [hcut.ends]
      exact hshown.unescaped
    · rw [endsEscaping_append, hcut.ends, hshown.interior.ends]
      exact ha

theorem regular_of_pass (hd : c.options.debug = false) (hv : ∀ key, '{' ∉ c.resolve key)
    {t t' : Text} (h : (pass c t).outcome = .ok t') (ht : Regular t) : Regular t' := by
  refine pass_induction c (motive := fun t t' => Regular t → Regular t')
    (fun t solved _ hpairs ht => ?_) h ht
  -- every pair has a closed fragment text and a regular resolution
  have hpair : ∀ p ∈ solved, ∃ x, p.1 = bracketed x ∧ IsInterior x ∧ Regular p.2 := by
    intro p hp
    have := hpairs p hp
    generalize p.1 = f at this ⊢
    generalize p.2 = new at this ⊢
    cases this with
    | nested hf hn h ih =>
      obtain ⟨_, s, u, x, w, hspan, rfl⟩ := exists_of_mem_openTexts hf
      rw [interior_bracketed] at ih
      exact ⟨x, rfl, hspan.interior, (ih (hspan.regular ht.unescaped)).bracketed⟩
    | leaf hf hn h =>
      obtain ⟨_, s, u, x, w, hspan, rfl⟩ := exists_of_mem_openTexts hf
      rw [interior_bracketed] at h
      exact ⟨x, rfl, hspan.interior, h.regular hd hv (hspan.regular ht.unescaped)⟩
  refine Text.replaceAll_preserves (P := Regular) (fun p hp => ?_) (fun p hp u w h => ?_) ht
  · obtain ⟨x, hx, _⟩ := hpair p hp
    rw [hx]
    exact bracketed_ne_nil x
  · obtain ⟨x, hx, hint, hreg⟩ := hpair p hp
    rw [hx] at h
    exact hreg.exchange hint h

end

end Render

/-! ## a value that is met as a fragment -/

namespace Citation
open Template Render

/-- A fragment around another one, each with a token. -/
def doubled (key : Text) : Text := bracketed (bracketed ('@' :: key) ++ ['@', 'b'])

/-- What a pass leaves of it: a value in the place of the inner fragment. -/
def halfFilled (value : Text) : Text := bracketed (escape value ++ ['@', 'b'])

/-- Two fragments, of which the first may become a part of the value in the second. -/
def crossing (v q : Text) : Citation where
  template := doubled ['c'] ++ doubled ['a']
  data := [(.text ['a'], .text v), (.text ['b'], .text ['B']), (.text ['c'], .text q)]
  options := { strict := true }
  accepted := by rfl

theorem lookup_crossing (v q key : Text) :
    lookup (crossing v q).data key =
      if key = ['a'] then v else if key = ['b'] then ['B'] else if key = ['c'] then q else [] := by
  have hshow : ∀ t : Text, (if (Value.text t).isEmpty then [] else (Value.text t).display) = t := by
    intro t
    cases t <;> rfl
  have hkey : ∀ k : Text, key ≠ k → (Value.text k).sameKey (.text key) = false := by
    intro k hk
    rw [Value.sameKey_text]
    exact beq_eq_false_iff_ne.mpr hk.symm
  by_cases ha : key = ['a']
  · rw [ha]
    exact hshow v
  · by_cases hb : key = ['b']
    · rw [hb]
      rfl
    · by_cases hc : key = ['c']
      · rw [hc]
        exact hshow q
      · rw [if_neg ha, if_neg hb, if_neg hc]
        simp [lookup, crossing, Entries.get?, hkey _ ha, hkey _ hb, hkey _ hc]

section
variable {v p q : Text}

theorem isInterior_halfFilled (w : Text) : IsInterior (escape w ++ ['@', 'b']) := by
  refine ⟨?_, ?_⟩
  · rw [WellNested, signs_append, nest_append_of ((isPlain_escape w false).nest 0),
      endsEscaping_escape]
    rfl
  · rw [endsEscaping_append, endsEscaping_escape]
    rfl

/-- The inner fragments are filled by the first pass. -/
theorem solves_doubled {key : Text} (hk : firstToken? ('@' :: key) = some ⟨[], key, []⟩) :
    Solves (crossing v q).context (doubled key)
      (halfFilled ((crossing v q).context.resolve key)) := by
  have hkey : ∀ d ∈ key, Text.isKeyChar d = true := (firstToken?_spec hk).key_chars
  have htoken : IsInterior ('@' :: key) := isInterior_token hkey
  have hnested : isNested (doubled key) = true := by
    have hends : endsEscaping false (bracketed ('@' :: key) ++ ['@', 'b']) = false := by
      rw [endsEscaping_append, endsEscaping_bracketed]
      rfl
    rw [doubled, isNested_bracketed hends]
    rfl
  refine .nested hnested ?_
  rw [doubled, interior_bracketed]
  refine (pass_outcome _).mpr
    ⟨[(bracketed ('@' :: key), escape ((crossing v q).context.resolve key))], ⟨?_, ?_⟩, ?_⟩
  · have htexts : fragmentTexts (bracketed ('@' :: key) ++ ['@', 'b']) =
        [bracketed ('@' :: key)] := fragmentTexts_bracketed_append htoken _
    refine (openTexts_of_nodup htexts ?_ ?_).symm
    · exact List.forall_mem_singleton.mpr (by simp [bracketed])
    · simp
  · refine List.forall_mem_singleton.mpr (.leaf ?_ ?_)
    · refine isNested_bracketed_eq_false htoken.ends ?_
      rw [countFrom_cons, (isPlain_key hkey _).countFrom (by decide)]
      rfl
    · rw [interior_bracketed]
      by_cases hv : (crossing v q).context.resolve key = []
      · rw [hv]
        exact .removed hk hv rfl
      · have := Expands.filled hk (.value hv)
        rwa [Token.filledWith, List.append_nil] at this
  · rw [Text.replaceAll_cons, Text.replace_append_self _ _ (bracketed_ne_nil _)]
    rfl

theorem solves_halfFilled (w : Text) :
    Solves (crossing v q).context (halfFilled w) (escape w ++ ['B']) := by
  have hb : (crossing v q).context.resolve ['b'] = ['B'] :=
    (resolve_of_not_mem (by decide)).trans (lookup_crossing v q _)
  have hk : firstToken? (escape w ++ ['@', 'b']) = some ⟨escape w ++ [], ['b'], []⟩ := by
    rw [firstToken?, firstTokenFrom?_append (isPlain_escape w false), endsEscaping_escape]
    rfl
  refine .leaf (isNested_bracketed_eq_false (isInterior_halfFilled w).ends ?_) ?_
  · rw [countFrom_append, (isPlain_escape w false).countFrom (by decide), endsEscaping_escape]
    rfl
  · have hne : (crossing v q).context.resolve ['b'] ≠ [] := by
      rw [hb]
      decide
    have := Expands.filled hk (.value hne)
    rw [halfFilled, interior_bracketed]
    rwa [hb, Token.filledWith, List.append_nil, List.append_nil] at this

theorem resolve_crossing_a : (crossing v q).context.resolve ['a'] = v :=
  (resolve_of_not_mem (by decide)).trans (lookup_crossing v q _)

theorem resolve_crossing_c : (crossing v q).context.resolve ['c'] = q :=
  (resolve_of_not_mem (by decide)).trans (lookup_crossing v q _)

theorem doubled_eq (key : Text) :
    doubled key = '{' :: '{' :: (('@' :: key) ++ ['}', '@', 'b', '}']) := by
  simp [doubled, bracketed]

theorem halfFilled_eq (w : Text) : halfFilled w = '{' :: (escape w ++ ['@', 'b', '}']) := by
  simp [halfFilled, bracketed]

theorem replace_doubled (hq : '{' ∉ q) (key new : Text) :
    Text.replace (doubled key) new (halfFilled q ++ doubled key) = halfFilled q ++ new := by
  have hnone : '{' ∉ escape q ++ ['@', 'b', '}'] := by
    rw [List.mem_append]
    rintro (h | h)
    · exact hq (mem_of_mem_escape (by decide) (by decide) h)
    · exact absurd h (by decide)
  have hmiss : ¬ doubled key <+: '{' :: (escape q ++ ['@', 'b', '}'] ++ doubled key) := by
    intro h
    rw [doubled_eq] at h
    have h := (List.cons_prefix_cons.mp h).2
    cases hw : escape q with
    | nil =>
      rw [hw] at h
      exact absurd (List.cons_prefix_cons.mp h).1 (by decide)
    | cons d r =>
      rw [hw] at h hnone
      exact hnone ((List.cons_prefix_cons.mp h).1 ▸ List.mem_cons_self)
  have hne : doubled key ≠ [] := bracketed_ne_nil _
  have hself : Text.replace (doubled key) new (doubled key) = new := by
    have := Text.replace_append_self new [] hne
    rwa [List.append_nil, Text.replace_nil_right new hne, List.append_nil] at this
  rw [halfFilled_eq, List.cons_append, Text.replace_cons new hne hmiss]
  rw [doubled_eq] at hself ⊢
  rw [Text.replace_append_of_not_mem hnone, hself, List.cons_append]

theorem first_pass (hq : '{' ∉ q) :
    (pass (crossing v q).context (crossing v q).template).outcome =
      .ok (halfFilled q ++ halfFilled v) := by
  have hc := @solves_doubled v q ['c'] (by rfl)
  have ha := @solves_doubled v q ['a'] (by rfl)
  rw [resolve_crossing_c] at hc
  rw [resolve_crossing_a] at ha
  refine (pass_outcome _).mpr
    ⟨[(doubled ['c'], halfFilled q), (doubled ['a'], halfFilled v)], ⟨by rfl, ?_⟩, ?_⟩
  · exact List.forall_mem_cons.mpr ⟨hc, List.forall_mem_singleton.mpr ha⟩
  · have hfirst : Text.replace (doubled ['c']) (halfFilled q) (doubled ['c'] ++ doubled ['a']) =
        halfFilled q ++ doubled ['a'] := by
      have hne : doubled ['c'] ≠ [] := bracketed_ne_nil _
      rw [Text.replace_append_self _ _ hne]
      rfl
    rw [Text.replaceAll_cons, Text.replaceAll_cons, Text.replaceAll_nil]
    show Text.replace _ _ (Text.replace _ _ (doubled ['c'] ++ doubled ['a'])) = _
    rw [hfirst, replace_doubled hq]

/-- Plain text in front ends before the first token. -/
theorem length_le_of_isPlain {esc : Bool} {a b r r' : Text} (ha : endsEscaping esc a = false)
    (hb : IsPlain esc b) (h : a ++ '@' :: r = b ++ r') : b.length ≤ a.length := by
  induction a generalizing esc b with
  | nil =>
    cases b with
    | nil => exact Nat.le_refl _
    | cons d b =>
      have hd : '@' = d := (List.cons.inj h).1
      have he : esc = false := ha
      have := (isPlain_cons.mp hb).1
      rw [← hd, he] at this
      cases this
  | cons c a ih =>
    cases b with
    | nil => exact Nat.zero_le _
    | cons d b =>
      have hcd : c = d := (List.cons.inj h).1
      have h := (List.cons.inj h).2
      rw [← hcd] at hb
      exact Nat.succ_le_succ (ih ha (isPlain_cons.mp hb).2 h)

/-- Behind plain text that ends in a backslash the fragment text is met nevertheless. -/
theorem replace_halfFilled {esc : Bool} {a : Text} (ha : IsPlain esc a) (new : Text) :
    Text.replace (halfFilled q) new (a ++ '\\' :: halfFilled q) = a ++ '\\' :: new := by
  have hne : halfFilled q ≠ [] := bracketed_ne_nil _
  induction a generalizing esc with
  | nil =>
    have hmiss : ¬ halfFilled q <+: '\\' :: halfFilled q := by
      rw [halfFilled_eq]
      exact fun h => absurd (List.cons_prefix_cons.mp h).1 (by decide)
    have hself := Text.replace_append_self new [] hne
    rw [List.append_nil, Text.replace_nil_right new hne, List.append_nil] at hself
    rw [List.nil_append, Text.replace_cons new hne hmiss, hself]
    rfl
  | cons c a ih =>
    have hmiss : ¬ halfFilled q <+: c :: (a ++ '\\' :: halfFilled q) := by
      rintro ⟨w, hw⟩
      rw [halfFilled_eq] at hw
      have hc : '{' = c := (List.cons.inj hw).1
      have hw := (List.cons.inj hw).2
      rw [← hc] at ha
      -- an unescaped `@` would come too early
      have hplain : IsPlain false (a ++ '\\' :: '{' :: escape q) := by
        have hesc := isPlain_escape q false
        refine isPlain_append.mpr ⟨(isPlain_cons.mp ha).2, isPlain_cons.mpr ⟨?_, ?_⟩⟩
        · cases endsEscaping false a <;> rfl
        · exact isPlain_cons.mpr ⟨rfl, hesc⟩
      have hsplit : escape q ++ '@' :: (['b', '}'] ++ w) =
          a ++ '\\' :: '{' :: escape q ++ ['@', 'b', '}'] := by simpa using hw
      have hlen := length_le_of_isPlain (endsEscaping_escape q) hplain hsplit
      simp only [List.length_append, List.length_cons] at hlen
      omega
    rw [List.cons_append, Text.replace_cons new hne hmiss, ih (isPlain_cons.mp ha).2]
    rfl

/-- What the second pass leaves: the `{` of the value with the end of the value filled in. -/
def crossed (p q : Text) : Text :=
  escape q ++ ['B'] ++ '{' :: (escape p ++ '\\' :: (escape q ++ ['B']))

theorem escape_split : escape (p ++ '{' :: q) = escape p ++ '\\' :: '{' :: escape q := by
  rw [escape_append, escape_cons]
  rfl

theorem halfFilled_split :
    halfFilled (p ++ '{' :: q) = '{' :: (escape p ++ '\\' :: halfFilled q) := by
  rw [halfFilled_eq, escape_split, halfFilled_eq]
  simp

theorem countFrom_token_crossed : countFrom .token false (crossed p q) = 0 := by
  have hplain : ∀ w esc, countFrom .token esc (escape w) = 0 := fun w esc =>
    (isPlain_escape w esc).countFrom (by decide)
  simp only [crossed, countFrom_append, countFrom_cons, hplain]
  simp [countFrom_nil, sign_eq_token_iff]

theorem countFrom_token_halfFilled (esc : Bool) (w : Text) :
    countFrom .token esc (halfFilled w) = 1 := by
  have hsign : sign esc '{' ≠ .token := by cases esc <;> decide
  have hends : endsEscaping ('{' == '\\') (escape w) = false := endsEscaping_escape w
  rw [halfFilled_eq, countFrom_cons, countFrom_append, hends,
    (isPlain_escape w _).countFrom (by decide), if_neg hsign]
  rfl

/-- No token is left, so no fragment text is met any more. -/
theorem not_infix_crossed (w : Text) : ¬ halfFilled w <:+: crossed p q := by
  rintro ⟨u, r, h⟩
  have hcount := countFrom_token_crossed (p := p) (q := q)
  rw [← h, countFrom_append, countFrom_append, countFrom_token_halfFilled] at hcount
  omega

theorem not_wellNested_crossed : ¬ WellNested (crossed p q) := by
  have hplain : ∀ w esc d, nest d (signs esc (escape w)) = some d := fun w esc d =>
    (isPlain_escape w esc).nest d
  have hone : nest 0 (signs false (crossed p q)) = some 1 := by
    rw [crossed, signs_append, signs_append, List.append_assoc, nest_append_of (hplain q _ 0)]
    rw [endsEscaping_append, endsEscaping_escape]
    show nest 1 (signs false (escape p ++ '\\' :: (escape q ++ ['B']))) = some 1
    rw [signs_append, nest_append_of (hplain p _ 1), signs_cons, signs_append]
    rw [show ∀ e, sign e '\\' = .plain by decide]
    show nest 1 (signs true (escape q) ++ _) = some 1
    rw [nest_append_of (hplain q _ 1)]
    generalize endsEscaping _ (escape q) = esc
    cases esc <;> rfl
  intro h
  exact nomatch h.symm.trans hone

theorem second_pass :
    (pass (crossing (p ++ '{' :: q) q).context
      (halfFilled q ++ halfFilled (p ++ '{' :: q))).outcome = .ok (crossed p q) := by
  have hq : IsInterior (escape q ++ ['@', 'b']) := isInterior_halfFilled q
  have hv := isInterior_halfFilled (p ++ '{' :: q)
  refine (pass_outcome _).mpr ⟨[(halfFilled q, escape q ++ ['B']),
    (halfFilled (p ++ '{' :: q), escape (p ++ '{' :: q) ++ ['B'])], ⟨?_, ?_⟩, ?_⟩
  · have htexts : fragmentTexts (halfFilled q ++ halfFilled (p ++ '{' :: q)) =
        [halfFilled q, halfFilled (p ++ '{' :: q)] := by
      rw [halfFilled, halfFilled, fragmentTexts_bracketed_append hq, fragmentTexts_bracketed hv]
    refine (openTexts_of_nodup htexts ?_ ?_).symm
    · intro f hf
      rcases List.mem_cons.mp hf with rfl | hf
      · simp [halfFilled, bracketed]
      · rw [List.mem_singleton.mp hf]
        simp [halfFilled, bracketed]
    · have hne : halfFilled q ≠ halfFilled (p ++ '{' :: q) := by
        intro h
        have := congrArg List.length h
        rw [halfFilled_split] at this
        simp only [List.length_cons, List.length_append] at this
        omega
      simpa using hne
  · exact List.forall_mem_cons.mpr
      ⟨solves_halfFilled q, List.forall_mem_singleton.mpr (solves_halfFilled _)⟩
  · -- the first fragment text is met again, inside the value of the second
    have hne : halfFilled q ≠ [] := bracketed_ne_nil _
    have hmet : Text.replace (halfFilled q) (escape q ++ ['B']) (halfFilled (p ++ '{' :: q)) =
        '{' :: escape p ++ '\\' :: (escape q ++ ['B']) := by
      have hplain : IsPlain true ('{' :: escape p) := isPlain_cons.mpr ⟨rfl, isPlain_escape p _⟩
      rw [halfFilled_split]
      exact replace_halfFilled hplain _
    rw [Text.replaceAll_cons, Text.replaceAll_cons, Text.replaceAll_nil,
      Text.replace_append_self _ _ hne, hmet]
    exact Text.replace_of_not_infix _ (not_infix_crossed _)

/-- The first two texts of the run. -/
theorem texts_crossing (hq : '{' ∉ q) {limit : Nat} {ts : List Text}
    (h : ((crossing (p ++ '{' :: q) q).texts (limit + 2)).outcome = .ok ts) :
    ∃ ts', ts = (halfFilled q ++ halfFilled (p ++ '{' :: q)) :: crossed p q :: ts' := by
  have hstep : ∀ {n t t'}, hasTokenSign t = true →
      (pass (crossing (p ++ '{' :: q) q).context t).outcome = .ok t' → t' ≠ t →
      ((crossing (p ++ '{' :: q) q).next ⟨n, t⟩).outcome = .ok (some ⟨n + 1, t'⟩) := by
    intro n t t' ht hp hne
    rw [next_outcome, if_pos ⟨ht, rfl⟩, hp]
    show Except.ok (if t' = t then none else some _) = _
    rw [if_neg hne]
  have htokens : countFrom .token false (halfFilled q ++ halfFilled (p ++ '{' :: q)) = 2 := by
    rw [countFrom_append, countFrom_token_halfFilled, countFrom_token_halfFilled]
  have hfirst := @hstep 0 _ _ (by rfl) (first_pass hq) fun e => by
    have hbefore : countFrom .token false (doubled ['c'] ++ doubled ['a']) = 4 := by rfl
    have hafter := congrArg (countFrom .token false) e
    rw [htokens] at hafter
    exact absurd (hafter.trans hbefore) (by decide)
  have hsecond := @hstep 1 _ _
    (hasTokenSign_iff.mpr (List.count_pos_iff.mp (by rw [← countFrom, htokens]; decide)))
    second_pass fun e => by
      have hafter := congrArg (countFrom .token false) e
      rw [htokens, countFrom_token_crossed] at hafter
      cases hafter
  rcases textsFrom_outcome_ok.mp h with ⟨hn, _⟩ | ⟨s, ts', hn, h', rfl⟩
  · cases hn.symm.trans hfirst
  · obtain rfl := Option.some.inj (Except.ok.inj (hn.symm.trans hfirst))
    rcases textsFrom_outcome_ok.mp h' with ⟨hn', _⟩ | ⟨s', ts'', hn', _, rfl⟩
    · cases hn'.symm.trans hsecond
    · obtain rfl := Option.some.inj (Except.ok.inj (hn'.symm.trans hsecond))
      exact ⟨ts'', rfl⟩

end

/-! ## the values that keep the brackets -/

theorem data_crossing (v : Text) {q : Text} (hq : '{' ∉ q) (key : Text) :
    lookup (crossing v q).data key = v ∨ '{' ∉ lookup (crossing v q).data key := by
  rw [lookup_crossing]
  by_cases ha : key = ['a']
  · exact Or.inl (if_pos ha)
  · refine Or.inr ?_
    rw [if_neg ha]
    split
    · decide
    · split
      · exact hq
      · exact List.not_mem_nil

theorem exists_last {d : Char} {v : Text} (h : d ∈ v) : ∃ p q, v = p ++ d :: q ∧ d ∉ q := by
  obtain ⟨q, p, hv, hq⟩ := List.eq_append_cons_of_mem (List.mem_reverse.mpr h)
  refine ⟨p.reverse, q.reverse, ?_, fun hm => hq (List.mem_reverse.mp hm)⟩
  rw [← List.reverse_reverse v, hv]
  simp

/-- A value can be given to every citation, beside values without a `{`, if and only if it has no
`{` itself: then every text of the run has matching brackets. -/
theorem brackets_kept_iff (v : Text) :
    '{' ∉ v ↔ ∀ c : Citation, check true c.template = .ok () → '\\' ∉ c.template →
      c.options.debug = false → '{' ∉ c.options.comboSeparator →
      (∀ key, lookup c.data key = v ∨ '{' ∉ lookup c.data key) →
      ∃ ts, (∀ limit, countOf .closing c.template < limit → (c.texts limit).outcome = .ok ts) ∧
        ∀ t ∈ ts, WellNested t := by
  constructor
  · intro hv c hcheck hb hd hsep hdata
    obtain ⟨ts, hts⟩ := texts_exist hd
    have hnone : ∀ key, '{' ∉ c.context.resolve key := not_mem_resolve hsep fun key =>
      (hdata key).elim (fun e => e ▸ hv) id
    have hreg := textsFrom_preserves (fun _ _ h ht => regular_of_pass hd hnone h ht)
      (hts _ (Nat.lt_succ_self _)) (regular_of_check hcheck hb)
    exact ⟨ts, hts, fun t ht => (hreg t ht).interior.wellNested⟩
  · intro h hv
    obtain ⟨p, q, rfl, hq⟩ := exists_last hv
    have hb : '\\' ∉ doubled ['c'] ++ doubled ['a'] := by decide
    have hsep : '{' ∉ ", ".toList := by decide
    obtain ⟨ts, hts, hnested⟩ := h (crossing (p ++ '{' :: q) q) (crossing _ q).accepted hb rfl hsep
      (data_crossing _ hq)
    obtain ⟨ts', rfl⟩ := texts_crossing hq
      (hts (countOf .closing (crossing (p ++ '{' :: q) q).template + 2) (by omega))
    exact not_wellNested_crossed (hnested _ (List.mem_cons_of_mem _ List.mem_cons_self))

/-- The case of a value `{x` beside a value `x`: a strictly checked template without backslashes,
and in the second text of the run an unescaped `{` that nothing closes. -/
theorem brackets_lost : check true (crossing "\x7bx".toList "x".toList).template = .ok () ∧
    '\\' ∉ (crossing "\x7bx".toList "x".toList).template ∧
    (crossing "\x7bx".toList "x".toList).options.debug = false ∧
    ∃ ts, ((crossing "\x7bx".toList "x".toList).texts 5).outcome = .ok ts ∧
      ∃ t ∈ ts, ¬ WellNested t := by
  obtain ⟨ts, hts⟩ := texts_exist (c := crossing "\x7bx".toList "x".toList) rfl
  have h5 := hts 5 (by decide)
  obtain ⟨ts', hts'⟩ := @texts_crossing [] ['x'] (by decide) 3 ts h5
  refine ⟨(crossing _ _).accepted, by decide, rfl, ts, h5, crossed [] ['x'], ?_,
    not_wellNested_crossed⟩
  rw [hts']
  exact List.mem_cons_of_mem _ List.mem_cons_self

end Citation
end Citations
