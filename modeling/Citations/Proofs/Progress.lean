import Citations.Proofs.Placeholders
import Citations.Proofs.Replacing
import Citations.Render.Citation

/-!
# Progress

The unescaped `}` of a text measure how much is left to do: a pass that changes the text leaves
fewer of them, wherever the replaced fragment texts are met.  So a run has at most as many passes
as its template has unescaped `}`.

* `Options.NeverShows o memory d`   no placeholder that the options show holds `d`;
* `lowers_of_pass`      a pass leaves the text alone or lowers the count;
* `unshown_of_pass`     the only way in which a pass fails;
* `Citation.Reaches c s`   a run comes to the stage `s`; `Reaches.bound` counts its passes;
* `textsFrom_ends`      a run ends, if its limit is above the count;
* `progress`            all of it for a citation.
-/

namespace Citations

namespace Options
variable {o : Options} {memory : Memory} {d : Char}

/-- No placeholder that the options show for a key holds the character. -/
def NeverShows (o : Options) (memory : Memory) (d : Char) : Prop :=
  o.debug = true → ∀ key shown, key ≠ [] → (∀ e ∈ key, Text.isKeyChar e = true) →
    Placeholder.fill memory o.placeholder key = .ok shown → d ∉ shown

theorem neverShows_of_silent (h : o.debug = false) (d : Char) :
    o.NeverShows memory d := by
  intro hd
  rw [h] at hd
  cases hd

/-- The default placeholder shows square brackets and the key. -/
theorem neverShows_default (h : o.placeholder = "[\x7bkey\x7d]".toList)
    (hd : Text.isKeyChar d = false) (hopen : d ≠ '[') (hclose : d ≠ ']') :
    o.NeverShows memory d := by
  intro _ key shown _ hk hf hm
  rw [h, Placeholder.fill_default] at hf
  cases hf
  rcases Placeholder.mem_default.mp hm with hm | hm | hm
  · exact hopen hm
  · rw [hk d hm] at hd
    cases hd
  · exact hclose hm

end Options

namespace Render
open Template

section
variable {c : Context}

/-- The text is the same, or has fewer unescaped `}`. -/
def Lowers (t t' : Text) : Prop := t' = t ∨ countOf .closing t' < countOf .closing t

theorem Lowers.trans {t t' t'' : Text} (h : Lowers t t') (h' : Lowers t' t'') : Lowers t t'' := by
  rcases h with rfl | h
  · exact h'
  · rcases h' with rfl | h'
    · exact Or.inr h
    · exact Or.inr (Nat.lt_trans h' h)

theorem Lowers.le {t t' : Text} (h : Lowers t t') : countOf .closing t' ≤ countOf .closing t := by
  rcases h with rfl | h
  · exact Nat.le_refl _
  · exact Nat.le_of_lt h

/-! ## the interior of a leaf -/

section
variable {s : Sign} {d : Char}

/-- What is shown for a token holds a sign only where the placeholder does. -/
theorem Shows.countFrom_eq_zero (hs : ∀ esc e, sign esc e = s ↔ esc = false ∧ e = d)
    (hc : c.options.NeverShows c.memory d) {key shown : Text} (h : Shows c key shown) (hk : key ≠ [])
    (hk' : ∀ e ∈ key, Text.isKeyChar e = true) : countFrom s false shown = 0 := by
  cases h with
  | value => exact (isPlain_escape _ false).countFrom (ne_plain_of_iff hs)
  | placeholder _ hd hf => exact countFrom_of_not_mem hs (hc hd _ _ hk hk' hf) false

/-- A leaf does not gain a sign that is never shown; a filled or removed one loses its token. -/
theorem Expands.countFrom_le (hs : ∀ esc e, sign esc e = s ↔ esc = false ∧ e = d)
    (hc : c.options.NeverShows c.memory d) {segment new : Text} (h : Expands c segment new) :
    new = segment ∨
      countFrom s false new + (if s = .token then 1 else 0) ≤ countFrom s false segment := by
  cases h with
  | whole => exact Or.inl rfl
  | @removed k hk =>
    right
    have hcut := (firstToken?_spec hk).countFrom s
    rw [countFrom_nil]
    omega
  | @filled k shown hk hshow =>
    right
    have hcut := firstToken?_spec hk
    have hzero := hshow.countFrom_eq_zero hs hc hcut.key_ne_nil hcut.key_chars
    have hle := countFrom_between_le (ne_plain_of_iff hs) false k.before shown k.after
    have heq := hcut.countFrom s
    show countFrom s false (k.before ++ shown ++ k.after) + _ ≤ _
    omega

end

theorem Expands.countFrom_closing (hc : c.options.NeverShows c.memory '}') {segment new : Text}
    (h : Expands c segment new) (hs : countFrom .closing false segment = 0) :
    countFrom .closing false new = 0 := by
  rcases h.countFrom_le (fun _ _ => sign_eq_closing_iff) hc with rfl | hle
  · exact hs
  · omega

/-! ## one exchange -/

/-- At every place a fragment text holds as many unescaped `}` as it does alone, and its resolution
no more than it does alone. -/
theorem lowers_exchange {x new : Text} (hx : endsEscaping false x = false)
    (hn : Lowers (bracketed x) new) (u w : Text) :
    Lowers (u ++ bracketed x ++ w) (u ++ new ++ w) := by
  rcases hn with rfl | hn
  · exact Or.inl rfl
  · refine Or.inr ?_
    have hraw := countFrom_closing_bracketed (endsEscaping false u) hx
    have hraw' := countFrom_closing_bracketed false hx
    show countFrom .closing false _ < countFrom .closing false _
    rw [countFrom_append, countFrom_append, countFrom_append _ _ _ w, countFrom_append _ _ u,
      endsEscaping_append, endsEscaping_append, endsEscaping_bracketed, hraw]
    have h1 := countFrom_le (s := .closing) (by decide) (endsEscaping false u) new
    have h2 := countFrom_le (s := .closing) (by decide)
      (endsEscaping (endsEscaping false u) new) w
    change countFrom .closing false new < countFrom .closing false (bracketed x) at hn
    omega

/-! ## a pass -/

theorem Pair.lowers (hc : c.options.NeverShows c.memory '}') {t f new : Text}
    (h : Pair c Lowers t f new) :
    ∃ x, f = bracketed x ∧ endsEscaping false x = false ∧ Lowers f new := by
  cases h with
  | @nested t' hf hn h ih =>
    obtain ⟨_, _, _, x, _, hp, rfl⟩ := exists_of_mem_openTexts hf
    refine ⟨x, rfl, hp.interior.ends, ?_⟩
    rw [interior_bracketed] at ih
    rcases ih with rfl | ih
    · exact Or.inl rfl
    · refine Or.inr ?_
      have h1 := countFrom_bracketed_le (s := .closing) (by decide) false t'
      have h2 := countFrom_closing_bracketed false hp.interior.ends
      change countFrom .closing false t' < countFrom .closing false x at ih
      show countFrom .closing false _ < countFrom .closing false _
      omega
  | leaf hf hn h =>
    obtain ⟨_, _, _, x, _, hp, rfl⟩ := exists_of_mem_openTexts hf
    refine ⟨x, rfl, hp.interior.ends, Or.inr ?_⟩
    rw [interior_bracketed] at h
    have h1 := h.countFrom_closing hc (countFrom_closing_leaf hp.interior hn)
    have h2 := countFrom_closing_bracketed false hp.interior.ends
    show countFrom .closing false _ < countFrom .closing false _
    omega

/-- A pass leaves the text alone or lowers the number of its unescaped `}`. -/
theorem lowers_of_pass (hc : c.options.NeverShows c.memory '}') {t t' : Text}
    (h : (pass c t).outcome = .ok t') : Lowers t t' := by
  refine pass_induction c (motive := Lowers) (fun t solved hs hpairs => ?_) h
  refine Text.replaceAll_preserves (P := Lowers t) (fun p hp => ?_) (fun p hp u w hu => ?_)
    (Or.inl rfl)
  · obtain ⟨x, hx, _⟩ := (hpairs p hp).lowers hc
    rw [hx]
    exact bracketed_ne_nil x
  · obtain ⟨x, hx, he, hl⟩ := (hpairs p hp).lowers hc
    rw [hx] at hu hl
    exact hu.trans (lowers_exchange he hl u w)

end

/-! ## errors of a pass -/

/-- A pass fails only at a placeholder that cannot be shown for the key of an unresolved token. -/
def Unshown (c : Context) (e : PlaceholderError) : Prop :=
  c.options.debug = true ∧ ∃ key, key ≠ [] ∧ (∀ d ∈ key, Text.isKeyChar d = true) ∧
    c.resolve key = [] ∧ Placeholder.fill c.memory c.options.placeholder key = .error e

theorem unshown_of_expand {c : Context} {segment : Text} {e : PlaceholderError}
    (h : (expand c segment).outcome = .error e) : Unshown c e := by
  rw [expand, noteIf_bind] at h
  cases hk : firstToken? segment with
  | none =>
    rw [hk] at h
    cases h
  | some k =>
    have hcut := firstToken?_spec hk
    rw [hk] at h
    by_cases hv : c.resolve k.key = []
    · cases hd : c.options.debug with
      | false => simp [hv, hd, Noted.pure_def] at h
      | true =>
        simp only [hv, hd, ne_eq, not_true_eq_false, if_false, if_true] at h
        rw [noteIf_bind, Noted.outcome_bind_eq_error] at h
        rcases h with h | ⟨_, _, h⟩
        · exact ⟨hd, k.key, hcut.key_ne_nil, hcut.key_chars, hv, h⟩
        · cases h
    · simp [hv, Noted.pure_def] at h

theorem unshown_of_pass {c : Context} {t : Text} {e : PlaceholderError}
    (h : (pass c t).outcome = .error e) : Unshown c e := by
  induction hl : t.length using Nat.strongRecOn generalizing t with
  | ind n ih =>
    rw [pass_eq, Noted.outcome_bind_eq_error] at h
    rcases h with h | ⟨_, _, h⟩
    · obtain ⟨f, hf, h⟩ := Noted.outcome_mapM_eq_error h
      rw [solve_eq] at h
      cases hn : isNested f with
      | true =>
        simp only [hn, if_true, Noted.outcome_bind_eq_error] at h
        rcases h with h | ⟨_, _, h⟩
        · rw [Noted.outcome_map_eq_error] at h
          exact ih _ (hl ▸ length_interior_lt hf) h rfl
        · cases h
      | false =>
        simp only [hn, Bool.false_eq_true, if_false, Noted.outcome_bind_eq_error] at h
        rcases h with h | ⟨_, _, h⟩
        · exact unshown_of_expand h
        · cases h
    · cases h

end Render

/-! ## a run -/

namespace Citation
open Template

section
variable {c : Citation}

theorem next_outcome (c : Citation) (s : Stage) :
    (c.next s).outcome =
      if hasTokenSign s.text = true ∧ c.atCap s.passes = false then
        (Render.pass c.context s.text).outcome.map fun t =>
          if t = s.text then none else some ⟨s.passes + 1, t⟩
      else .ok none := by
  rw [next, nextBy]
  cases hasTokenSign s.text with
  | false => simp [Noted.pure_def]
  | true =>
    cases c.atCap s.passes with
    | true => simp [Noted.tell, Noted.bind_ok, Noted.pure_def]
    | false =>
      simp only [if_true, Bool.false_eq_true, if_false, and_self, Render.noteIf_bind]
      generalize Render.pass c.context s.text = x
      obtain ⟨ns, o⟩ := x
      cases o with
      | error e => rfl
      | ok t =>
        rw [Noted.bind_ok]
        by_cases ht : t = s.text <;>
          simp [ht, Render.noteIf_bind, Noted.tell, Noted.bind_ok, Noted.pure_def, Except.map]

theorem next_outcome_some {s s' : Stage} (h : (c.next s).outcome = .ok (some s')) :
    (Render.pass c.context s.text).outcome = .ok s'.text ∧ s'.text ≠ s.text ∧
      s'.passes = s.passes + 1 := by
  rw [next_outcome] at h
  split at h
  · cases hp : (Render.pass c.context s.text).outcome with
    | error e =>
      rw [hp] at h
      cases h
    | ok t =>
      rw [hp] at h
      simp only [Except.map, Except.ok.injEq] at h
      split at h
      · cases h
      · next hne =>
        rw [← Option.some.inj h]
        exact ⟨rfl, hne, rfl⟩
  · cases h

theorem next_outcome_error {s : Stage} {e : PlaceholderError}
    (h : (c.next s).outcome = .error e) :
    (Render.pass c.context s.text).outcome = .error e := by
  rw [next_outcome] at h
  split at h
  · cases hp : (Render.pass c.context s.text).outcome with
    | error e' =>
      rw [hp] at h
      simp only [Except.map, Except.error.injEq] at h
      rw [h]
    | ok t =>
      rw [hp] at h
      cases h
  · cases h

/-- The stages that a run comes to. -/
inductive Reaches (c : Citation) : Stage → Prop where
  | start : Reaches c c.start
  | next {s s' : Stage} (h : Reaches c s) (hn : (c.next s).outcome = .ok (some s')) : Reaches c s'

/-- Every pass of a run is paid for with an unescaped `}`. -/
theorem Reaches.bound (hc : c.options.NeverShows c.memory '}') {s : Stage} (h : c.Reaches s) :
    s.passes + countOf .closing s.text ≤ countOf .closing c.template := by
  induction h with
  | start => exact Nat.le_of_eq (Nat.zero_add _)
  | next _ hn ih =>
    obtain ⟨hpass, hne, hpasses⟩ := next_outcome_some hn
    have := (Render.lowers_of_pass hc hpass).resolve_left hne
    omega

/-- A run from a stage on ends within as many steps as there are unescaped `}` in its text. -/
theorem textsFrom_ends (hc : c.options.NeverShows c.memory '}') (limit : Nat) (s : Stage)
    (h : countOf .closing s.text < limit) :
    (∃ ts, (c.textsFrom limit s).outcome = .ok ts ∧ ts.length ≤ countOf .closing s.text) ∨
    (∃ e, Render.Unshown c.context e ∧
      (c.textsFrom limit s).outcome = .error (.placeholder e)) := by
  induction limit generalizing s with
  | zero => exact absurd h (Nat.not_lt_zero _)
  | succ limit ih =>
    rw [textsFrom_succ]
    cases hn : (c.next s).outcome with
    | error e =>
      refine Or.inr ⟨e, Render.unshown_of_pass (next_outcome_error hn), ?_⟩
      exact Noted.outcome_bind_eq_error.mpr (Or.inl (Noted.outcome_mapError_of_error hn _))
    | ok o =>
      rw [Noted.outcome_bind_of_ok (Noted.outcome_mapError_eq_ok.mpr hn)]
      cases o with
      | none => exact Or.inl ⟨[], rfl, Nat.zero_le _⟩
      | some s' =>
        obtain ⟨hpass, hne, _⟩ := next_outcome_some hn
        have hlt : countOf .closing s'.text < countOf .closing s.text :=
          (Render.lowers_of_pass hc hpass).resolve_left hne
        rcases ih s' (by omega) with ⟨ts, hts, hle⟩ | ⟨e, he, hts⟩
        · refine Or.inl ⟨s'.text :: ts, ?_, ?_⟩
          · exact Noted.outcome_bind_eq_ok.mpr ⟨ts, hts, rfl⟩
          · rw [List.length_cons]
            omega
        · refine Or.inr ⟨e, he, ?_⟩
          exact Noted.outcome_bind_eq_error.mpr (Or.inl hts)

theorem textsFrom_outcome_ok {limit : Nat} {s : Stage} {ts : List Text} :
    (c.textsFrom (limit + 1) s).outcome = .ok ts ↔
      ((c.next s).outcome = .ok none ∧ ts = []) ∨
      ∃ s' ts', (c.next s).outcome = .ok (some s') ∧ (c.textsFrom limit s').outcome = .ok ts' ∧
        ts = s'.text :: ts' := by
  rw [textsFrom_succ, Noted.outcome_bind_eq_ok]
  constructor
  · rintro ⟨o, ho, h⟩
    cases o with
    | none =>
      exact Or.inl ⟨Noted.outcome_mapError_eq_ok.mp ho, (Noted.outcome_pure_eq_ok.mp h).symm⟩
    | some s' =>
      obtain ⟨ts', hts, h⟩ := Noted.outcome_bind_eq_ok.mp h
      exact Or.inr ⟨s', ts', Noted.outcome_mapError_eq_ok.mp ho, hts,
        (Noted.outcome_pure_eq_ok.mp h).symm⟩
  · rintro (⟨ho, rfl⟩ | ⟨s', ts', ho, hts, rfl⟩)
    · exact ⟨none, Noted.outcome_mapError_eq_ok.mpr ho, rfl⟩
    · exact ⟨some s', Noted.outcome_mapError_eq_ok.mpr ho,
        Noted.outcome_bind_eq_ok.mpr ⟨ts', hts, rfl⟩⟩

theorem textsFrom_mono {limit limit' : Nat} {s : Stage} {ts : List Text} (hl : limit ≤ limit')
    (h : (c.textsFrom limit s).outcome = .ok ts) : (c.textsFrom limit' s).outcome = .ok ts := by
  induction limit generalizing limit' s ts with
  | zero => cases h
  | succ limit ih =>
    obtain ⟨limit', rfl⟩ : ∃ k, limit' = k + 1 := ⟨limit' - 1, by omega⟩
    rw [textsFrom_outcome_ok] at h ⊢
    rcases h with h | ⟨s', ts', hn, hts, rfl⟩
    · exact Or.inl h
    · exact Or.inr ⟨s', ts', hn, ih (by omega) hts, rfl⟩

theorem textsFrom_preserves {P : Text → Prop}
    (hpass : ∀ t t', (Render.pass c.context t).outcome = .ok t' → P t → P t') {limit : Nat}
    {s : Stage} {ts : List Text} (h : (c.textsFrom limit s).outcome = .ok ts) (hs : P s.text) :
    ∀ t ∈ ts, P t := by
  induction limit generalizing s ts with
  | zero => cases h
  | succ limit ih =>
    rcases textsFrom_outcome_ok.mp h with ⟨_, rfl⟩ | ⟨s', ts', hn, hts, rfl⟩
    · exact fun t ht => nomatch ht
    · have hs' := hpass _ _ (next_outcome_some hn).1 hs
      exact List.forall_mem_cons.mpr ⟨hs', ih hts hs'⟩

/-- Without debugging a run has its texts, whatever limit above the count it gets. -/
theorem texts_exist (hd : c.options.debug = false) :
    ∃ ts, ∀ limit, countOf .closing c.template < limit → (c.texts limit).outcome = .ok ts := by
  have hc : c.options.NeverShows c.memory '}' := Options.neverShows_of_silent hd '}'
  rcases textsFrom_ends hc _ c.start (Nat.lt_succ_self _) with ⟨ts, hts, _⟩ | ⟨e, he, _⟩
  · exact ⟨ts, fun limit hl => textsFrom_mono hl hts⟩
  · have h : c.options.debug = true := he.1
    rw [hd] at h
    cases h

theorem build_outcome_ok {limit : Nat} {ts : List Text} (h : (c.texts limit).outcome = .ok ts) :
    (c.build limit).outcome = .ok (c.finish ts) :=
  Noted.outcome_bind_eq_ok.mpr ⟨ts, h, rfl⟩

theorem build_outcome_error {limit : Nat} {e : CitationError}
    (h : (c.texts limit).outcome = .error e) : (c.build limit).outcome = .error e :=
  Noted.outcome_bind_eq_error.mpr (Or.inl h)

/-- What is built is known from the template and the texts. -/
theorem build_outcome_congr {c' : Citation} (ht : c.template = c'.template) {limit : Nat}
    (h : (c.texts limit).outcome = (c'.texts limit).outcome) :
    (c.build limit).outcome = (c'.build limit).outcome := by
  refine Noted.outcome_bind_congr h fun ts _ => ?_
  show Except.ok (c.finish ts) = Except.ok (c'.finish ts)
  rw [finish, finish, ht]

/-- An accepted template has as many unescaped `}` as tokens. -/
theorem closing_eq_tokens (c : Citation) :
    countOf .closing c.template = countTokens false c.template := by
  have h : checkCounts c.template = .ok () := by
    have h := c.accepted
    cases hs : c.options.strict with
    | false => rwa [hs, check_lenient] at h
    | true => exact (check_strict_eq_ok_iff.mp (hs ▸ h)).1
  obtain ⟨h1, h2⟩ := checkCounts_eq_ok_iff.mp h
  rw [← h1, h2]

/-- With no `}` in what is shown for a key, a pass that changes a text leaves fewer unescaped `}`
in it, and never more.  So no run makes more passes than its template has tokens, and every run
ends: with its texts, or at a placeholder that cannot be shown. -/
theorem progress (c : Citation) (hc : c.options.NeverShows c.memory '}') :
    (∀ t t', (Render.pass c.context t).outcome = .ok t' →
      countOf .closing t' ≤ countOf .closing t ∧
      (t' ≠ t → countOf .closing t' < countOf .closing t)) ∧
    countOf .closing c.template = countTokens false c.template ∧
    (∀ s, c.Reaches s → s.passes ≤ countOf .closing c.template) ∧
    ∀ limit, countOf .closing c.template < limit →
      (∃ ts, (c.texts limit).outcome = .ok ts ∧ ts.length ≤ countOf .closing c.template ∧
        (c.build limit).outcome = .ok (c.finish ts)) ∨
      (∃ e, Render.Unshown c.context e ∧
        (c.build limit).outcome = .error (.placeholder e)) := by
  refine ⟨?_, c.closing_eq_tokens, ?_, ?_⟩
  · intro t t' h
    have hl := Render.lowers_of_pass hc h
    exact ⟨hl.le, fun hne => hl.resolve_left hne⟩
  · intro s hs
    have := hs.bound hc
    omega
  · intro limit hl
    rcases textsFrom_ends hc limit c.start hl with ⟨ts, hts, hle⟩ | ⟨e, he, hts⟩
    · exact Or.inl ⟨ts, hts, hle, build_outcome_ok hts⟩
    · exact Or.inr ⟨e, he, build_outcome_error hts⟩

/-- Brackets that the counts alone accept: the first one closes what nothing opened. -/
def interleaved : Citation where
  template := "\x7d\x7b@a\x7d\x7b@b".toList
  data := []
  options := { debug := true }
  accepted := by rfl

/-- The run over `}{@a}{@b` ends within two passes. -/
theorem progress_interleaved : interleaved.options.NeverShows interleaved.memory '}' ∧
    ∃ ts, (interleaved.texts 3).outcome = .ok ts ∧ ts.length ≤ 2 ∧
      (interleaved.build 3).outcome = .ok (interleaved.finish ts) := by
  have hc : interleaved.options.NeverShows interleaved.memory '}' :=
    Options.neverShows_default rfl (by decide) (by decide) (by decide)
  refine ⟨hc, ((progress interleaved hc).2.2.2 3 (by decide)).resolve_right ?_⟩
  rintro ⟨e, ⟨_, key, _, _, _, hf⟩, _⟩
  exact nomatch hf.symm.trans (Placeholder.fill_default key)

end

end Citation
end Citations
