import Citations.Proofs.Escapes

/-!
# What a pass does

* `outcome_bind_eq_ok`, `outcome_mapM_eq_ok`   a result of several steps is one result of each;
* `firstToken?_spec`    how a text is cut at its first token, and `firstToken?_token` the converse;
* `expand_outcome`      what a leaf becomes;
* `Solves c f new`      `new` is what a pass makes of the fragment text `f`;
* `pass_outcome`        a pass solves every fragment text and replaces them one after the other;
* `pass_induction`      what holds of each pass when it holds of the passes over the interiors;
* `pass_exists`         where no leaf fails, no pass does.
-/

namespace Citations

/-! ## results of several steps -/

namespace Noted
variable {ε α β : Type}

theorem outcome_bind_eq_ok {x : Noted ε α} {f : α → Noted ε β} {b : β} :
    (x >>= f).outcome = .ok b ↔ ∃ a, x.outcome = .ok a ∧ (f a).outcome = .ok b := by
  obtain ⟨ns, o⟩ := x
  cases o with
  | error e =>
    rw [bind_error]
    simp
  | ok a =>
    rw [bind_ok]
    simp

theorem outcome_map_eq_ok {x : Noted ε α} {f : α → β} {b : β} :
    (f <$> x).outcome = .ok b ↔ ∃ a, x.outcome = .ok a ∧ f a = b := by
  rw [map_eq_pure_bind, outcome_bind_eq_ok]
  simp [pure_def]

theorem outcome_bind_eq_error {x : Noted ε α} {f : α → Noted ε β} {e : ε} :
    (x >>= f).outcome = .error e ↔
      x.outcome = .error e ∨ ∃ a, x.outcome = .ok a ∧ (f a).outcome = .error e := by
  obtain ⟨ns, o⟩ := x
  cases o with
  | error e' =>
    rw [bind_error]
    simp
  | ok a =>
    rw [bind_ok]
    simp

theorem outcome_map_eq_error {x : Noted ε α} {f : α → β} {e : ε} :
    (f <$> x).outcome = .error e ↔ x.outcome = .error e := by
  rw [map_eq_pure_bind, outcome_bind_eq_error]
  simp [pure_def]

theorem outcome_mapError_eq_ok {δ : Type} {x : Noted ε α} {f : ε → δ} {a : α} :
    (x.mapError f).outcome = .ok a ↔ x.outcome = .ok a := by
  obtain ⟨ns, o⟩ := x
  cases o with
  | error e =>
    constructor
    · intro h
      have h : (Except.error (f e) : Except δ α) = .ok a := h
      cases h
    · intro h
      cases h
  | ok b =>
    constructor
    · intro h
      have h : (Except.ok b : Except δ α) = .ok a := h
      rw [Except.ok.inj h]
    · intro h
      rw [Except.ok.inj h]
      rfl

theorem outcome_mapError_of_error {δ : Type} {x : Noted ε α} {e : ε} (h : x.outcome = .error e)
    (f : ε → δ) : (x.mapError f).outcome = .error (f e) := by
  obtain ⟨ns, o⟩ := x
  cases h
  rfl

theorem outcome_bind_congr {x x' : Noted ε α} {f f' : α → Noted ε β} (h : x.outcome = x'.outcome)
    (hf : ∀ a, x.outcome = .ok a → (f a).outcome = (f' a).outcome) :
    (x >>= f).outcome = (x' >>= f').outcome := by
  obtain ⟨ns, o⟩ := x
  obtain ⟨ns', o'⟩ := x'
  obtain rfl : o = o' := h
  cases o with
  | error e => rfl
  | ok a => exact hf a rfl

theorem outcome_bind_of_ok {x : Noted ε α} {a : α} (h : x.outcome = .ok a) (f : α → Noted ε β) :
    (x >>= f).outcome = (f a).outcome := by
  obtain ⟨ns, o⟩ := x
  cases h
  rfl

theorem outcome_pure_eq_ok {a b : α} : (pure a : Noted ε α).outcome = .ok b ↔ a = b := by
  simp [pure_def]

/-- A result for every member, in order. -/
inductive Results (f : α → Noted ε β) : List α → List β → Prop where
  | nil : Results f [] []
  | cons {a : α} {b : β} {as : List α} {bs : List β} (h : (f a).outcome = .ok b)
      (hs : Results f as bs) : Results f (a :: as) (b :: bs)

theorem outcome_mapM_eq_ok {f : α → Noted ε β} {as : List α} {bs : List β} :
    (as.mapM f).outcome = .ok bs ↔ Results f as bs := by
  induction as generalizing bs with
  | nil =>
    rw [List.mapM_nil, outcome_pure_eq_ok]
    constructor
    · rintro rfl
      exact .nil
    · rintro ⟨⟩
      rfl
  | cons a as ih =>
    rw [List.mapM_cons, outcome_bind_eq_ok]
    constructor
    · rintro ⟨b, hb, h⟩
      obtain ⟨bs', hbs, h'⟩ := outcome_bind_eq_ok.mp h
      rw [← outcome_pure_eq_ok.mp h']
      exact .cons hb (ih.mp hbs)
    · rintro ⟨⟩
      next b bs' hb hbs =>
      exact ⟨b, hb, outcome_bind_eq_ok.mpr ⟨bs', ih.mpr hbs, rfl⟩⟩

theorem outcome_mapM_eq_error {f : α → Noted ε β} {as : List α} {e : ε}
    (h : (as.mapM f).outcome = .error e) : ∃ a ∈ as, (f a).outcome = .error e := by
  induction as with
  | nil =>
    rw [List.mapM_nil] at h
    cases h
  | cons a as ih =>
    rw [List.mapM_cons, outcome_bind_eq_error] at h
    rcases h with h | ⟨b, _, h⟩
    · exact ⟨a, List.mem_cons_self, h⟩
    · rcases outcome_bind_eq_error.mp h with h | ⟨_, _, h⟩
      · obtain ⟨a', ha', h'⟩ := ih h
        exact ⟨a', List.mem_cons_of_mem _ ha', h'⟩
      · cases h

theorem exists_results {f : α → Noted ε β} {as : List α}
    (h : ∀ a ∈ as, ∃ b, (f a).outcome = .ok b) : ∃ bs, Results f as bs := by
  induction as with
  | nil => exact ⟨[], .nil⟩
  | cons a as ih =>
    obtain ⟨b, hb⟩ := h a List.mem_cons_self
    obtain ⟨bs, hbs⟩ := ih fun a' ha' => h a' (List.mem_cons_of_mem _ ha')
    exact ⟨b :: bs, .cons hb hbs⟩

end Noted

/-! ## the first token -/

namespace Template

/-- A text cut at its first token. -/
structure CutAt (esc : Bool) (t : Text) (k : Token) : Prop where
  text : t = k.before ++ '@' :: k.key ++ k.after
  ends : endsEscaping esc k.before = false
  key_ne_nil : k.key ≠ []
  key_chars : ∀ c ∈ k.key, Text.isKeyChar c = true
  after_start : startsKeyOrJoin k.after = false

theorem isKeyChar_of_mem_takeWhile {t : Text} :
    ∀ c ∈ t.takeWhile Text.isKeyChar, Text.isKeyChar c = true :=
  List.all_eq_true.mp List.all_takeWhile

theorem startsKeyOrJoin_dropWhile (t : Text) :
    startsKeyOrJoin (t.dropWhile Text.isKeyChar) = false := by
  induction t with
  | nil => rfl
  | cons c r ih =>
    by_cases h : Text.isKeyChar c = true
    · rw [List.dropWhile_cons_of_pos h]
      exact ih
    · rw [List.dropWhile_cons_of_neg h]
      exact Bool.not_eq_true _ ▸ h

theorem cutAt_of_firstTokenFrom? {esc : Bool} {t : Text} {k : Token}
    (h : firstTokenFrom? esc t = some k) : CutAt esc t k := by
  induction t generalizing esc k with
  | nil => cases h
  | cons c r ih =>
    rw [firstTokenFrom?] at h
    split at h
    · next hs =>
      simp only [Bool.and_eq_true, decide_eq_true_eq] at hs
      obtain ⟨hesc, rfl⟩ := sign_eq_token_iff.mp hs.1
      rw [← Option.some.inj h]
      refine ⟨by simp, hesc, ?_, isKeyChar_of_mem_takeWhile, startsKeyOrJoin_dropWhile r⟩
      cases r with
      | nil => cases hs.2
      | cons d r' =>
        have hd : Text.isKeyChar d = true := hs.2
        simp [List.takeWhile_cons_of_pos hd]
    · obtain ⟨k', hk', rfl⟩ := Option.map_eq_some_iff.mp h
      have := ih hk'
      exact ⟨by rw [this.text]; rfl, this.ends, this.key_ne_nil, this.key_chars, this.after_start⟩

theorem firstToken?_spec {t : Text} {k : Token} (h : firstToken? t = some k) : CutAt false t k :=
  cutAt_of_firstTokenFrom? h

/-- Plain text before a token only moves it. -/
theorem firstTokenFrom?_append {esc : Bool} {a : Text} (h : IsPlain esc a) (r : Text) :
    firstTokenFrom? esc (a ++ r) =
      (firstTokenFrom? (endsEscaping esc a) r).map fun k => { k with before := a ++ k.before } := by
  induction a generalizing esc with
  | nil => exact Option.map_id'.symm
  | cons c a ih =>
    obtain ⟨hc, ha⟩ := isPlain_cons.mp h
    rw [List.cons_append, firstTokenFrom?, hc, ih ha, Option.map_map]
    rfl

/-- The first token of a text with plain text before it. -/
theorem firstToken?_append {b a : Text} (hb : IsPlain false b) (he : endsEscaping false b = false)
    (ha : startsKeyOrJoin a = true) :
    firstToken? (b ++ '@' :: a) =
      some ⟨b, a.takeWhile Text.isKeyChar, a.dropWhile Text.isKeyChar⟩ := by
  rw [firstToken?, firstTokenFrom?_append hb, he, firstTokenFrom?, ha]
  show some (Token.mk (b ++ []) _ _) = _
  rw [List.append_nil]

theorem isKeyChar_head {w : Text} (hw : startsKeyOrJoin w = false) :
    ∀ c ∈ w.head?, Text.isKeyChar c = false := by
  cases w with
  | nil => nofun
  | cons c r =>
    rintro _ ⟨⟩
    exact hw

theorem takeWhile_key_append {key w : Text} (hk : ∀ d ∈ key, Text.isKeyChar d = true)
    (hw : startsKeyOrJoin w = false) : (key ++ w).takeWhile Text.isKeyChar = key :=
  Text.takeWhile_append_of_ends hk (isKeyChar_head hw)

theorem dropWhile_key_append {key w : Text} (hk : ∀ d ∈ key, Text.isKeyChar d = true)
    (hw : startsKeyOrJoin w = false) : (key ++ w).dropWhile Text.isKeyChar = w :=
  Text.dropWhile_append_of_ends hk (isKeyChar_head hw)

/-- Where a key starts, whatever follows it, a key starts. -/
theorem startsKeyOrJoin_key_append {key : Text} (hne : key ≠ [])
    (hk : ∀ d ∈ key, Text.isKeyChar d = true) (w : Text) : startsKeyOrJoin (key ++ w) = true := by
  cases key with
  | nil => exact absurd rfl hne
  | cons d r => exact hk d List.mem_cons_self

/-- A text in three parts is cut at its token, if nothing before the token is a sign and nothing
behind it goes on with the key. -/
theorem firstToken?_token {b key a : Text} (hb : IsPlain false b)
    (he : endsEscaping false b = false) (hne : key ≠ []) (hk : ∀ d ∈ key, Text.isKeyChar d = true)
    (ha : startsKeyOrJoin a = false) : firstToken? (b ++ '@' :: key ++ a) = some ⟨b, key, a⟩ := by
  rw [List.append_assoc, List.cons_append,
    firstToken?_append hb he (startsKeyOrJoin_key_append hne hk a), takeWhile_key_append hk ha,
    dropWhile_key_append hk ha]

theorem isKeyChar_backslash : Text.isKeyChar '\\' = false := by decide

theorem ne_backslash_of_isKeyChar {c : Char} (h : Text.isKeyChar c = true) : c ≠ '\\' := by
  rintro rfl
  rw [isKeyChar_backslash] at h
  cases h

theorem endsEscaping_key {key : Text} (hk : ∀ c ∈ key, Text.isKeyChar c = true) :
    endsEscaping false key = false :=
  endsEscaping_eq_false_of_not_mem fun hm => ne_backslash_of_isKeyChar (hk _ hm) rfl

/-- The token splits the signs of a text. -/
theorem CutAt.signs {esc : Bool} {t : Text} {k : Token} (h : CutAt esc t k) :
    signs esc t = signs esc k.before ++ .token :: (signs false k.key ++ signs false k.after) := by
  rw [h.text, List.append_assoc, signs_append, h.ends, List.cons_append, signs_cons, signs_append]
  have : endsEscaping ('@' == '\\') k.key = false := endsEscaping_key h.key_chars
  rw [this]
  rfl

theorem CutAt.countFrom {esc : Bool} {t : Text} {k : Token} (h : CutAt esc t k) (s : Sign) :
    countFrom s esc t =
      countFrom s esc k.before + ((if s = .token then 1 else 0) +
        (countFrom s false k.key + countFrom s false k.after)) := by
  unfold Template.countFrom
  rw [h.signs, List.count_append, List.count_cons, List.count_append]
  by_cases hs : s = .token
  · rw [if_pos hs, hs]
    simp
    omega
  · rw [if_neg hs, if_neg (by simpa using Ne.symm hs)]
    omega

end Template

namespace Render
open Template

/-! ## what a key stands for -/

/-- A character that no value has is in nothing that a key stands for. -/
theorem not_mem_lookup {d : Char} {data : Entries} (h : ∀ e ∈ data, d ∉ e.2.display)
    (key : Text) : d ∉ lookup data key := by
  rw [lookup]
  cases hv : data.get? key with
  | none => exact List.not_mem_nil
  | some v =>
    obtain ⟨e, he, rfl⟩ := Option.map_eq_some_iff.mp hv
    show d ∉ if e.2.isEmpty then [] else e.2.display
    split
    · exact List.not_mem_nil
    · exact h e (List.mem_of_find?_eq_some he)

theorem not_mem_resolve {d : Char} {c : Context} (hsep : d ∉ c.options.comboSeparator)
    (hv : ∀ key, d ∉ lookup c.data key) (key : Text) : d ∉ c.resolve key := by
  have hjoined : ∀ ps : List Text, (∀ p ∈ ps, d ∉ p) →
      d ∉ Text.joined c.options.comboSeparator ps := by
    intro ps
    induction ps with
    | nil => exact fun _ h => nomatch h
    | cons p ps ih =>
      intro h
      obtain ⟨hp, hps⟩ := List.forall_mem_cons.mp h
      cases ps with
      | nil => exact hp
      | cons p' ps =>
        rw [Text.joined_cons_cons, List.mem_append, List.mem_append]
        rintro ((hm | hm) | hm)
        · exact hp hm
        · exact hsep hm
        · exact ih hps hm
  rw [Context.resolve, resolve]
  split
  · refine hjoined _ fun p hp => ?_
    obtain ⟨m, _, rfl⟩ := List.mem_map.mp (List.mem_filter.mp hp).1
    exact hv m
  · exact hv key

/-! ## a leaf -/

section
variable (c : Context)

/-- What stands in the place of a token, if its fragment stays. -/
inductive Shows (key : Text) : Text → Prop where
  | value (h : c.resolve key ≠ []) : Shows key (escape (c.resolve key))
  | placeholder {shown : Text} (h : c.resolve key = []) (hd : c.options.debug = true)
      (hf : Placeholder.fill c.memory c.options.placeholder key = .ok shown) : Shows key shown

/-- What the interior of a leaf becomes. -/
inductive Expands (segment : Text) : Text → Prop where
  | whole (h : firstToken? segment = none) : Expands segment segment
  | filled {k : Token} {shown : Text} (h : firstToken? segment = some k)
      (hs : Shows c k.key shown) : Expands segment (k.filledWith shown)
  | removed {k : Token} (h : firstToken? segment = some k) (hv : c.resolve k.key = [])
      (hd : c.options.debug = false) : Expands segment []

theorem noteIf_bind {ε α : Type} (n : Note) (x : Unit → Noted ε α) :
    (noteIf c n >>= x).outcome = (x ()).outcome := rfl

section
variable {c} {segment new : Text} {k : Token}

theorem expands_iff_of_none (hk : firstToken? segment = none) :
    Expands c segment new ↔ new = segment := by
  constructor
  · intro h
    cases h with
    | whole => rfl
    | filled h => rw [hk] at h; cases h
    | removed h => rw [hk] at h; cases h
  · rintro rfl
    exact .whole hk

/-- At its token a leaf is filled, or removed where nothing is to be shown. -/
theorem expands_iff_of_some (hk : firstToken? segment = some k) :
    Expands c segment new ↔
      (∃ shown, Shows c k.key shown ∧ new = k.filledWith shown) ∨
      (c.resolve k.key = [] ∧ c.options.debug = false ∧ new = []) := by
  constructor
  · intro h
    cases h with
    | whole h => rw [hk] at h; cases h
    | filled h hs =>
      obtain rfl := Option.some.inj (hk.symm.trans h)
      exact Or.inl ⟨_, hs, rfl⟩
    | removed h hv hd =>
      obtain rfl := Option.some.inj (hk.symm.trans h)
      exact Or.inr ⟨hv, hd, rfl⟩
  · rintro (⟨shown, hs, rfl⟩ | ⟨hv, hd, rfl⟩)
    · exact .filled hk hs
    · exact .removed hk hv hd

theorem shows_iff_of_value {key shown : Text} (hv : c.resolve key ≠ []) :
    Shows c key shown ↔ shown = escape (c.resolve key) := by
  constructor
  · intro h
    cases h with
    | value => rfl
    | placeholder hn => exact absurd hn hv
  · rintro rfl
    exact .value hv

theorem shows_iff_of_gone {key shown : Text} (hv : c.resolve key = []) :
    Shows c key shown ↔
      c.options.debug = true ∧ Placeholder.fill c.memory c.options.placeholder key = .ok shown := by
  constructor
  · intro h
    cases h with
    | value hne => exact absurd hv hne
    | placeholder _ hd hf => exact ⟨hd, hf⟩
  · rintro ⟨hd, hf⟩
    exact .placeholder hv hd hf

end

theorem expand_outcome {segment new : Text} :
    (expand c segment).outcome = .ok new ↔ Expands c segment new := by
  rw [expand, noteIf_bind]
  cases hk : firstToken? segment with
  | none =>
    rw [expands_iff_of_none hk, Noted.outcome_pure_eq_ok]
    exact eq_comm
  | some k =>
    rw [expands_iff_of_some hk]
    by_cases hv : c.resolve k.key = []
    · simp only [shows_iff_of_gone hv]
      cases hd : c.options.debug with
      | false =>
        simp only [hv, ne_eq, not_true_eq_false, if_false, Bool.false_eq_true, false_and,
          exists_false, true_and, false_or, Noted.outcome_pure_eq_ok]
        exact eq_comm
      | true =>
        simp only [hv, ne_eq, not_true_eq_false, if_false, if_true, true_and, false_and,
          Bool.true_eq_false, and_false, or_false]
        rw [noteIf_bind, Noted.outcome_bind_eq_ok]
        refine exists_congr fun shown => and_congr_right fun _ => ?_
        rw [Noted.outcome_pure_eq_ok]
        exact eq_comm
    · simp only [shows_iff_of_value hv, hv, ne_eq, not_false_eq_true, if_true, false_and,
        or_false, exists_eq_left, Noted.outcome_pure_eq_ok]
      exact eq_comm

/-! ## a pass -/

/-- `new` is what a pass makes of the fragment text `f`. -/
inductive Solves (f : Text) : Text → Prop where
  | nested {t : Text} (hn : isNested f = true) (h : (pass c (interior f)).outcome = .ok t) :
      Solves f (bracketed t)
  | leaf {new : Text} (hn : isNested f = false) (h : Expands c (interior f) new) : Solves f new

theorem solve_outcome {f : Text} {p : Text × Text} :
    (solve c f).outcome = .ok p ↔ p.1 = f ∧ Solves c f p.2 := by
  rw [solve_eq]
  cases hn : isNested f with
  | true =>
    simp only [if_true, Noted.outcome_bind_eq_ok, Noted.outcome_map_eq_ok,
      Noted.outcome_pure_eq_ok]
    constructor
    · rintro ⟨_, ⟨t, ht, rfl⟩, rfl⟩
      exact ⟨rfl, .nested hn ht⟩
    · rintro ⟨rfl, h⟩
      refine ⟨p.2, ?_, rfl⟩
      generalize p.2 = new at h
      cases h with
      | nested _ ht => exact ⟨_, ht, rfl⟩
      | leaf hn' => rw [hn] at hn'; cases hn'
  | false =>
    simp only [Bool.false_eq_true, if_false, Noted.outcome_bind_eq_ok, expand_outcome,
      Noted.outcome_pure_eq_ok]
    constructor
    · rintro ⟨new, h, rfl⟩
      exact ⟨rfl, .leaf hn h⟩
    · rintro ⟨rfl, h⟩
      refine ⟨p.2, ?_, rfl⟩
      generalize p.2 = new at h
      cases h with
      | nested hn' => rw [hn] at hn'; cases hn'
      | leaf _ h => exact h

/-- The fragment texts with what becomes of them. -/
structure Solved (fs : List Text) (solved : List (Text × Text)) : Prop where
  texts : solved.map Prod.fst = fs
  solves : ∀ p ∈ solved, Solves c p.1 p.2

theorem results_solve_iff {fs : List Text} {solved : List (Text × Text)} :
    Noted.Results (solve c) fs solved ↔ Solved c fs solved := by
  constructor
  · intro h
    induction h with
    | nil => exact ⟨rfl, fun p hp => nomatch hp⟩
    | cons h _ ih =>
      obtain ⟨h1, h2⟩ := (solve_outcome c).mp h
      refine ⟨by rw [List.map_cons, h1, ih.texts], List.forall_mem_cons.mpr ⟨?_, ih.solves⟩⟩
      rwa [h1]
  · rintro ⟨rfl, h⟩
    induction solved with
    | nil => exact .nil
    | cons p ps ih =>
      obtain ⟨hp, hps⟩ := List.forall_mem_cons.mp h
      exact .cons ((solve_outcome c).mpr ⟨rfl, hp⟩) (ih hps)

theorem pass_outcome {t t' : Text} :
    (pass c t).outcome = .ok t' ↔
      ∃ solved, Solved c (openTexts t) solved ∧ Text.replaceAll solved t = t' := by
  rw [pass_eq, Noted.outcome_bind_eq_ok]
  simp only [Noted.outcome_mapM_eq_ok, results_solve_iff, Noted.outcome_pure_eq_ok]

/-- A pair of a pass: a fragment text with what it becomes, and for a nested one what is known of
the pass over its interior. -/
inductive Pair (motive : Text → Text → Prop) (t : Text) : Text → Text → Prop where
  | nested {f t' : Text} (hf : f ∈ openTexts t) (hn : isNested f = true)
      (h : (pass c (interior f)).outcome = .ok t') (ih : motive (interior f) t') :
      Pair motive t f (bracketed t')
  | leaf {f new : Text} (hf : f ∈ openTexts t) (hn : isNested f = false)
      (h : Expands c (interior f) new) : Pair motive t f new

/-- The induction over passes: a nested fragment is solved by a pass over its shorter interior. -/
theorem pass_induction {motive : Text → Text → Prop}
    (step : ∀ t solved, solved.map Prod.fst = openTexts t →
      (∀ p ∈ solved, Pair c motive t p.1 p.2) → motive t (Text.replaceAll solved t)) :
    ∀ {t t' : Text}, (pass c t).outcome = .ok t' → motive t t' := by
  intro t
  induction h : t.length using Nat.strongRecOn generalizing t with
  | ind n ih =>
    intro t' ht
    obtain ⟨solved, hs, rfl⟩ := (pass_outcome c).mp ht
    refine step t solved hs.texts fun p hp => ?_
    have hf : p.1 ∈ openTexts t := hs.texts ▸ List.mem_map_of_mem hp
    have hlt := length_interior_lt hf
    have := hs.solves p hp
    generalize p.2 = new at this
    cases this with
    | nested hn h' => exact .nested hf hn h' (ih _ (h ▸ hlt) rfl h')
    | leaf hn h' => exact .leaf hf hn h'

/-- Where no leaf fails, no pass does. -/
theorem pass_exists (h : ∀ segment, ∃ new, Expands c segment new) (t : Text) :
    ∃ t', (pass c t).outcome = .ok t' := by
  induction hl : t.length using Nat.strongRecOn generalizing t with
  | ind n ih =>
    have one : ∀ f ∈ openTexts t, ∃ p, (solve c f).outcome = .ok p := by
      intro f hf
      cases hn : isNested f with
      | true =>
        obtain ⟨t', ht'⟩ := ih _ (hl ▸ length_interior_lt hf) (interior f) rfl
        exact ⟨(f, bracketed t'), (solve_outcome c).mpr ⟨rfl, .nested hn ht'⟩⟩
      | false =>
        obtain ⟨new, hnew⟩ := h (interior f)
        exact ⟨(f, new), (solve_outcome c).mpr ⟨rfl, .leaf hn hnew⟩⟩
    obtain ⟨solved, hs⟩ := Noted.exists_results one
    exact ⟨_, (pass_outcome c).mpr ⟨solved, (results_solve_iff c).mp hs, rfl⟩⟩

theorem expands_exists (hd : c.options.debug = false) (segment : Text) :
    ∃ new, Expands c segment new := by
  cases hk : firstToken? segment with
  | none => exact ⟨segment, .whole hk⟩
  | some k =>
    by_cases hv : c.resolve k.key = []
    · exact ⟨[], .removed hk hv hd⟩
    · exact ⟨_, .filled hk (.value hv)⟩

end

end Render
end Citations
