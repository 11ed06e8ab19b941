import Citations.Proofs.Nesting
import Citations.Proofs.Forest

/-!
# When every run ends

In debug mode the options choose what stands for an unresolved token, and a run reads it again.
Filling the placeholder may fail, which the run passes on, and it may bring back a fragment, so
that a run never ends.  It takes all three signs to bring back a fragment: where one of them is
never shown, or the passes are capped, every run ends, and then every citation of the options is
built exactly if the placeholder can be filled for every key.

* `Options.Fills o memory`   the placeholder of `o` can be filled for every key;
* `Options.Ends o memory`    the passes are capped, or one of the signs is never shown;
* `fewer_of_pass`            without `@` a pass takes a token away, or else a bracket;
* `drops_of_pass`            without `{` a pass takes a `{` away;
* `textsFrom_exists`         a run ends whose steps go down in a well-founded order;
* `builds_iff_fills`         the options that build every citation.
-/

namespace Citations

namespace Options

/-- What the options show can be shown for every key. -/
def Fills (o : Options) (memory : Memory) : Prop :=
  o.debug = true → ∀ key, key ≠ [] → (∀ e ∈ key, Text.isKeyChar e = true) →
    ∃ shown, Placeholder.fill memory o.placeholder key = .ok shown

/-- What keeps a run from going on forever: a cap, or a sign that is never shown. -/
def Ends (o : Options) (memory : Memory) : Prop :=
  o.maxPasses ≠ none ∨ o.NeverShows memory '{' ∨ o.NeverShows memory '}' ∨ o.NeverShows memory '@'

end Options

/-! ## both checks -/

namespace Template

/-- One pair of brackets and one token are equal counts. -/
theorem checkCounts_of_one {t : Text} (hn : WellNested t) (ho : countOf .opening t = 1)
    (ht : countTokens false t = 1) : checkCounts t = .ok () := by
  have hcount := nest_count hn
  have hclose : countOf .opening t = countOf .closing t := by
    rw [Nat.zero_add, Nat.zero_add] at hcount
    exact hcount
  exact checkCounts_eq_ok_iff.mpr ⟨hclose, ho.trans ht.symm⟩

theorem check_of_both {t : Text} (hcounts : checkCounts t = .ok ())
    (hnesting : checkNesting t = .ok ()) (strict : Bool) : check strict t = .ok () := by
  cases strict with
  | true => exact check_strict_eq_ok_iff.mpr ⟨hcounts, hnesting⟩
  | false => exact (check_lenient _).trans hcounts

end Template

namespace Render
open Template

/-! ## without a token sign -/

/-- Fewer tokens, or as many and fewer unescaped `}`. -/
def Fewer (t' t : Text) : Prop :=
  Prod.Lex (· < ·) (· < ·) (countOf .token t', countOf .closing t')
    (countOf .token t, countOf .closing t)

theorem fewer_iff {t' t : Text} : Fewer t' t ↔
    countFrom .token false t' < countFrom .token false t ∨
      countFrom .token false t' = countFrom .token false t ∧
        countFrom .closing false t' < countFrom .closing false t :=
  Prod.lex_def

theorem fewer_wf : WellFounded Fewer :=
  InvImage.wf (fun t => (countOf .token t, countOf .closing t))
    (Prod.lex Nat.lt_wfRel Nat.lt_wfRel).wf

theorem Fewer.trans {t t' t'' : Text} (h : Fewer t'' t') (h' : Fewer t' t) : Fewer t'' t := by
  rw [fewer_iff] at h h' ⊢
  omega

theorem fewer_exchange {x new : Text} (hx : endsEscaping false x = false)
    (h : Fewer new (bracketed x)) (u w : Text) :
    Fewer (u ++ new ++ w) (u ++ bracketed x ++ w) := by
  have htoken := countFrom_between_le (s := .token) (by decide) false u new w
  have hclosing := countFrom_between_le (s := .closing) (by decide) false u new w
  have htoken' : countFrom .token false (u ++ bracketed x ++ w) = countFrom .token false u +
      (countFrom .token false (bracketed x) + countFrom .token false w) := by
    rw [List.append_assoc, countFrom_append, countFrom_append, endsEscaping_bracketed,
      countFrom_token_bracketed, countFrom_token_bracketed]
  have hclosing' : countFrom .closing false (u ++ bracketed x ++ w) = countFrom .closing false u +
      (countFrom .closing false (bracketed x) + countFrom .closing false w) := by
    rw [List.append_assoc, countFrom_append, countFrom_append, endsEscaping_bracketed,
      countFrom_closing_bracketed _ hx, countFrom_closing_bracketed _ hx]
  rw [fewer_iff] at h ⊢
  omega

section
variable {c : Context}

/-- What a fragment text becomes has fewer tokens or brackets, or is the same. -/
theorem Pair.fewer (hc : c.options.NeverShows c.memory '@') {t f new : Text}
    (h : Pair c (fun t t' => t' = t ∨ Fewer t' t) t f new) :
    ∃ x, f = bracketed x ∧ endsEscaping false x = false ∧ (new = f ∨ Fewer new f) := by
  cases h with
  | @nested t' hf hn h ih =>
    obtain ⟨_, _, _, x, _, hp, rfl⟩ := exists_of_mem_openTexts hf
    refine ⟨x, rfl, hp.interior.ends, ?_⟩
    rw [interior_bracketed] at ih
    rcases ih with rfl | ih
    · exact Or.inl rfl
    · right
      have h1 := countFrom_bracketed_le (s := .closing) (by decide) false t'
      have h2 := countFrom_closing_bracketed false hp.interior.ends
      rw [fewer_iff] at ih ⊢
      rw [countFrom_token_bracketed, countFrom_token_bracketed]
      omega
  | leaf hf hn h =>
    obtain ⟨_, _, _, x, _, hp, rfl⟩ := exists_of_mem_openTexts hf
    refine ⟨x, rfl, hp.interior.ends, Or.inr ?_⟩
    rw [interior_bracketed] at h
    have h2 := countFrom_closing_bracketed false hp.interior.ends
    rw [fewer_iff, countFrom_token_bracketed]
    rcases h.countFrom_le (fun _ _ => sign_eq_token_iff) hc with rfl | hle
    · right
      omega
    · left
      simp only [if_true] at hle
      omega

/-- A pass leaves the text alone or takes a token away, or else a bracket. -/
theorem fewer_of_pass (hc : c.options.NeverShows c.memory '@') {t t' : Text}
    (h : (pass c t).outcome = .ok t') : t' = t ∨ Fewer t' t := by
  refine pass_induction c (motive := fun t t' => t' = t ∨ Fewer t' t)
    (fun t solved _ hpairs => ?_) h
  refine Text.replaceAll_preserves (P := fun t' => t' = t ∨ Fewer t' t) (fun p hp => ?_)
    (fun p hp u w hu => ?_) (Or.inl rfl)
  · obtain ⟨x, hx, _⟩ := (hpairs p hp).fewer hc
    rw [hx]
    exact bracketed_ne_nil x
  · obtain ⟨x, hx, he, hnew⟩ := (hpairs p hp).fewer hc
    rcases hnew with hnew | hnew
    · rwa [hnew]
    · rw [hx] at hu hnew
      have hfewer := fewer_exchange he hnew u w
      rcases hu with hu | hu
      · exact Or.inr (hu ▸ hfewer)
      · exact Or.inr (hfewer.trans hu)

/-! ## without an opening bracket -/

/-- A fragment text with what it becomes: the same, or no more unescaped `{` than stand within its
brackets. -/
def Unopened (p : Text × Text) : Prop :=
  ∃ x, p.1 = bracketed x ∧ IsInterior x ∧
    (p.2 = p.1 ∨ countFrom .opening false p.2 ≤ countFrom .opening false x)

theorem replace_self_eq {f : Text} (hf : f ≠ []) (t : Text) : Text.replace f f t = t :=
  (Text.rewrites_replace hf t).preserves (P := fun t' => t' = t) (fun _ _ h => h) rfl

/-- Wherever the fragment text is met, no `{` is added. -/
theorem countFrom_replace_le {p : Text × Text} (hp : Unopened p) (t : Text) :
    countFrom .opening false (Text.replace p.1 p.2 t) ≤ countFrom .opening false t := by
  obtain ⟨x, hx, hint, hnew⟩ := hp
  have hne : p.1 ≠ [] := hx ▸ bracketed_ne_nil x
  rcases hnew with hnew | hnew
  · refine Nat.le_of_eq ?_
    rw [hnew, replace_self_eq hne]
  · refine (Text.rewrites_replace hne t).preserves
      (P := fun t' => countFrom .opening false t' ≤ countFrom .opening false t)
      (fun u w h => ?_) (Nat.le_refl _)
    have hnew' := countFrom_between_le (s := .opening) (by decide) false u p.2 w
    have hold : countFrom .opening false u + (countFrom .opening false x +
        countFrom .opening false w) ≤ countFrom .opening false (u ++ p.1 ++ w) := by
      rw [hx, List.append_assoc, countFrom_append, countFrom_append, endsEscaping_bracketed,
        countFrom_opening_bracketed _ hint.ends]
      omega
    omega

/-- At the place where the fragment was found a `{` goes. -/
theorem countFrom_replace_lt {p : Text × Text} (hp : Unopened p) (hne : p.2 ≠ p.1) {t : Text}
    (h : p.1 ∈ openTexts t) :
    countFrom .opening false (Text.replace p.1 p.2 t) < countFrom .opening false t := by
  have hreplace := countFrom_replace_le hp
  obtain ⟨x, hx, hint, hnew⟩ := hp
  have hnew := hnew.resolve_left hne
  rw [hx] at h
  obtain ⟨_, s, u, y, w, hspan, hy⟩ := exists_of_mem_openTexts h
  obtain rfl := bracketed_injective hy
  have hsplit : Text.replace p.1 p.2 t =
      Text.replace p.1 p.2 u ++ p.2 ++ Text.replace p.1 p.2 w := by
    rw [hspan.text, hx]
    exact Text.replace_append_of_unbordered (bracketed_ne_nil x) (unbordered_bracketed hint) u w
  have hle := countFrom_between_le (s := .opening) (by decide) false (Text.replace p.1 p.2 u) p.2
    (Text.replace p.1 p.2 w)
  have ht : countFrom .opening false t = countFrom .opening false u +
      (1 + countFrom .opening false x + countFrom .opening false w) := by
    rw [hspan.text, List.append_assoc, countFrom_append, countFrom_append, hspan.ends,
      endsEscaping_bracketed, countFrom_opening_bracketed _ hint.ends]
    rfl
  have hu := hreplace u
  have hw := hreplace w
  rw [hsplit, ht]
  omega

theorem countFrom_replaceAll_le {ps : List (Text × Text)} (hps : ∀ p ∈ ps, Unopened p) (t : Text) :
    countFrom .opening false (Text.replaceAll ps t) ≤ countFrom .opening false t := by
  induction ps generalizing t with
  | nil => exact Nat.le_refl _
  | cons p ps ih =>
    obtain ⟨hp, hps⟩ := List.forall_mem_cons.mp hps
    rw [Text.replaceAll_cons]
    exact Nat.le_trans (ih hps _) (countFrom_replace_le hp t)

/-- Either no fragment text becomes another one, or the first that does is still met where it was
found. -/
theorem drops_replaceAll {ps : List (Text × Text)} {t : Text}
    (hps : ∀ p ∈ ps, Unopened p ∧ p.1 ∈ openTexts t) :
    (∀ p ∈ ps, p.2 = p.1) ∧ Text.replaceAll ps t = t ∨
      (∃ p ∈ ps, p.2 ≠ p.1) ∧
        countFrom .opening false (Text.replaceAll ps t) < countFrom .opening false t := by
  induction ps with
  | nil => exact Or.inl ⟨fun _ h => (nomatch h), rfl⟩
  | cons p ps ih =>
    obtain ⟨⟨hp, hmem⟩, hps⟩ := List.forall_mem_cons.mp hps
    rw [Text.replaceAll_cons]
    by_cases hne : p.2 = p.1
    · have hne' : p.1 ≠ [] := by
        obtain ⟨x, hx, _⟩ := hp
        exact hx ▸ bracketed_ne_nil x
      rw [hne, replace_self_eq hne']
      rcases ih hps with ⟨hall, heq⟩ | ⟨⟨q, hq, hchanged⟩, hlt⟩
      · exact Or.inl ⟨List.forall_mem_cons.mpr ⟨hne, hall⟩, heq⟩
      · exact Or.inr ⟨⟨q, List.mem_cons_of_mem _ hq, hchanged⟩, hlt⟩
    · right
      refine ⟨⟨p, List.mem_cons_self, hne⟩, ?_⟩
      exact Nat.lt_of_le_of_lt (countFrom_replaceAll_le (fun q hq => (hps q hq).1) _)
        (countFrom_replace_lt hp hne hmem)

theorem Pair.mem_openTexts {motive : Text → Text → Prop} {t f new : Text}
    (h : Pair c motive t f new) : f ∈ openTexts t := by
  cases h with
  | nested hf => exact hf
  | leaf hf => exact hf

/-- What a fragment text becomes has no more unescaped `{`, if the placeholder shows none. -/
theorem Pair.unopened (hc : c.options.NeverShows c.memory '{') {t f new : Text}
    (h : Pair c (fun t t' => t' = t ∨ countOf .opening t' < countOf .opening t) t f new) :
    Unopened (f, new) := by
  cases h with
  | @nested t' hf hn h ih =>
    obtain ⟨_, _, _, x, _, hspan, rfl⟩ := exists_of_mem_openTexts hf
    refine ⟨x, rfl, hspan.interior, ?_⟩
    rw [interior_bracketed] at ih
    rcases ih with rfl | ih
    · exact Or.inl rfl
    · have hle := countFrom_bracketed_le (s := .opening) (by decide) false t'
      have hlt : countFrom .opening false t' < countFrom .opening false x := ih
      exact Or.inr (Nat.le_trans hle hlt)
  | leaf hf hn h =>
    obtain ⟨_, _, _, x, _, hspan, rfl⟩ := exists_of_mem_openTexts hf
    refine ⟨x, rfl, hspan.interior, Or.inr ?_⟩
    rw [interior_bracketed] at h
    rcases h.countFrom_le (fun _ _ => sign_eq_opening_iff) hc with rfl | hle
    · exact Nat.le_refl _
    · exact Nat.le_trans (Nat.le_add_right _ _) hle

/-- A pass leaves the text alone or takes an unescaped `{` away. -/
theorem drops_of_pass (hc : c.options.NeverShows c.memory '{') {t t' : Text}
    (h : (pass c t).outcome = .ok t') : t' = t ∨ countOf .opening t' < countOf .opening t := by
  refine pass_induction c
    (motive := fun t t' => t' = t ∨ countOf .opening t' < countOf .opening t)
    (fun t solved _ hpairs => ?_) h
  have hdrops := drops_replaceAll fun p hp =>
    ⟨(hpairs p hp).unopened hc, (hpairs p hp).mem_openTexts⟩
  exact hdrops.imp And.right And.right

theorem resolve_of_no_data (separator key : Text) : resolve [] separator key = [] := by
  have hnone : memberTexts [] key = [] := by
    refine List.filter_eq_nil_iff.mpr fun t ht => ?_
    obtain ⟨m, _, rfl⟩ := List.mem_map.mp ht
    rw [lookup_nil]
    decide
  unfold resolve
  rw [hnone, lookup_nil, Text.joined_nil]
  exact ite_self _

/-- A leaf becomes something, if the placeholder can be filled. -/
theorem expands_exists_of_fills (hf : c.options.Fills c.memory) (segment : Text) :
    ∃ new, Expands c segment new := by
  cases hk : firstToken? segment with
  | none => exact ⟨segment, .whole hk⟩
  | some k =>
    by_cases hv : c.resolve k.key = []
    · cases hd : c.options.debug with
      | false => exact ⟨[], .removed hk hv hd⟩
      | true =>
        have hcut := firstToken?_spec hk
        obtain ⟨shown, hshown⟩ := hf hd k.key hcut.key_ne_nil hcut.key_chars
        exact ⟨_, .filled hk (.placeholder hv hd hshown)⟩
    · exact ⟨_, .filled hk (.value hv)⟩

end
end Render

/-! ## runs -/

namespace Citation
open Template Render

section
variable {c : Citation}

theorem atCap_of_next {s s' : Stage} (h : (c.next s).outcome = .ok (some s')) :
    c.atCap s.passes = false := by
  rw [next_outcome] at h
  split at h
  · next hgo => exact hgo.2
  · cases h

/-- Where a run cannot go on forever, some well-founded order tells why. -/
theorem exists_order (h : c.options.Ends c.memory) : ∃ r : Stage → Stage → Prop, WellFounded r ∧
    ∀ s s', (c.next s).outcome = .ok (some s') → r s' s := by
  rcases h with hcap | hopen | hclose | htoken
  · obtain ⟨n, hn⟩ := Option.ne_none_iff_exists'.mp hcap
    refine ⟨_, (measure fun s : Stage => n - s.passes).wf, fun s s' hs => ?_⟩
    have hpasses := (next_outcome_some hs).2.2
    have hlt := atCap_of_next hs
    unfold atCap at hlt
    rw [hn] at hlt
    have hlt : ¬ n ≤ s.passes := of_decide_eq_false hlt
    show n - s'.passes < n - s.passes
    omega
  · refine ⟨_, (measure fun s : Stage => countOf .opening s.text).wf, fun s s' hs => ?_⟩
    obtain ⟨hpass, hne, _⟩ := next_outcome_some hs
    exact (drops_of_pass (c := c.context) hopen hpass).resolve_left hne
  · refine ⟨_, (measure fun s : Stage => countOf .closing s.text).wf, fun s s' hs => ?_⟩
    obtain ⟨hpass, hne, _⟩ := next_outcome_some hs
    exact (lowers_of_pass (c := c.context) hclose hpass).resolve_left hne
  · refine ⟨_, InvImage.wf Stage.text fewer_wf, fun s s' hs => ?_⟩
    obtain ⟨hpass, hne, _⟩ := next_outcome_some hs
    exact (fewer_of_pass (c := c.context) htoken hpass).resolve_left hne

theorem next_exists (hf : c.options.Fills c.memory) (s : Stage) : ∃ o, (c.next s).outcome = .ok o := by
  obtain ⟨t, ht⟩ := pass_exists (c := c.context) (expands_exists_of_fills hf) s.text
  rw [next_outcome, ht]
  split
  · exact ⟨_, rfl⟩
  · exact ⟨none, rfl⟩

/-- A run ends with its texts, if no step fails and the steps go down in a well-founded order. -/
theorem textsFrom_exists {r : Stage → Stage → Prop} (hr : WellFounded r)
    (hdown : ∀ s s', (c.next s).outcome = .ok (some s') → r s' s)
    (hok : ∀ s, ∃ o, (c.next s).outcome = .ok o) (s : Stage) :
    ∃ ts n, ∀ limit, n < limit → (c.textsFrom limit s).outcome = .ok ts := by
  induction s using hr.induction with
  | h s ih =>
    obtain ⟨o, ho⟩ := hok s
    cases o with
    | none =>
      refine ⟨[], 0, fun limit hl => ?_⟩
      obtain ⟨limit, rfl⟩ := Nat.exists_eq_succ_of_ne_zero (Nat.ne_of_gt hl)
      exact textsFrom_outcome_ok.mpr (Or.inl ⟨ho, rfl⟩)
    | some s' =>
      obtain ⟨ts, n, hts⟩ := ih s' (hdown s s' ho)
      refine ⟨s'.text :: ts, n + 1, fun limit hl => ?_⟩
      obtain ⟨limit, rfl⟩ := Nat.exists_eq_succ_of_ne_zero (Nat.ne_of_gt (Nat.zero_lt_of_lt hl))
      exact textsFrom_outcome_ok.mpr (Or.inr ⟨s', ts, ho, hts limit (Nat.lt_of_succ_lt_succ hl), rfl⟩)

/-- No cap forbids the first pass. -/
theorem atCap_zero (c : Citation) : c.atCap 0 = false := by
  unfold atCap
  cases hm : c.options.maxPasses with
  | none => rfl
  | some n => exact decide_eq_false (Nat.not_le_of_lt (c.options.maxPasses_pos n hm))

/-- The first pass of a run that has its texts. -/
theorem pass_of_texts (ht : hasTokenSign c.template = true) {limit : Nat} {ts : List Text}
    (h : (c.texts limit).outcome = .ok ts) :
    ∃ t, (pass c.context c.template).outcome = .ok t := by
  cases limit with
  | zero => cases h
  | succ limit =>
    have hnext : ∃ o, (c.next c.start).outcome = .ok o := by
      rcases textsFrom_outcome_ok.mp h with ⟨hn, _⟩ | ⟨s', _, hn, _⟩
      · exact ⟨_, hn⟩
      · exact ⟨_, hn⟩
    obtain ⟨o, ho⟩ := hnext
    rw [next_outcome, if_pos ⟨ht, c.atCap_zero⟩] at ho
    cases hp : (pass c.context c.start.text).outcome with
    | error e =>
      rw [hp] at ho
      cases ho
    | ok t => exact ⟨t, hp⟩

end

/-! ## the placeholder of each key -/

/-- A token for the fragment of a key that does not start one, because a `+` comes first. -/
def spare (key : Text) : Text := if startsKey key then [] else " @a".toList

/-- A template that asks for a key. -/
def probe (key : Text) : Text := bracketed ('@' :: key ++ spare key)

section
variable {key : Text}

theorem startsKey_append_of_ne_nil (h : key ≠ []) (w : Text) :
    startsKey (key ++ w) = startsKey key := by
  cases key with
  | nil => exact absurd rfl h
  | cons c r => rfl

theorem probe_eq (key : Text) : probe key = '{' :: '@' :: (key ++ (spare key ++ ['}'])) := by
  simp [probe, bracketed]

theorem isInterior_spare (key : Text) : IsInterior (spare key) := by
  unfold spare
  split
  · exact ⟨by rfl, by rfl⟩
  · exact ⟨by rfl, by rfl⟩

theorem countFrom_opening_spare (key : Text) : countFrom .opening false (spare key) = 0 := by
  unfold spare
  split <;> rfl

theorem startsKeyOrJoin_spare (key : Text) : startsKeyOrJoin (spare key) = false := by
  unfold spare
  split <;> rfl

theorem isInterior_probe (hk : ∀ d ∈ key, Text.isKeyChar d = true) :
    IsInterior ('@' :: key ++ spare key) :=
  (isInterior_token hk).append (isInterior_spare key)

theorem countFrom_opening_probe (hk : ∀ d ∈ key, Text.isKeyChar d = true) :
    countFrom .opening false ('@' :: key ++ spare key) = 0 := by
  have hends : endsEscaping ('@' == '\\') key = false := endsEscaping_key hk
  have hplain := (isPlain_key hk ('@' == '\\')).countFrom (s := .opening) (by decide)
  rw [countFrom_append, countFrom_cons, hplain, endsEscaping_cons, hends, countFrom_opening_spare]
  rfl

theorem checkNesting_probe (hne : key ≠ []) (hk : ∀ d ∈ key, Text.isKeyChar d = true) :
    checkNesting (probe key) = .ok () := by
  have hends : endsEscaping ('@' == '\\') key = false := endsEscaping_key hk
  have hstart := startsKey_append_of_ne_nil hne (spare key ++ ['}'])
  rw [probe_eq]
  refine checkNestingFrom_cons_iff.mpr ⟨_, .opening, ?_⟩
  by_cases hs : startsKey key = true
  · have hsp : spare key = [] := if_pos hs
    rw [hs] at hstart
    refine checkNestingFrom_cons_iff.mpr ⟨_, .token hstart, ?_⟩
    refine checkNestingFrom_append (isPlain_key hk _) ?_
    rw [hends, hsp]
    rfl
  · have hsp : spare key = " @a".toList := if_neg hs
    rw [Bool.eq_false_iff.mpr hs] at hstart
    refine checkNestingFrom_cons_iff.mpr ⟨_, .bare hstart, ?_⟩
    refine checkNestingFrom_append (isPlain_key hk _) ?_
    rw [hends, hsp]
    rfl

theorem checkCounts_probe (hne : key ≠ []) (hk : ∀ d ∈ key, Text.isKeyChar d = true) :
    checkCounts (probe key) = .ok () := by
  have hends : endsEscaping ('@' == '\\') key = false := endsEscaping_key hk
  have hinner := isInterior_probe hk
  refine checkCounts_of_one (nest_bracketed hinner 0) ?_ ?_
  · show countFrom .opening false (probe key) = 1
    unfold probe
    rw [countFrom_opening_bracketed _ hinner.ends, countFrom_opening_probe hk]
    rfl
  · have hstart := startsKey_append_of_ne_nil hne (spare key ++ ['}'])
    rw [probe_eq, countTokens_cons, countTokens_cons, countTokens_append (isPlain_key hk _), hends,
      hstart]
    by_cases hs : startsKey key = true
    · have hsp : spare key = [] := if_pos hs
      rw [hs, hsp]
      rfl
    · have hsp : spare key = " @a".toList := if_neg hs
      rw [Bool.eq_false_iff.mpr hs, hsp]
      rfl

theorem check_probe (hne : key ≠ []) (hk : ∀ d ∈ key, Text.isKeyChar d = true) (strict : Bool) :
    check strict (probe key) = .ok () :=
  check_of_both (checkCounts_probe hne hk) (checkNesting_probe hne hk) strict

theorem hasTokenSign_probe (key : Text) : hasTokenSign (probe key) = true := by
  rw [hasTokenSign_iff, probe_eq]
  exact List.mem_cons_of_mem _ List.mem_cons_self

/-- The only fragment text of the template is the template. -/
theorem openTexts_probe (hk : ∀ d ∈ key, Text.isKeyChar d = true) :
    openTexts (probe key) = [probe key] :=
  openTexts_of_nodup (fragmentTexts_bracketed (isInterior_probe hk))
    (List.forall_mem_singleton.mpr (by simp [probe, bracketed])) (by simp)

/-- Without data a pass over the template of a key shows the placeholder of that key. -/
theorem fill_of_pass {o : Options} {memory : Memory} (hd : o.debug = true) (hne : key ≠ [])
    (hk : ∀ d ∈ key, Text.isKeyChar d = true) {t : Text}
    (h : (pass ⟨[], o, memory⟩ (probe key)).outcome = .ok t) :
    ∃ shown, Placeholder.fill memory o.placeholder key = .ok shown := by
  have hgone : Context.resolve ⟨[], o, memory⟩ key = [] := resolve_of_no_data _ key
  have hfirst : firstToken? ('@' :: key ++ spare key) = some ⟨[], key, spare key⟩ :=
    firstToken?_token (isPlain_nil false) rfl hne hk (startsKeyOrJoin_spare key)
  have hleaf : isNested (probe key) = false :=
    isNested_bracketed_eq_false (isInterior_probe hk).ends (countFrom_opening_probe hk)
  obtain ⟨solved, hsolved, _⟩ := (pass_outcome _).mp h
  have hmem : probe key ∈ solved.map Prod.fst := by
    rw [hsolved.texts, openTexts_probe hk]
    exact List.mem_singleton_self _
  obtain ⟨p, hp, hpk⟩ := List.mem_map.mp hmem
  have hsolves := hsolved.solves p hp
  rw [hpk] at hsolves
  generalize p.2 = new at hsolves
  cases hsolves with
  | nested hn =>
    rw [hleaf] at hn
    cases hn
  | leaf _ hexp =>
    rw [probe, interior_bracketed] at hexp
    rcases (expands_iff_of_some hfirst).mp hexp with ⟨shown, hshows, _⟩ | ⟨_, hoff, _⟩
    · exact ⟨shown, ((shows_iff_of_gone hgone).mp hshows).2⟩
    · rw [hd] at hoff
      cases hoff

end

/-- With options under which every run ends, all citations are built exactly if the placeholder
can be filled for every key. -/
theorem builds_iff_fills {o : Options} {memory : Memory} (h : o.Ends memory) :
    o.Fills memory ↔ ∀ c : Citation, c.options = o → c.memory = memory →
      ∃ ts n, ∀ limit, n < limit →
        (c.texts limit).outcome = .ok ts ∧ (c.build limit).outcome = .ok (c.finish ts) := by
  constructor
  · rintro hf c rfl rfl
    obtain ⟨r, hr, hdown⟩ := exists_order h
    obtain ⟨ts, n, hts⟩ := textsFrom_exists hr hdown (next_exists hf) c.start
    exact ⟨ts, n, fun limit hl => ⟨hts limit hl, build_outcome_ok (hts limit hl)⟩⟩
  · intro hall hd key hne hk
    obtain ⟨ts, n, hts⟩ := hall ⟨probe key, [], o, memory, check_probe hne hk o.strict⟩ rfl rfl
    obtain ⟨t, ht⟩ := pass_of_texts (hasTokenSign_probe key) (hts (n + 1) (Nat.lt_succ_self n)).1
    exact fill_of_pass hd hne hk ht

/-- The case of debugging with the default placeholder, which shows no bracket. -/
theorem builds_default : (∀ memory, ({ debug := true } : Options).Ends memory) ∧
    ∀ c : Citation, c.options = { debug := true } → ∃ ts n, ∀ limit, n < limit →
      (c.texts limit).outcome = .ok ts ∧ (c.build limit).outcome = .ok (c.finish ts) := by
  have hends : ∀ memory, ({ debug := true } : Options).Ends memory := fun _ =>
    Or.inr (Or.inl (Options.neverShows_default rfl (by decide) (by decide) (by decide)))
  refine ⟨hends, fun c hc => (builds_iff_fills (hends c.memory)).mp ?_ c hc rfl⟩
  exact fun _ key _ _ => ⟨_, Placeholder.fill_default key⟩

/-! ## placeholders that fail -/

/-- A placeholder that asks for a name other than `key`. -/
def misnamed : Citation where
  template := "\x7b@a\x7d".toList
  data := []
  options := { debug := true, placeholder := "\x7bname\x7d".toList }
  accepted := by rfl

theorem fill_misnamed (key : Text) :
    Placeholder.fill .blank "\x7bname\x7d".toList key =
      .error (.unknownName "name".toList) := by
  have hl : Placeholder.literal "\x7bname\x7d".toList = .ok ([], some "name\x7d".toList) := by rfl
  have hf : Placeholder.field "name\x7d".toList = .ok (⟨"name".toList, none, []⟩, []) := by rfl
  exact Placeholder.fill_unknown key hl hf (by rfl)

/-- A placeholder that puts an `x` before the fragment that it stands for. -/
def regrowing : Citation where
  template := "\x7b@a\x7d".toList
  data := []
  options := { debug := true, placeholder := "x\x7b\x7b@\x7bkey\x7d\x7d\x7d".toList }
  accepted := by rfl

/-- The text of its run after `n` passes. -/
def grown (n : Nat) : Text := List.replicate n 'x' ++ "\x7b@a\x7d".toList

theorem isInterior_replicate (n : Nat) : IsInterior (List.replicate n 'x') := by
  have hmem : ∀ c ∈ List.replicate n 'x', c = 'x' := fun c hc => List.eq_of_mem_replicate hc
  refine ⟨(isPlain_of_unsigned (fun c hc => ?_) false).nest 0,
    endsEscaping_eq_false_of_not_mem fun hm => ?_⟩
  · rw [hmem c hc]
    decide
  · exact absurd (hmem _ hm) (by decide)

theorem not_mem_replicate (n : Nat) : '{' ∉ List.replicate n 'x' := fun hm =>
  absurd (List.eq_of_mem_replicate hm) (by decide)

theorem openTexts_grown (n : Nat) : openTexts (grown n) = ["\x7b@a\x7d".toList] := by
  refine openTexts_of_nodup ?_ (List.forall_mem_singleton.mpr (by decide)) (by simp)
  have hempty : fragmentTexts (List.replicate n 'x') = [] :=
    fragmentTexts_of_no_opening
      (countFrom_of_not_mem (fun _ _ => sign_eq_opening_iff) (not_mem_replicate n) false)
  rw [grown, fragmentTexts_append (isInterior_replicate n), hempty]
  rfl

theorem solves_regrowing : Solves regrowing.context "\x7b@a\x7d".toList "x\x7b@a\x7d".toList := by
  have hl : Placeholder.literal "x\x7b\x7b@\x7bkey\x7d\x7d\x7d".toList =
      .ok ("x\x7b@".toList, some ("key\x7d".toList ++ "\x7d\x7d".toList)) := by rfl
  have he : Placeholder.literal "\x7d\x7d".toList = .ok (['}'], none) := by rfl
  have hfill : Placeholder.fill regrowing.memory regrowing.options.placeholder ['a'] =
      .ok "x\x7b@a\x7d".toList :=
    Placeholder.fill_key ['a'] hl he
  have hk : firstToken? (interior "\x7b@a\x7d".toList) = some ⟨[], ['a'], []⟩ := by rfl
  have hgone : regrowing.context.resolve ['a'] = [] := resolve_of_no_data _ _
  exact .leaf (by rfl) (.filled hk (.placeholder hgone rfl hfill))

theorem replace_grown (n : Nat) :
    Text.replace "\x7b@a\x7d".toList "x\x7b@a\x7d".toList (grown n) = grown (n + 1) := by
  have hself : Text.replace "\x7b@a\x7d".toList "x\x7b@a\x7d".toList "\x7b@a\x7d".toList =
      "x\x7b@a\x7d".toList := by rfl
  have hsplit : Text.replace "\x7b@a\x7d".toList "x\x7b@a\x7d".toList (grown n) =
      List.replicate n 'x' ++
        Text.replace "\x7b@a\x7d".toList "x\x7b@a\x7d".toList "\x7b@a\x7d".toList :=
    Text.replace_append_of_not_mem (not_mem_replicate n) _
  rw [hsplit, hself, grown, List.replicate_succ']
  simp

theorem pass_grown (n : Nat) :
    (pass regrowing.context (grown n)).outcome = .ok (grown (n + 1)) := by
  refine (pass_outcome _).mpr ⟨[("\x7b@a\x7d".toList, "x\x7b@a\x7d".toList)], ?_, ?_⟩
  · exact ⟨(openTexts_grown n).symm, List.forall_mem_singleton.mpr solves_regrowing⟩
  · rw [Text.replaceAll_cons, Text.replaceAll_nil, replace_grown]

theorem textsFrom_grown (limit k n : Nat) :
    (regrowing.textsFrom limit ⟨k, grown n⟩).outcome = .error .endless := by
  induction limit generalizing k n with
  | zero => rfl
  | succ limit ih =>
    have htoken : hasTokenSign (grown n) = true := by
      rw [hasTokenSign_iff, grown, signs_append, (isInterior_replicate n).ends]
      exact List.mem_append_right _ (by decide)
    have hne : grown (n + 1) ≠ grown n := by
      intro h
      have := congrArg List.length h
      simp [grown] at this
    have hnext : (regrowing.next ⟨k, grown n⟩).outcome = .ok (some ⟨k + 1, grown (n + 1)⟩) := by
      rw [next_outcome, if_pos ⟨htoken, rfl⟩, pass_grown]
      show Except.ok (if grown (n + 1) = grown n then none else some _) = _
      rw [if_neg hne]
    rw [textsFrom_succ, Noted.outcome_bind_of_ok (Noted.outcome_mapError_eq_ok.mpr hnext)]
    exact Noted.outcome_bind_eq_error.mpr (Or.inl (ih (k + 1) (n + 1)))

/-- In debug mode there are accepted templates and placeholders under which a citation is never
built: one run stops at a placeholder that cannot be filled, and one goes on forever. -/
theorem builds_not_always :
    (∀ limit, 1 < limit →
      (misnamed.build limit).outcome = .error (.placeholder (.unknownName "name".toList))) ∧
    ∀ limit, (regrowing.texts limit).outcome = .error .endless ∧
      (regrowing.build limit).outcome = .error .endless := by
  constructor
  · intro limit hl
    have hcloses : misnamed.options.NeverShows misnamed.memory '}' := fun _ key shown _ _ hf =>
      nomatch hf.symm.trans (fill_misnamed key)
    rcases textsFrom_ends hcloses limit misnamed.start hl with ⟨ts, hts, _⟩ | ⟨e, he, hts⟩
    · obtain ⟨t, ht⟩ := pass_of_texts (by rfl) hts
      have hprobe : (pass ⟨[], misnamed.options, .blank⟩ (probe ['a'])).outcome = .ok t := ht
      have hkey : ∀ d ∈ ['a'], Text.isKeyChar d = true := List.forall_mem_singleton.mpr (by decide)
      obtain ⟨shown, hf⟩ := fill_of_pass rfl (by decide) hkey hprobe
      exact nomatch hf.symm.trans (fill_misnamed ['a'])
    · obtain ⟨_, key, _, _, _, hf⟩ := he
      obtain rfl := Except.error.inj (hf.symm.trans (fill_misnamed key))
      exact build_outcome_error hts
  · intro limit
    have hts := textsFrom_grown limit 0 0
    exact ⟨hts, build_outcome_error hts⟩

end Citation
end Citations
