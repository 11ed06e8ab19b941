import Citations.Proofs.Ending
import Citations.Proofs.Rendering

/-!
# Escaped text stands for itself

Text that has been escaped can be put into a template: around a fragment, and before and behind the
token in it.  The template is accepted, the one pass over it meets the fragment and nothing else,
and what is built shows the text as it was before it was escaped.

* `Verbatim s`            no character of `s` is lost between escaping and showing it;
* `framed a p k q b`      a fragment with the token `k`, in escaped text;
* `check_framed`          it is accepted;
* `pass_framed`           one pass leaves escaped text;
* `Builds o t data s`     the template `t` is accepted, and built as `s`;
* `builds_escape`         escaped text in a template is shown as it was.
-/

namespace Citations

namespace Render
open Escaper Template

/-- A text without the characters that a template drops, and without the one that stands for a
backslash. -/
structure Verbatim (s : Text) : Prop where
  no_return : '\r' ∉ s
  no_newline : '\n' ∉ s
  unparked : parked ∉ s

theorem isInterior_escape (s : Text) : IsInterior (escape s) :=
  ⟨(isPlain_escape s false).nest 0, endsEscaping_escape s⟩

theorem hasTokenSign_escape (s : Text) : hasTokenSign (escape s) = false := by
  rw [Bool.eq_false_iff, ne_eq, hasTokenSign_iff]
  intro h
  cases isPlain_escape s false _ h

/-- A template keeps what has no line end. -/
theorem normalize_of_not_mem {t : Text} (hr : '\r' ∉ t) (hn : '\n' ∉ t) : normalize t = t := by
  refine List.filter_eq_self.mpr fun c hc => ?_
  have hcr : c ≠ '\r' := fun e => hr (e ▸ hc)
  have hcn : c ≠ '\n' := fun e => hn (e ▸ hc)
  simp [hcr, hcn]

theorem normalize_escape {s : Text} (h : Verbatim s) : normalize (escape s) = escape s := by
  refine normalize_of_not_mem (fun hm => h.no_return ?_) fun hm => h.no_newline ?_
  · exact mem_of_mem_escape (by decide) (by decide) hm
  · exact mem_of_mem_escape (by decide) (by decide) hm

theorem countFrom_opening_escape (esc : Bool) (s : Text) :
    countFrom .opening esc (escape s) = 0 :=
  (isPlain_escape s esc).countFrom (by decide)

theorem countTokens_escape (esc : Bool) (s : Text) : countTokens esc (escape s) = 0 := by
  rw [← List.append_nil (escape s), countTokens_append (isPlain_escape s esc)]
  rfl

/-- Escaped text is a template without brackets and tokens. -/
theorem check_escape (s : Text) (strict : Bool) : check strict (escape s) = .ok () := by
  have hcounts : checkCounts (escape s) = .ok () := by
    have hopen : countOf .opening (escape s) = 0 := countFrom_opening_escape false s
    have hclose : countOf .closing (escape s) = 0 := (isPlain_escape s false).countFrom (by decide)
    exact checkCounts_eq_ok_iff.mpr
      ⟨hopen.trans hclose.symm, hopen.trans (countTokens_escape false s).symm⟩
  have hnesting : checkNesting (escape s) = .ok () := by
    rw [← List.append_nil (escape s)]
    exact checkNestingFrom_append (isPlain_escape s _) rfl
  exact check_of_both hcounts hnesting strict

/-! ## a fragment in escaped text -/

/-- What stands between the brackets: a token in escaped text. -/
def framedInner (p k q : Text) : Text := escape p ++ '@' :: k ++ escape q

/-- A fragment with the token `k`, in escaped text. -/
def framed (a p k q b : Text) : Text := escape a ++ bracketed (framedInner p k q) ++ escape b

section
variable {a p k q b : Text}

theorem framed_eq (a p k q b : Text) :
    framed a p k q b = escape a ++ '{' :: (escape p ++ '@' :: k ++ escape q) ++ '}' :: escape b := by
  simp [framed, framedInner, bracketed]

theorem framed_split (a p k q b : Text) : framed a p k q b =
    escape a ++ '{' :: (escape p ++ '@' :: (k ++ (escape q ++ '}' :: escape b))) := by
  simp [framed, framedInner, bracketed]

theorem hasTokenSign_framed (a p k q b : Text) : hasTokenSign (framed a p k q b) = true := by
  have hp : endsEscaping ('{' == '\\') (escape p) = false := endsEscaping_escape p
  rw [hasTokenSign_iff, framed_split, signs_append, endsEscaping_escape, signs_cons, signs_append,
    hp, signs_cons]
  simp [sign]

theorem normalize_framed (ha : Verbatim a) (hp : Verbatim p) (hq : Verbatim q) (hb : Verbatim b)
    (hk : IsKey k) : normalize (framed a p k q b) = framed a p k q b := by
  have hkey : normalize k = k := by
    refine normalize_of_not_mem (fun hm => ?_) fun hm => ?_
    · exact absurd (hk.chars _ hm) (by decide)
    · exact absurd (hk.chars _ hm) (by decide)
  have hone : ∀ d ∈ syntaxChars, normalize [d] = [d] := forall_mem_of_all (by decide)
  have hcons : ∀ d ∈ syntaxChars, ∀ r, normalize (d :: r) = d :: normalize r := by
    intro d hd r
    rw [← List.singleton_append, normalize_append, hone d hd, List.singleton_append]
  rw [framed_split, normalize_append, hcons _ (by decide), normalize_append, hcons _ (by decide),
    normalize_append, normalize_append, hcons _ (by decide), normalize_escape ha,
    normalize_escape hp, hkey, normalize_escape hq, normalize_escape hb]

theorem isInterior_framed (hk : IsKey k) : IsInterior (framedInner p k q) :=
  ((isInterior_escape p).append (isInterior_token hk.chars)).append (isInterior_escape q)

theorem checkNesting_framed (hk : IsKey k) : checkNesting (framed a p k q b) = .ok () := by
  have hends : endsEscaping ('@' == '\\') k = false := endsEscaping_key hk.chars
  have hp : endsEscaping ('{' == '\\') (escape p) = false := endsEscaping_escape p
  -- one step for each sign, and the escaped texts between them are passed over
  rw [framed_split]
  refine checkNestingFrom_append (isPlain_escape a false) ?_
  rw [endsEscaping_escape]
  refine checkNestingFrom_cons_iff.mpr ⟨_, .opening, ?_⟩
  refine checkNestingFrom_append (isPlain_escape p _) ?_
  rw [hp]
  refine checkNestingFrom_cons_iff.mpr ⟨_, .token (startsKey_append hk.starts _), ?_⟩
  refine checkNestingFrom_append (isPlain_key hk.chars _) ?_
  rw [hends]
  refine checkNestingFrom_append (isPlain_escape q false) ?_
  rw [endsEscaping_escape]
  refine checkNestingFrom_cons_iff.mpr ⟨_, .closing rfl, ?_⟩
  rw [← List.append_nil (escape b)]
  exact checkNestingFrom_append (isPlain_escape b _) rfl

theorem countFrom_opening_framedInner (hk : IsKey k) :
    countFrom .opening false (framedInner p k q) = 0 := by
  have hplain := (isPlain_key hk.chars ('@' == '\\')).countFrom (s := .opening) (by decide)
  unfold framedInner
  rw [countFrom_append, countFrom_append, countFrom_opening_escape, countFrom_opening_escape,
    endsEscaping_escape, countFrom_cons, hplain]
  rfl

theorem checkCounts_framed (hk : IsKey k) : checkCounts (framed a p k q b) = .ok () := by
  have hint : IsInterior (framedInner p k q) := isInterior_framed hk
  have hwhole := ((isInterior_escape a).append (isInterior_bracketed hint)).append
    (isInterior_escape b)
  refine checkCounts_of_one hwhole.wellNested ?_ ?_
  · show countFrom .opening false (framed a p k q b) = 1
    unfold framed
    rw [countFrom_append, countFrom_append, countFrom_opening_escape, countFrom_opening_escape,
      endsEscaping_escape, countFrom_opening_bracketed _ hint.ends,
      countFrom_opening_framedInner hk]
    rfl
  · have hends : endsEscaping ('@' == '\\') k = false := endsEscaping_key hk.chars
    have hp : endsEscaping ('{' == '\\') (escape p) = false := endsEscaping_escape p
    rw [framed_split, countTokens_append (isPlain_escape a _), endsEscaping_escape,
      countTokens_cons, countTokens_append (isPlain_escape p _), hp, countTokens_cons,
      startsKey_append hk.starts, countTokens_append (isPlain_key hk.chars _), hends,
      countTokens_append (isPlain_escape q _), endsEscaping_escape, countTokens_cons,
      countTokens_escape]
    rfl

theorem check_framed (hk : IsKey k) (strict : Bool) : check strict (framed a p k q b) = .ok () :=
  check_of_both (checkCounts_framed hk) (checkNesting_framed hk) strict

/-! ## the pass -/

theorem isKeyChar_parked : Text.isKeyChar parked = false := by decide +kernel

theorem startsKeyOrJoin_escape (hq : startsKeyOrJoin q = false) :
    startsKeyOrJoin (escape q) = false := by
  cases q with
  | nil => rfl
  | cons d q =>
    have hd : Text.isKeyChar d = false := hq
    rw [escape_cons]
    rcases escapeChar_cases d with ⟨_, he⟩ | ⟨_, he⟩ | ⟨_, _, he⟩
    · rw [he]
      exact isKeyChar_parked
    · rw [he]
      exact isKeyChar_backslash
    · rw [he]
      exact hd

/-- The token is the first of the fragment. -/
theorem firstToken?_framedInner (hk : IsKey k) (hq : startsKeyOrJoin q = false) :
    firstToken? (framedInner p k q) = some ⟨escape p, k, escape q⟩ :=
  firstToken?_token (isPlain_escape p false) (endsEscaping_escape p) hk.ne_nil hk.chars
    (startsKeyOrJoin_escape hq)

/-- What the fragment shows: nothing, or its text with the value in the place of the token. -/
def shownAs (p v q : Text) : Text := if v = [] then [] else p ++ v ++ q

theorem not_mem_shownAs {d : Char} {v : Text} (hp : d ∉ p) (hv : d ∉ v) (hq : d ∉ q) :
    d ∉ shownAs p v q := by
  unfold shownAs
  split
  · exact List.not_mem_nil
  · rw [List.mem_append, List.mem_append]
    rintro ((hm | hm) | hm)
    · exact hp hm
    · exact hv hm
    · exact hq hm

theorem expands_framed {c : Context} (hd : c.options.debug = false) (hk : IsKey k)
    (hq : startsKeyOrJoin q = false) :
    Expands c (framedInner p k q) (escape (shownAs p (c.resolve k) q)) := by
  have hfirst : firstToken? (framedInner p k q) = _ := firstToken?_framedInner hk hq
  unfold shownAs
  by_cases hv : c.resolve k = []
  · rw [if_pos hv]
    exact .removed hfirst hv hd
  · rw [if_neg hv, escape_append, escape_append]
    exact .filled hfirst (.value hv)

/-- The fragment is not met in escaped text, which has no token. -/
theorem not_infix_escape (hk : IsKey k) (hq : startsKeyOrJoin q = false) (s : Text) :
    ¬ bracketed (framedInner p k q) <:+: escape s := by
  rintro ⟨u, w, h⟩
  have hcut := firstToken?_spec (firstToken?_framedInner (p := p) hk hq)
  have hone := hcut.countFrom .token
  have hnone : countFrom .token false (escape s) = 0 := (isPlain_escape s false).countFrom (by decide)
  rw [← h, countFrom_append, countFrom_append, countFrom_token_bracketed] at hnone
  rw [if_pos rfl] at hone
  omega

/-- One pass shows the fragment and leaves everything around it. -/
theorem pass_framed {c : Context} (hd : c.options.debug = false) (hk : IsKey k)
    (hq : startsKeyOrJoin q = false) :
    (pass c (framed a p k q b)).outcome = .ok (escape (a ++ shownAs p (c.resolve k) q ++ b)) := by
  have hint : IsInterior (framedInner p k q) := isInterior_framed hk
  have hne' := bracketed_ne_nil (framedInner p k q)
  have hnone : ∀ s, fragmentTexts (escape s) = [] := fun s =>
    fragmentTexts_of_no_opening ((isPlain_escape s false).countFrom (by decide))
  have htexts : fragmentTexts (framed a p k q b) = [bracketed (framedInner p k q)] := by
    unfold framed
    rw [List.append_assoc, fragmentTexts_append (isInterior_escape a),
      fragmentTexts_bracketed_append hint, hnone, hnone]
    rfl
  have hmark : '@' ∈ bracketed (framedInner p k q) := by simp [bracketed, framedInner]
  have hopen := openTexts_of_nodup htexts (List.forall_mem_singleton.mpr hmark) (by simp)
  have hleaf : isNested (bracketed (framedInner p k q)) = false :=
    isNested_bracketed_eq_false hint.ends (countFrom_opening_framedInner hk)
  have hexpands := expands_framed (p := p) hd hk hq
  refine (pass_outcome c).mpr ⟨[(bracketed (framedInner p k q),
    escape (shownAs p (c.resolve k) q))], ⟨hopen.symm, ?_⟩, ?_⟩
  · refine List.forall_mem_singleton.mpr (.leaf hleaf ?_)
    rw [interior_bracketed]
    exact hexpands
  · have hmiss : ∀ s, Text.replace (bracketed (framedInner p k q))
        (escape (shownAs p (c.resolve k) q)) (escape s) = escape s := fun s =>
      Text.replace_of_not_infix _ (not_infix_escape hk hq s)
    rw [Text.replaceAll_cons, Text.replaceAll_nil]
    unfold framed
    rw [Text.replace_append_of_unbordered hne' (unbordered_bracketed hint), hmiss, hmiss,
      escape_append, escape_append]

end
end Render

/-! ## citations -/

namespace Citation
open Template Render Escaper

/-- The template is accepted with the data, and with room for one pass `s` is built from them. -/
def Builds (o : Options) (t : Text) (data : Entries) (s : Text) : Prop :=
  ∃ c, (make o t (.dict data)).outcome = .ok c ∧ ∀ limit, 1 < limit → (c.build limit).outcome = .ok s

section
variable {o : Options} {t s : Text} {data : Entries}

theorem make_of_check (hn : normalize t = t) (h : check o.strict t = .ok ()) :
    (make o t (.dict data)).outcome = .ok ⟨t, data, o, .blank, h⟩ := by
  unfold make
  dsimp only
  split
  · next e he =>
    rw [hn, h] at he
    cases he
  · show Except.ok (Citation.mk (normalize t) data o .blank _) =
      Except.ok (Citation.mk t data o .blank h)
    simp only [hn]

/-- Without a token no pass is made. -/
theorem textsFrom_of_no_token {c : Citation} {n : Nat} (h : hasTokenSign t = false) (limit : Nat) :
    (c.textsFrom (limit + 1) ⟨n, t⟩).outcome = .ok [] := by
  refine textsFrom_outcome_ok.mpr (Or.inl ⟨?_, rfl⟩)
  rw [next_outcome]
  exact if_neg fun hgo => by rw [h] at hgo; cases hgo.1

/-- A pass that leaves no token is the only one. -/
theorem texts_of_pass {c : Citation} (ht : hasTokenSign c.template = true)
    (hs : hasTokenSign s = false) (h : (pass c.context c.template).outcome = .ok s) (limit : Nat) :
    (c.texts (limit + 2)).outcome = .ok [s] := by
  have hne : s ≠ c.template := by
    rintro rfl
    rw [hs] at ht
    cases ht
  refine textsFrom_outcome_ok.mpr (Or.inr ⟨⟨1, s⟩, [], ?_, textsFrom_of_no_token hs limit, rfl⟩)
  rw [next_outcome, if_pos ⟨ht, c.atCap_zero⟩]
  show ((pass c.context c.template).outcome.map _) = _
  rw [h]
  exact congrArg Except.ok (if_neg hne)

theorem builds_of_texts (hn : normalize t = t) (h : check o.strict t = .ok ()) {ts : List Text}
    (hts : ∀ limit, (texts (limit + 2) ⟨t, data, o, .blank, h⟩).outcome = .ok ts)
    (hs : syntaxSigns.unescape (ts.getLastD t) = s) : Builds o t data s := by
  refine ⟨_, make_of_check hn h, fun limit hl => ?_⟩
  obtain ⟨limit, rfl⟩ := Nat.exists_eq_add_of_le' hl
  rw [build_outcome_ok (hts limit)]
  exact congrArg Except.ok hs

/-- Escaped text alone is built as it was. -/
theorem builds_of_escape (hs : Verbatim s) : Builds o (escape s) data s :=
  builds_of_texts (normalize_escape hs) (check_escape s o.strict)
    (fun limit => textsFrom_of_no_token (hasTokenSign_escape s) (limit + 1))
    (unescape_escape hs.unparked)

/-- A fragment in escaped text is built as the text with the value, or without the fragment. -/
theorem builds_of_framed {a p k q b : Text} (ha : Verbatim a) (hp : Verbatim p) (hq : Verbatim q)
    (hb : Verbatim b) (hk : IsKey k) (hstart : startsKeyOrJoin q = false)
    (hd : o.debug = false) (hv : parked ∉ Context.resolve { data, options := o } k) :
    Builds o (framed a p k q b) data
      (a ++ shownAs p (Context.resolve { data, options := o } k) q ++ b) := by
  have hpass : (pass { data, options := o } (framed a p k q b)).outcome =
      .ok (escape (a ++ shownAs p (Context.resolve { data, options := o } k) q ++ b)) :=
    pass_framed hd hk hstart
  refine builds_of_texts (normalize_framed ha hp hq hb hk) (check_framed hk o.strict)
    (texts_of_pass (hasTokenSign_framed a p k q b) (hasTokenSign_escape _) hpass) ?_
  refine unescape_escape fun hm => ?_
  rw [List.mem_append, List.mem_append] at hm
  rcases hm with (hm | hm) | hm
  · exact ha.unparked hm
  · exact not_mem_shownAs hp.unparked hv hq.unparked hm
  · exact hb.unparked hm

end

/-- A word is a key, and stands for what is looked up under it. -/
theorem isKey_of_word {k : Text} (hne : k ≠ []) (hk : ∀ d ∈ k, Text.isWord d = true) : IsKey k := by
  refine ⟨?_, fun d hd => ?_⟩
  · cases k with
    | nil => exact absurd rfl hne
    | cons d r => exact hk d List.mem_cons_self
  · unfold Text.isKeyChar
    rw [hk d hd]
    rfl

theorem resolve_word {k : Text} (hk : ∀ d ∈ k, Text.isWord d = true) (c : Context) :
    c.resolve k = lookup c.data k := by
  refine resolve_of_not_mem fun hm => ?_
  have := hk _ hm
  rw [Text.isWord_plus] at this
  cases this

/-- Escaped text in a template is shown as it was, whatever characters it holds: alone, and around
a fragment and the token in it. -/
theorem builds_escape (o : Options) (data : Entries) :
    (∀ s, Verbatim s → Builds o (escape s) data s) ∧
    ∀ a p k q b, Verbatim a → Verbatim p → Verbatim q → Verbatim b → k ≠ [] →
      (∀ c ∈ k, Text.isWord c = true) → startsKeyOrJoin q = false →
      let t := escape a ++ '{' :: (escape p ++ '@' :: k ++ escape q) ++ '}' :: escape b
      let v := lookup data k
      (∃ c, (make o t (.dict data)).outcome = .ok c) ∧
      (o.debug = false → parked ∉ v →
        Builds o t data (if v = [] then a ++ b else a ++ p ++ v ++ q ++ b)) := by
  refine ⟨fun s hs => builds_of_escape hs, ?_⟩
  intro a p k q b ha hp hq hb hne hk hstart t v
  have hkey := isKey_of_word hne hk
  have ht : t = framed a p k q b := (framed_eq a p k q b).symm
  have hresolve : Context.resolve { data, options := o } k = v := resolve_word hk _
  rw [ht]
  refine ⟨⟨_, make_of_check (normalize_framed ha hp hq hb hkey) (check_framed hkey o.strict)⟩, ?_⟩
  intro hd hv
  have hbuilds := builds_of_framed (o := o) ha hp hq hb hkey hstart hd (hresolve.symm ▸ hv)
  rw [hresolve] at hbuilds
  unfold shownAs at hbuilds
  split at hbuilds
  · next hgone =>
    rw [if_pos hgone]
    rwa [List.append_nil] at hbuilds
  · next hshown =>
    rw [if_neg hshown]
    simpa only [List.append_assoc] using hbuilds

/-- The case of a value, and of texts around it, that are signs throughout. -/
theorem builds_signs : Verbatim ['@'] ∧ Verbatim ['{'] ∧ Verbatim ['}'] ∧ Verbatim ['\\'] ∧
    Text.isWord 'k' = true ∧ startsKeyOrJoin ['}'] = false ∧
    Builds {} ("\\@\x7b\\\x7b@k\\\x7d\x7d".toList ++ [parked])
      [(.text "k".toList, .text "\x7bk\x7d\\".toList)] "@\x7b\x7bk\x7d\\\x7d\\".toList := by
  have ha : Verbatim ['@'] := ⟨by decide, by decide, by decide⟩
  have hp : Verbatim ['{'] := ⟨by decide, by decide, by decide⟩
  have hq : Verbatim ['}'] := ⟨by decide, by decide, by decide⟩
  have hb : Verbatim ['\\'] := ⟨by decide, by decide, by decide⟩
  have hk : ∀ d ∈ ['k'], Text.isWord d = true := List.forall_mem_singleton.mpr (by decide)
  refine ⟨ha, hp, hq, hb, by decide, by decide, ?_⟩
  exact ((builds_escape {} [(.text ['k'], .text "\x7bk\x7d\\".toList)]).2 ['@'] ['{'] ['k'] ['}']
    ['\\'] ha hp hq hb (by decide) hk (by decide)).2 rfl (by decide)

end Citation
end Citations
