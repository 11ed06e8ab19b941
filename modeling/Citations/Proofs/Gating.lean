import Citations.Proofs.Insertion

/-!
# The token of a leaf

The check of a template counts an `@` with a word character behind it, and a leaf is filled at an
`@` with a word character or a `+` behind it.  A leaf of an accepted template has one token for the
check, so both take the same one unless an `@` directly before a `+` stands in front of it.  There
the value of the token that was counted does not matter any more.

* `KeyAt t i`            where a leaf can be filled: at a token, or at an `@` before a `+`;
* `firstToken?_eq_iff`   a leaf is filled at the first of these places;
* `Gate t k`             the text `t` is cut at its only token;
* `exists_own_token`     a leaf of an accepted template has one token, and that is its own;
* `gated c k`            what is expected of a leaf with this token;
* `expand_gate_iff`      it is what becomes of the leaf if and only if no `@+` stands before;
* `gate_agrees_iff`      the same for the leaves of accepted templates, at every depth.
-/

namespace Citations
namespace Template

/-! ## where a token can start -/

/-- An unescaped `@` with a character of a key behind it. -/
def KeyAt (t : Text) (i : Nat) : Prop :=
  UnescapedAt t i '@' ∧ ∃ d, t[i + 1]? = some d ∧ Text.isKeyChar d = true

/-- An unescaped `@` directly before a `+`. -/
def JoinAt (t : Text) (i : Nat) : Prop := UnescapedAt t i '@' ∧ t[i + 1]? = some '+'

instance (t : Text) (i : Nat) : Decidable (JoinAt t i) := inferInstanceAs (Decidable (_ ∧ _))

theorem isKeyChar_iff {d : Char} : Text.isKeyChar d = true ↔ Text.isWord d = true ∨ d = '+' := by
  simp [Text.isKeyChar]

theorem keyAt_iff {t : Text} {i : Nat} : KeyAt t i ↔ TokenAt t i ∨ JoinAt t i := by
  constructor
  · rintro ⟨hat, d, hd, hkey⟩
    rcases isKeyChar_iff.mp hkey with hword | rfl
    · exact Or.inl ⟨hat, d, hd, hword⟩
    · exact Or.inr ⟨hat, hd⟩
  · rintro (⟨hat, d, hd, hword⟩ | ⟨hat, hd⟩)
    · exact ⟨hat, d, hd, isKeyChar_iff.mpr (Or.inl hword)⟩
    · exact ⟨hat, '+', hd, isKeyChar_iff.mpr (Or.inr rfl)⟩

theorem startsKeyOrJoin_iff {t : Text} :
    startsKeyOrJoin t = true ↔ ∃ d, t[0]? = some d ∧ Text.isKeyChar d = true := by
  cases t with
  | nil => simp [startsKeyOrJoin]
  | cons c r => simp [startsKeyOrJoin]

/-- The text cut at a position, with all that can belong to a key. -/
def tokenFrom (t : Text) (i : Nat) : Token :=
  ⟨t.take i, (t.drop (i + 1)).takeWhile Text.isKeyChar, (t.drop (i + 1)).dropWhile Text.isKeyChar⟩

section
variable {t : Text} {i : Nat} {k : Token}

theorem KeyAt.startsKeyOrJoin (h : KeyAt t i) : startsKeyOrJoin (t.drop (i + 1)) = true := by
  obtain ⟨_, d, hd, hkey⟩ := h
  refine startsKeyOrJoin_iff.mpr ⟨d, ?_, hkey⟩
  rwa [List.getElem?_drop]

theorem KeyAt.length_before (h : KeyAt t i) : (tokenFrom t i).before.length = i :=
  List.length_take_of_le (Nat.le_of_lt h.1.cut.1)

theorem KeyAt.cutAt (h : KeyAt t i) : CutAt false t (tokenFrom t i) := by
  obtain ⟨_, htext, hends⟩ := h.1.cut
  have hstart := h.startsKeyOrJoin
  refine ⟨?_, hends, ?_, isKeyChar_of_mem_takeWhile, startsKeyOrJoin_dropWhile _⟩
  · unfold tokenFrom
    rw [List.append_assoc, List.cons_append, List.takeWhile_append_dropWhile]
    exact htext
  · show (t.drop (i + 1)).takeWhile Text.isKeyChar ≠ []
    cases hr : t.drop (i + 1) with
    | nil =>
      rw [hr] at hstart
      cases hstart
    | cons d r =>
      rw [hr] at hstart
      have hd : Text.isKeyChar d = true := hstart
      rw [List.takeWhile_cons_of_pos hd]
      exact List.cons_ne_nil _ _

theorem CutAt.split (h : CutAt false t k) : t = k.before ++ '@' :: (k.key ++ k.after) := by
  simpa using h.text

/-- Behind the `@` stands the key. -/
theorem CutAt.exists_key (h : CutAt false t k) :
    ∃ d r, k.key = d :: r ∧ t[k.before.length + 1]? = some d := by
  obtain ⟨d, r, hkey⟩ := List.exists_cons_of_ne_nil h.key_ne_nil
  refine ⟨d, r, hkey, ?_⟩
  rw [h.split, hkey, List.getElem?_append_right (Nat.le_add_right _ 1), Nat.add_sub_cancel_left]
  rfl

theorem CutAt.keyAt (h : CutAt false t k) : KeyAt t k.before.length := by
  obtain ⟨d, r, hkey, hd⟩ := h.exists_key
  refine ⟨?_, d, hd, h.key_chars d (hkey ▸ List.mem_cons_self)⟩
  rw [h.split]
  exact unescapedAt_append h.ends '@' _

/-- Where a text is cut says how it is cut. -/
theorem CutAt.eq_tokenFrom (h : CutAt false t k) : k = tokenFrom t k.before.length := by
  have hdrop : t.drop (k.before.length + 1) = k.key ++ k.after := by
    conv_lhs => rw [h.split, List.drop_length_add_append]
    rfl
  have htake : t.take k.before.length = k.before := by
    conv_lhs => rw [h.split, List.take_left]
  rw [tokenFrom, htake, hdrop, takeWhile_key_append h.key_chars h.after_start,
    dropWhile_key_append h.key_chars h.after_start]

/-! ## the first of these places -/

theorem exists_firstTokenFrom? {esc : Bool} {u w : Text} (hu : endsEscaping esc u = false)
    (hw : startsKeyOrJoin w = true) :
    ∃ k, firstTokenFrom? esc (u ++ '@' :: w) = some k ∧ k.before.length ≤ u.length := by
  induction u generalizing esc with
  | nil =>
    obtain rfl : esc = false := hu
    rw [List.nil_append, firstTokenFrom?, hw]
    exact ⟨_, rfl, Nat.le_refl 0⟩
  | cons c u ih =>
    rw [List.cons_append, firstTokenFrom?]
    split
    · exact ⟨_, rfl, Nat.zero_le _⟩
    · obtain ⟨k, hk, hle⟩ := ih hu
      rw [hk]
      exact ⟨_, rfl, Nat.succ_le_succ hle⟩

/-- A leaf is filled no later than where a token can start. -/
theorem KeyAt.exists_firstToken? (h : KeyAt t i) :
    ∃ k, firstToken? t = some k ∧ CutAt false t k ∧ k.before.length ≤ i := by
  obtain ⟨hlt, htext, hends⟩ := h.1.cut
  obtain ⟨k, hk, hle⟩ := exists_firstTokenFrom? hends h.startsKeyOrJoin
  rw [← htext] at hk
  rw [List.length_take_of_le (Nat.le_of_lt hlt)] at hle
  exact ⟨k, hk, firstToken?_spec hk, hle⟩

theorem firstToken?_eq_iff (h : CutAt false t k) :
    firstToken? t = some k ↔ ∀ i < k.before.length, ¬ KeyAt t i := by
  constructor
  · intro hk i hi hat
    obtain ⟨k', hk', _, hle⟩ := hat.exists_firstToken?
    obtain rfl := Option.some.inj (hk.symm.trans hk')
    omega
  · intro hnone
    obtain ⟨k', hk', hcut, hle⟩ := h.keyAt.exists_firstToken?
    have hlen : k'.before.length = k.before.length := by
      by_contra hne
      exact hnone _ (by omega) hcut.keyAt
    rw [hk', hcut.eq_tokenFrom, hlen, ← h.eq_tokenFrom]

/-! ## the only token -/

/-- The text is cut at its only token, with the longest key that can be read there. -/
structure Gate (t : Text) (k : Token) : Prop where
  cut : CutAt false t k
  only : ∀ i, TokenAt t i ↔ i = k.before.length

theorem Gate.unique {k' : Token} (h : Gate t k) (h' : Gate t k') : k' = k := by
  have hat := h'.only k'.before.length
  rw [h'.cut.eq_tokenFrom, (h.only _).mp (hat.mpr rfl), ← h.cut.eq_tokenFrom]

theorem exists_gate (h : ∀ j, TokenAt t j ↔ j = i) :
    ∃ k, Gate t k ∧ k.before.length = i := by
  have hkey : KeyAt t i := keyAt_iff.mpr (Or.inl ((h i).mpr rfl))
  refine ⟨tokenFrom t i, ⟨hkey.cutAt, fun j => ?_⟩, hkey.length_before⟩
  rw [hkey.length_before]
  exact h j

/-- A leaf is filled at its only token, if no `@` before a `+` stands in front of it. -/
theorem Gate.first_iff (h : Gate t k) :
    firstToken? t = some k ↔ ∀ i < k.before.length, ¬ JoinAt t i := by
  rw [firstToken?_eq_iff h.cut]
  refine forall₂_congr fun i hi => ?_
  rw [keyAt_iff, h.only, or_iff_right (Nat.ne_of_lt hi)]

theorem Gate.starts_word (h : Gate t k) :
    ∃ d r, k.key = d :: r ∧ Text.isWord d = true := by
  obtain ⟨_, d, hd, hword⟩ := (h.only _).mpr rfl
  obtain ⟨e, r, hkey, he⟩ := h.cut.exists_key
  obtain rfl : d = e := Option.some.inj (hd.symm.trans he)
  exact ⟨d, r, hkey, hword⟩

end

theorem mem_deepFragments_of_mem {t : Text} {f : Fragment} (h : f ∈ fragments t) :
    f ∈ deepFragments 0 t := by
  rw [deepFragments_unfold]
  exact List.mem_flatMap.mpr ⟨f, h, List.mem_cons_self⟩

/-- Without a bracket all tokens stand at the level of the outline itself. -/
theorem Outline.tokens_of_no_opening {o : Outline} (h : Sign.opening ∉ o.word) (i : Nat) :
    o.tokens i = o.word.idxsOf .token i := by
  induction o generalizing i with
  | nil => rfl
  | token r ih =>
    have hr : Sign.opening ∉ r.word := fun hm => h (List.mem_cons_of_mem _ hm)
    rw [tokens, ih hr, word_token, List.idxsOf_cons, if_pos (beq_self_eq_true _)]
  | plain r ih => exact ih (fun hm => h (List.mem_cons_of_mem _ hm)) (i + 1)
  | pair a r _ _ => exact absurd List.mem_cons_self h

/-- In the outline of a leaf there is no bracket. -/
theorem no_opening_of_leaf {t : Text} {o : Outline} (ho : o.word = marks false t)
    {p : Span × Outline} (hp : p ∈ o.pairs 0) (hown : 0 < p.2.own)
    (hl : (fragmentAt t p.1).kind = .leaf) : Sign.opening ∉ p.2.word := by
  have hword := word_of_mem_pairs ho hp
  have hnone : fragments (p.1.inside t) = [] := by
    rw [kind_of_mem_pairs ho hp hown, interior_of_mem_pairs ho hp] at hl
    by_contra hne
    rw [if_neg hne] at hl
    cases hl
  apply List.count_eq_zero.mp
  rw [hword, count_marks_bracket (by decide) (by decide)]
  exact List.count_eq_zero.mpr ((fragments_eq_nil_iff hword).mp hnone)

/-- A leaf of an accepted template has one token, which is its own. -/
theorem exists_own_token {t : Text} (h : check true t = .ok ()) {f : Fragment}
    (hf : f ∈ deepFragments 0 t) (hl : f.kind = .leaf) :
    ∃ i, (∀ j, TokenAt f.interior j ↔ j = i) ∧ OwnToken t f.span (f.span.first + 1 + i) := by
  have hwell := check_iff_isWellFormed.mp h
  obtain ⟨o, ho⟩ := exists_outline hwell.nested
  rw [deepFragments_zero ho] at hf
  obtain ⟨s, hs, rfl⟩ := List.mem_map.mp hf
  obtain ⟨p, hp, rfl⟩ := List.mem_map.mp hs
  have hone : p.2.own = 1 := (owned_iff ho).mp hwell.owned p hp
  have htokens := Outline.tokens_of_no_opening (no_opening_of_leaf ho hp (by omega) hl)
  have hlen := p.2.length_tokens 0
  rw [hone] at hlen
  obtain ⟨i, hi⟩ := List.length_eq_one_iff.mp hlen
  refine ⟨i, fun j => ?_, (ownToken_iff ho hp).mpr ?_⟩
  · rw [interior_of_mem_pairs ho hp, tokenAt_iff_mem (word_of_mem_pairs ho hp), ← htokens, hi,
      List.mem_singleton]
  · have hmem : i ∈ p.2.tokens 0 := hi ▸ List.mem_singleton_self i
    have hat : (fragmentAt t p.1).span.first + 1 + i - (p.1.first + 1) = i :=
      Nat.add_sub_cancel_left _ _
    rw [htokens, Outline.mem_idxsOf_iff] at hmem ⊢
    rw [hat]
    exact ⟨Nat.le_add_right _ _, hmem.2⟩

/-- Where a leaf of an accepted template has a token, there it is cut. -/
theorem gate_of_leaf {t : Text} (h : check true t = .ok ()) {f : Fragment}
    (hf : f ∈ deepFragments 0 t) (hl : f.kind = .leaf) {i : Nat} (hi : TokenAt f.interior i) :
    Gate f.interior (tokenFrom f.interior i) := by
  obtain ⟨j, honly, _⟩ := exists_own_token h hf hl
  obtain ⟨k, hk, rfl⟩ := exists_gate honly
  rw [(honly i).mp hi, ← hk.cut.eq_tokenFrom]
  exact hk

end Template

namespace Render
open Template

/-! ## what is expected of a leaf -/

/-- Nothing where the key of the token stands for nothing, and else the text with the value in the
place of the token. -/
def gated (c : Context) (k : Token) : Text :=
  if c.resolve k.key = [] then [] else k.filledWith (escape (c.resolve k.key))

section
variable {c : Context} {t : Text} {k k' : Token}

theorem expand_of_first (hd : c.options.debug = false) (hk : firstToken? t = some k) :
    (expand c t).outcome = .ok (gated c k) := by
  rw [expand_outcome, expands_iff_of_some hk]
  unfold gated
  by_cases hv : c.resolve k.key = []
  · rw [if_pos hv]
    exact Or.inr ⟨hv, hd, rfl⟩
  · rw [if_neg hv]
    exact Or.inl ⟨_, .value hv, rfl⟩

/-- An inserted value does not start with a token sign. -/
theorem escape_getElem?_zero {v : Text} (hv : v ≠ []) (r : Text) : (escape v ++ r)[0]? ≠ some '@' := by
  obtain ⟨d, w, hw⟩ := List.exists_cons_of_ne_nil (inert_escape hv).ne_nil
  have hplain := isPlain_escape v false
  rw [hw] at hplain ⊢
  intro h
  obtain rfl : d = '@' := Option.some.inj h
  have hsign := (isPlain_cons.mp hplain).1
  cases hsign

/-- Filled at an earlier place a text is another one, where there is a value for the later. -/
theorem gated_ne (h : CutAt false t k) (h' : CutAt false t k')
    (hlt : k'.before.length < k.before.length) (hv : c.resolve k.key ≠ []) :
    gated c k' ≠ gated c k := by
  have hsign : (gated c k)[k'.before.length]? = some '@' := by
    have hat := h'.keyAt.1.1
    rw [h.text, List.append_assoc, List.getElem?_append_left hlt] at hat
    rw [gated, if_neg hv, Token.filledWith, List.append_assoc, List.getElem?_append_left hlt]
    exact hat
  intro heq
  rw [← heq] at hsign
  unfold gated at hsign
  split at hsign
  · cases hsign
  · next hv' =>
    rw [Token.filledWith, List.append_assoc, List.getElem?_append_right (Nat.le_refl _),
      Nat.sub_self] at hsign
    exact escape_getElem?_zero hv' _ hsign

/-! ## data for a key -/

theorem members_cons {d : Char} (hd : d ≠ '+') (r : Text) :
    ∃ p ps, members (d :: r) = (d :: p) :: ps := by
  unfold members
  rw [Text.splitAt, if_neg hd]
  cases Text.splitAt '+' r with
  | nil => exact ⟨[], [], rfl⟩
  | cons p ps => exact ⟨p, ps.filter (· ≠ []), rfl⟩

theorem lookup_insert_self (key : Text) (es : Entries) :
    lookup (Entries.insert (.text key) (.text ['x']) es) key = ['x'] := by
  unfold lookup
  rw [Entries.get?_insert_self]
  rfl

/-- A key that starts with no `+` stands for something in some data. -/
theorem exists_resolve_ne {d : Char} (hd : d ≠ '+') (r separator : Text) :
    ∃ data, resolve data separator (d :: r) ≠ [] := by
  by_cases hplus : '+' ∈ d :: r
  · obtain ⟨p, ps, hmembers⟩ := members_cons hd r
    refine ⟨Entries.insert (.text (d :: p)) (.text ['x']) [], ?_⟩
    rw [resolve, if_pos hplus, memberTexts, hmembers, List.map_cons, lookup_insert_self,
      List.filter_cons_of_pos (by decide)]
    cases List.filter _ _ with
    | nil => exact List.cons_ne_nil _ _
    | cons q qs => exact List.cons_ne_nil _ _
  · refine ⟨Entries.insert (.text (d :: r)) (.text ['x']) [], ?_⟩
    rw [resolve_of_not_mem hplus, lookup_insert_self]
    exact List.cons_ne_nil _ _

end

/-! ## both readings of a leaf -/

/-- A leaf becomes what is expected at its only token, whatever the data, if and only if no `@`
before a `+` stands in front of that. -/
theorem expand_gate_iff {t : Text} {k : Token} (h : Gate t k) {o : Options} (hd : o.debug = false) :
    (∀ data, (expand { data, options := o } t).outcome =
        .ok (gated { data, options := o } k)) ↔
      ∀ i < k.before.length, ¬ JoinAt t i := by
  rw [← h.first_iff]
  constructor
  · intro hall
    obtain ⟨k', hk', hcut, hle⟩ := h.cut.keyAt.exists_firstToken?
    rcases Nat.lt_or_eq_of_le hle with hlt | heq
    · -- with a value for the later token alone the two readings differ where the first one starts
      obtain ⟨d, r, hkey, hword⟩ := h.starts_word
      have hplus : d ≠ '+' := by
        rintro rfl
        rw [Text.isWord_plus] at hword
        cases hword
      obtain ⟨data, hv⟩ := exists_resolve_ne hplus r o.comboSeparator
      rw [← hkey] at hv
      have hout := hall data
      rw [expand_of_first hd hk'] at hout
      exact absurd (Except.ok.inj hout) (gated_ne h.cut hcut hlt hv)
    · rw [hk', hcut.eq_tokenFrom, heq, ← h.cut.eq_tokenFrom]
  · intro hk data
    exact expand_of_first hd hk

/-- A leaf of a template that the strict check accepts, at any depth, has one token, and that is its
own in the template.  Without debug mode it is filled or removed by this token, over all data, if
and only if no unescaped `@` directly before a `+` stands in front of it. -/
theorem gate_agrees_iff {t : Text} (h : check true t = .ok ()) {f : Fragment}
    (hf : f ∈ deepFragments 0 t) (hl : f.kind = .leaf) :
    (∃! k, Gate f.interior k) ∧ ∀ k, Gate f.interior k →
      OwnToken t f.span (f.span.first + 1 + k.before.length) ∧
      ∀ o : Options, o.debug = false →
        ((∀ data, (expand { data, options := o } f.interior).outcome =
            .ok (gated { data, options := o } k)) ↔
          ∀ i < k.before.length, ¬ JoinAt f.interior i) := by
  obtain ⟨i, honly, hown⟩ := exists_own_token h hf hl
  obtain ⟨k, hk, rfl⟩ := exists_gate honly
  refine ⟨⟨k, hk, fun k' hk' => hk.unique hk'⟩, fun k' hk' => ⟨?_, fun o hd => ?_⟩⟩
  · rw [hk.unique hk']
    exact hown
  · exact expand_gate_iff hk' hd

/-- Before the token stand an escaped `@+` and an `@` without a key. -/
def shieldedJoin : Text := "\x7b\\@+, @ @a+b\x7d".toList

theorem gate_agrees_shieldedJoin : check true shieldedJoin = .ok () ∧
    fragmentAt shieldedJoin ⟨0, 12⟩ ∈ deepFragments 0 shieldedJoin ∧
    (fragmentAt shieldedJoin ⟨0, 12⟩).kind = .leaf ∧
    ∀ data, (expand { data, options := {} } "\\@+, @ @a+b".toList).outcome =
      .ok (gated { data, options := {} } ⟨"\\@+, @ ".toList, "a+b".toList, []⟩) := by
  have hcheck : check true shieldedJoin = .ok () := by rfl
  have hleaf : (fragmentAt shieldedJoin ⟨0, 12⟩).kind = .leaf := by decide
  have hmem : fragmentAt shieldedJoin ⟨0, 12⟩ ∈ deepFragments 0 shieldedJoin :=
    mem_deepFragments_of_mem (List.mem_map_of_mem (by decide))
  have htoken : TokenAt (fragmentAt shieldedJoin ⟨0, 12⟩).interior 7 :=
    ⟨by decide, 'a', rfl, by decide⟩
  obtain ⟨_, hall⟩ := gate_agrees_iff hcheck hmem hleaf
  obtain ⟨_, hagrees⟩ := hall _ (gate_of_leaf hcheck hmem hleaf htoken)
  exact ⟨hcheck, hmem, hleaf, (hagrees {} rfl).mpr (by decide)⟩

/-! ## a value that does not matter -/

/-- Before the token stands an `@` directly before a `+`. -/
def looseJoin : Text := "\x7b@+ @a\x7d".toList

def oneValue : Entries := [(.text ['a'], .text ['1'])]

/-- A leaf of an accepted template vanishes, though there is a value for its only token. -/
theorem gate_missed : check true looseJoin = .ok () ∧
    ∃ f ∈ deepFragments 0 looseJoin, f.kind = .leaf ∧ f.interior = "@+ @a".toList ∧
      Gate f.interior ⟨"@+ ".toList, ['a'], []⟩ ∧
      gated ⟨oneValue, {}, .blank⟩ ⟨"@+ ".toList, ['a'], []⟩ = "@+ 1".toList ∧
      (expand ⟨oneValue, {}, .blank⟩ f.interior).outcome = .ok [] := by
  have hcheck : check true looseJoin = .ok () := by rfl
  have hleaf : (fragmentAt looseJoin ⟨0, 6⟩).kind = .leaf := by decide
  have hmem : fragmentAt looseJoin ⟨0, 6⟩ ∈ deepFragments 0 looseJoin :=
    mem_deepFragments_of_mem (List.mem_map_of_mem (by decide))
  have htoken : TokenAt (fragmentAt looseJoin ⟨0, 6⟩).interior 3 := ⟨by decide, 'a', rfl, by decide⟩
  have hfirst : firstToken? "@+ @a".toList = some ⟨[], ['+'], " @a".toList⟩ := by rfl
  have hgone : gated ⟨oneValue, {}, .blank⟩ ⟨[], ['+'], " @a".toList⟩ = [] := by decide
  refine ⟨hcheck, _, hmem, hleaf, rfl, gate_of_leaf hcheck hmem hleaf htoken, by decide, ?_⟩
  exact (expand_of_first rfl hfirst).trans (congrArg _ hgone)

end Render
end Citations
