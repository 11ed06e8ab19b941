import Citations.Proofs.Outline
import Citations.Proofs.Nesting

/-!
# What the strict check accepts

A template is well formed if its brackets match, every token stands within a pair of brackets, and
every pair has exactly one token at its own level.  The strict check never asks for "exactly one":
it compares three counts, and its scan asks for at least one token at the level of every pair and
for none outside.  With as many tokens as pairs no pair can then have a second one.

* `UnescapedAt`, `TokenAt`   where an unescaped character or a token stands in a text;
* `Matched t p`              an unescaped `{` and `}` with a well-nested text between them;
* `IsWellFormed t`           the grammar, without a scan;
* `marks`                    the signs, where an `@` without a key counts as plain text;
* `pops t`                   the pairs that the check of the brackets pops, `checkNesting_eq_pops`;
* `popsFrom_word`            a run of that check over an outline;
* `validate_strict`          the strict check accepts the well-formed templates.
-/

namespace Citations

/-- What stands strictly between two positions. -/
def Span.inside {α : Type} (p : Span) (l : List α) : List α := (l.take p.last).drop (p.first + 1)

/-- A position lies strictly between the two. -/
def Span.Around (p : Span) (k : Nat) : Prop := p.first < k ∧ k < p.last

theorem Span.inside_map {α β : Type} (p : Span) (f : α → β) (l : List α) :
    p.inside (l.map f) = (p.inside l).map f := by
  simp [inside]

/-- A list cut at two of its members. -/
theorem Span.split {α : Type} {p : Span} {l : List α} {a b : α} (ha : l[p.first]? = some a)
    (hb : l[p.last]? = some b) (h : p.first < p.last) :
    l = l.take p.first ++ (a :: p.inside l ++ b :: l.drop (p.last + 1)) := by
  obtain ⟨hblt, hb⟩ := List.getElem?_eq_some_iff.mp hb
  obtain ⟨halt, ha⟩ := List.getElem?_eq_some_iff.mp ha
  have hlast : l.take p.last ++ b :: l.drop (p.last + 1) = l := by
    rw [← hb, ← List.drop_eq_getElem_cons hblt, List.take_append_drop]
  have hlt : p.first < (l.take p.last).length := by
    rw [List.length_take]
    omega
  have hfirst : l.take p.first ++ a :: p.inside l = l.take p.last := by
    have hdrop : a :: p.inside l = (l.take p.last).drop p.first := by
      rw [List.drop_eq_getElem_cons hlt, List.getElem_take, ha]
      rfl
    have htake : l.take p.first = (l.take p.last).take p.first := by
      rw [List.take_take, Nat.min_eq_left (Nat.le_of_lt h)]
    rw [hdrop, htake, List.take_append_drop]
  rw [← List.append_assoc, hfirst, hlast]

namespace Template

/-! ## places in a text -/

/-- Whether a backslash stands directly before a position, with `esc` for one before the text. -/
def escapedFrom (esc : Bool) (t : Text) : Nat → Bool
  | 0 => esc
  | i + 1 => t[i]? == some '\\'

/-- The character at a position, with no backslash directly before it. -/
def UnescapedAt (t : Text) (i : Nat) (c : Char) : Prop :=
  t[i]? = some c ∧ escapedFrom false t i = false

/-- A token starts: an unescaped `@` with a word character behind it. -/
def TokenAt (t : Text) (i : Nat) : Prop :=
  UnescapedAt t i '@' ∧ ∃ d, t[i + 1]? = some d ∧ Text.isWord d = true

/-- A pair of unescaped brackets that match each other. -/
structure Matched (t : Text) (p : Span) : Prop where
  opens : UnescapedAt t p.first '{'
  closes : UnescapedAt t p.last '}'
  lt : p.first < p.last
  between : BracketWord (p.inside (signs false t))

/-- A token of the pair's own level: within the pair, but within none of its inner pairs. -/
structure OwnToken (t : Text) (p : Span) (k : Nat) : Prop where
  token : TokenAt t k
  within : p.Around k
  outside : ∀ q, Matched t q → p.first < q.first → q.last < p.last → ¬ q.Around k

/-- A well-formed template. -/
structure IsWellFormed (t : Text) : Prop where
  nested : BracketWord (signs false t)
  covered : ∀ k, TokenAt t k → ∃ p, Matched t p ∧ p.Around k
  owned : ∀ p, Matched t p → ∃! k, OwnToken t p k

theorem signs_getElem? (esc : Bool) (t : Text) (i : Nat) :
    (signs esc t)[i]? = t[i]?.map (sign (escapedFrom esc t i)) := by
  induction t generalizing esc i with
  | nil => rfl
  | cons c r ih =>
    cases i with
    | zero => rfl
    | succ i =>
      have hesc : escapedFrom (c == '\\') r i = escapedFrom esc (c :: r) (i + 1) := by
        cases i <;> rfl
      rw [signs_cons, List.getElem?_cons_succ, ih, hesc]
      rfl

theorem unescapedAt_iff {t : Text} {i : Nat} {c : Char} {s : Sign}
    (hs : ∀ esc d, sign esc d = s ↔ esc = false ∧ d = c) :
    UnescapedAt t i c ↔ (signs false t)[i]? = some s := by
  rw [signs_getElem?, Option.map_eq_some_iff]
  constructor
  · rintro ⟨hc, hesc⟩
    exact ⟨c, hc, (hs _ _).mpr ⟨hesc, rfl⟩⟩
  · rintro ⟨d, hd, hsign⟩
    obtain ⟨hesc, rfl⟩ := (hs _ _).mp hsign
    exact ⟨hd, hesc⟩

theorem unescapedAt_opening {t : Text} {i : Nat} :
    UnescapedAt t i '{' ↔ (signs false t)[i]? = some .opening :=
  unescapedAt_iff fun _ _ => sign_eq_opening_iff

theorem unescapedAt_closing {t : Text} {i : Nat} :
    UnescapedAt t i '}' ↔ (signs false t)[i]? = some .closing :=
  unescapedAt_iff fun _ _ => sign_eq_closing_iff

theorem unescapedAt_token {t : Text} {i : Nat} :
    UnescapedAt t i '@' ↔ (signs false t)[i]? = some .token :=
  unescapedAt_iff fun _ _ => sign_eq_token_iff

/-! ## marks -/

/-- The sign of a character with `r` behind it; an `@` without a key is plain. -/
def mark (esc : Bool) (c : Char) (r : Text) : Sign :=
  if sign esc c = .token ∧ startsKey r = false then .plain else sign esc c

/-- The signs of a text, where only an `@` that starts a token counts as one. -/
def marks (esc : Bool) : Text → List Sign
  | [] => []
  | c :: r => mark esc c r :: marks (c == '\\') r

theorem marks_cons (esc : Bool) (c : Char) (r : Text) :
    marks esc (c :: r) = mark esc c r :: marks (c == '\\') r := rfl

theorem length_marks (esc : Bool) (t : Text) : (marks esc t).length = t.length := by
  induction t generalizing esc with
  | nil => rfl
  | cons c r ih => exact congrArg Nat.succ (ih _)

/-- A sign with a token read as plain text. -/
def bracketOf : Sign → Sign
  | .token => .plain
  | s => s

theorem bracketOf_mark (esc : Bool) (c : Char) (r : Text) :
    bracketOf (mark esc c r) = bracketOf (sign esc c) := by
  unfold mark
  split
  · next h => rw [h.1]; rfl
  · rfl

theorem map_bracketOf_marks (esc : Bool) (t : Text) :
    (marks esc t).map bracketOf = (signs esc t).map bracketOf := by
  induction t generalizing esc with
  | nil => rfl
  | cons c r ih => rw [marks_cons, signs_cons, List.map_cons, List.map_cons, ih, bracketOf_mark]

theorem nest_map_bracketOf (d : Nat) (ss : List Sign) : nest d (ss.map bracketOf) = nest d ss := by
  induction ss generalizing d with
  | nil => rfl
  | cons s r ih =>
    cases s with
    | opening => exact ih (d + 1)
    | closing =>
      cases d with
      | zero => rfl
      | succ d => exact ih d
    | token => exact ih d
    | plain => exact ih d

/-- Tokens do not matter for the brackets. -/
theorem bracketWord_congr {a b : List Sign} (h : a.map bracketOf = b.map bracketOf) :
    BracketWord a ↔ BracketWord b := by
  rw [bracketWord_iff, bracketWord_iff, ← nest_map_bracketOf, h, nest_map_bracketOf]

theorem bracketWord_marks {t : Text} : BracketWord (marks false t) ↔ BracketWord (signs false t) :=
  bracketWord_congr (map_bracketOf_marks false t)

theorem bracketOf_eq_iff {s s' : Sign} (h : s ≠ .token) (h' : s ≠ .plain) :
    bracketOf s' = s ↔ s' = s := by
  cases s' <;> cases s <;> simp_all [bracketOf]

/-- The brackets stand where they stand among the signs. -/
theorem marks_getElem?_bracket {s : Sign} (h : s ≠ .token) (h' : s ≠ .plain) (esc : Bool)
    (t : Text) (i : Nat) : (marks esc t)[i]? = some s ↔ (signs esc t)[i]? = some s := by
  have hmap : ∀ l : List Sign, (l.map bracketOf)[i]? = some s ↔ l[i]? = some s := by
    intro l
    rw [List.getElem?_map, Option.map_eq_some_iff]
    constructor
    · rintro ⟨a, ha, hs⟩
      rwa [(bracketOf_eq_iff h h').mp hs] at ha
    · intro ha
      exact ⟨s, ha, (bracketOf_eq_iff h h').mpr rfl⟩
  rw [← hmap, map_bracketOf_marks, hmap]

theorem mark_eq_token_iff {esc : Bool} {c : Char} {r : Text} :
    mark esc c r = .token ↔ sign esc c = .token ∧ startsKey r = true := by
  unfold mark
  split
  · next h => simp [h.2]
  · next h =>
    constructor
    · intro hs
      exact ⟨hs, Bool.not_eq_false _ ▸ fun hk => h ⟨hs, hk⟩⟩
    · exact And.left

theorem startsKey_iff {t : Text} : startsKey t = true ↔ ∃ d, t[0]? = some d ∧ Text.isWord d = true := by
  cases t with
  | nil => simp [startsKey]
  | cons c r => simp [startsKey]

theorem marks_getElem?_token (esc : Bool) (t : Text) (i : Nat) :
    (marks esc t)[i]? = some .token ↔
      (signs esc t)[i]? = some .token ∧ ∃ d, t[i + 1]? = some d ∧ Text.isWord d = true := by
  induction t generalizing esc i with
  | nil => simp [marks, signs]
  | cons c r ih =>
    cases i with
    | zero =>
      rw [marks_cons, signs_cons, List.getElem?_cons_zero, List.getElem?_cons_zero,
        List.getElem?_cons_succ, ← startsKey_iff, Option.some.injEq, Option.some.injEq,
        mark_eq_token_iff]
    | succ i => exact ih _ i

theorem tokenAt_iff {t : Text} {i : Nat} : TokenAt t i ↔ (marks false t)[i]? = some .token := by
  rw [marks_getElem?_token, TokenAt, unescapedAt_token]

theorem count_marks_token (esc : Bool) (t : Text) :
    (marks esc t).count .token = countTokens esc t := by
  induction t generalizing esc with
  | nil => rfl
  | cons c r ih =>
    rw [marks_cons, List.count_cons, ih, countTokens_cons, Nat.add_comm]
    congr 1
    by_cases h : sign esc c = .token ∧ startsKey r = true
    · rw [mark_eq_token_iff.mpr h, h.1, h.2]
      rfl
    · have hm : ¬ mark esc c r = .token := fun hm => h (mark_eq_token_iff.mp hm)
      rw [if_neg (by simpa using hm), if_neg (by simpa using h)]

theorem count_marks_bracket {s : Sign} (h : s ≠ .token) (h' : s ≠ .plain) (t : Text) :
    (marks false t).count s = countOf s t := by
  have hmap : ∀ l : List Sign, (l.map bracketOf).count s = l.count s := by
    intro l
    rw [List.count, List.countP_map]
    refine List.countP_congr fun a _ => ?_
    simp [bracketOf_eq_iff h h']
  rw [← hmap, map_bracketOf_marks, hmap]
  rfl

/-! ## the outline of a template -/

section
variable {t : Text} {o : Outline}

/-- The pairs of the outline are the matching brackets. -/
theorem matched_iff (ho : o.word = marks false t) {p : Span} : Matched t p ↔ p ∈ o.spans 0 := by
  have hopen : ∀ i, (marks false t)[i]? = some .opening ↔ UnescapedAt t i '{' := fun i =>
    (marks_getElem?_bracket (by decide) (by decide) false t i).trans unescapedAt_opening.symm
  have hclose : ∀ i, (marks false t)[i]? = some .closing ↔ UnescapedAt t i '}' := fun i =>
    (marks_getElem?_bracket (by decide) (by decide) false t i).trans unescapedAt_closing.symm
  have hinside : BracketWord (p.inside (marks false t)) ↔ BracketWord (p.inside (signs false t)) := by
    refine bracketWord_congr ?_
    rw [← Span.inside_map, ← Span.inside_map, map_bracketOf_marks]
  rw [Outline.mem_spans_iff, ho]
  constructor
  · intro h
    have hfirst := (hopen _).mpr h.opens
    have hlast := (hclose _).mpr h.closes
    have hlen := (List.getElem?_eq_some_iff.mp hlast).1
    refine ⟨_, _, _, Span.split hfirst hlast h.lt, hinside.mpr h.between, ?_⟩
    have hu : 0 + ((marks false t).take p.first).length = p.first := by
      rw [List.length_take, Nat.zero_add, Nat.min_eq_left (Nat.le_of_lt (Nat.lt_trans h.lt hlen))]
    have hy : (p.inside (marks false t)).length = p.last - (p.first + 1) := by
      rw [Span.inside, List.length_drop, List.length_take, Nat.min_eq_left (Nat.le_of_lt hlen)]
    have hlt := h.lt
    have hlast' : p.first + (p.last - (p.first + 1)) + 1 = p.last := by omega
    rw [hu, hy, hlast']
  · rintro ⟨u, y, w, hw, hy, rfl⟩
    have hbetween : (⟨u.length, u.length + y.length + 1⟩ : Span).inside (marks false t) = y := by
      have htake : u.length + y.length + 1 = u.length + (y.length + 1) := by omega
      show ((marks false t).take (u.length + y.length + 1)).drop (u.length + 1) = y
      rw [hw, htake, List.take_length_add_append, List.drop_length_add_append]
      simp
    rw [Nat.zero_add, hbetween] at hinside
    rw [Nat.zero_add]
    refine ⟨(hopen _).mp ?_, (hclose _).mp ?_, ?_, hinside.mp hy⟩
    · rw [hw, List.getElem?_append_right (Nat.le_refl _), Nat.sub_self]
      rfl
    · have hge : u.length ≤ u.length + y.length + 1 := by omega
      have hat : u.length + y.length + 1 - u.length = y.length + 1 := by omega
      rw [hw, List.getElem?_append_right hge, hat, List.cons_append,
        List.getElem?_cons_succ, List.getElem?_append_right (Nat.le_refl _), Nat.sub_self]
      rfl
    · show u.length < u.length + y.length + 1
      omega

theorem tokenAt_iff_mem (ho : o.word = marks false t) {k : Nat} :
    TokenAt t k ↔ k ∈ o.word.idxsOf .token 0 := by
  rw [tokenAt_iff, Outline.mem_idxsOf_iff, ho]
  exact (and_iff_right (Nat.zero_le _)).symm

theorem ownToken_iff (ho : o.word = marks false t) {p : Span × Outline} (hp : p ∈ o.pairs 0)
    {k : Nat} : OwnToken t p.1 k ↔ k ∈ p.2.tokens (p.1.first + 1) := by
  rw [Outline.mem_tokens_inner_iff hp, ← tokenAt_iff_mem ho]
  constructor
  · intro h
    exact ⟨⟨h.token, h.within⟩, fun s hs => h.outside s ((matched_iff ho).mpr hs)⟩
  · rintro ⟨⟨htoken, hwithin⟩, hout⟩
    exact ⟨htoken, hwithin, fun q hq => hout q ((matched_iff ho).mp hq)⟩

/-- The tokens outside every pair are those of the outline's own level. -/
theorem covered_iff (ho : o.word = marks false t) :
    (∀ k, TokenAt t k → ∃ p, Matched t p ∧ p.Around k) ↔ o.own = 0 := by
  rw [← o.length_tokens 0, List.length_eq_zero_iff, List.eq_nil_iff_forall_not_mem]
  constructor
  · intro h k hk
    obtain ⟨htoken, hout⟩ := Outline.mem_tokens_iff.mp hk
    obtain ⟨p, hp, hwithin⟩ := h k ((tokenAt_iff_mem ho).mpr htoken)
    exact hout p ((matched_iff ho).mp hp) hwithin
  · intro h k hk
    by_contra hnone
    refine h k (Outline.mem_tokens_iff.mpr ⟨(tokenAt_iff_mem ho).mp hk, fun s hs hw => ?_⟩)
    exact hnone ⟨s, (matched_iff ho).mpr hs, hw⟩

theorem existsUnique_mem_iff {l : List Nat} (hl : l.Nodup) : (∃! k, k ∈ l) ↔ l.length = 1 := by
  constructor
  · rintro ⟨k, hk, huniq⟩
    have : l = [k] := List.perm_singleton.mp
      ((List.perm_ext_iff_of_nodup hl (List.nodup_singleton k)).mpr fun a =>
        ⟨fun ha => List.mem_singleton.mpr (huniq a ha), fun ha => List.mem_singleton.mp ha ▸ hk⟩)
    rw [this]
    rfl
  · intro h
    obtain ⟨k, rfl⟩ := List.length_eq_one_iff.mp h
    exact ⟨k, List.mem_singleton_self k, fun a ha => List.mem_singleton.mp ha⟩

theorem owned_iff (ho : o.word = marks false t) :
    (∀ p, Matched t p → ∃! k, OwnToken t p k) ↔ ∀ p ∈ o.pairs 0, p.2.own = 1 := by
  have hone : ∀ p ∈ o.pairs 0, (∃! k, OwnToken t p.1 k) ↔ p.2.own = 1 := by
    intro p hp
    rw [← p.2.length_tokens (p.1.first + 1), ← existsUnique_mem_iff (p.2.nodup_tokens _)]
    simp only [ownToken_iff ho hp]
  constructor
  · intro h p hp
    exact (hone p hp).mp (h p.1 ((matched_iff ho).mpr (List.mem_map_of_mem hp)))
  · intro h p hp
    obtain ⟨q, hq, rfl⟩ := List.mem_map.mp ((matched_iff ho).mp hp)
    exact (hone q hq).mpr (h q hq)

end

/-! ## the check with the pairs it pops -/

/-- The check of the brackets from column `i` on, with the pairs in the order in which it pops
them. -/
def popsFrom (i : Nat) (levels : List Level) : List Sign → Except TemplateError (List Span)
  | [] =>
    match levels with
    | [] => .ok []
    | l :: _ => .error (.unclosed l.start)
  | .opening :: r => popsFrom (i + 1) (⟨i, false⟩ :: levels) r
  | .closing :: r =>
    match levels with
    | [] => .error (.unmatched i)
    | l :: ls =>
      if l.owns then (popsFrom (i + 1) ls r).map (⟨l.start, i⟩ :: ·)
      else .error (.tokenless l.start)
  | .token :: r =>
    match levels with
    | [] => .error (.outside i)
    | l :: ls => popsFrom (i + 1) (⟨l.start, true⟩ :: ls) r
  | .plain :: r => popsFrom (i + 1) levels r

def pops (t : Text) : Except TemplateError (List Span) := popsFrom 0 [] (marks false t)

theorem checkNestingFrom_eq_pops (esc : Bool) (i : Nat) (levels : List Level) (t : Text) :
    checkNestingFrom esc i levels t = (popsFrom i levels (marks esc t)).map fun _ => () := by
  induction t generalizing esc i levels with
  | nil => cases levels <;> rfl
  | cons c r ih =>
    rw [marks_cons, mark]
    cases hs : sign esc c with
    | opening =>
      simp only [checkNestingFrom, hs]
      exact ih ..
    | closing =>
      simp only [checkNestingFrom, hs]
      cases levels with
      | nil => rfl
      | cons l ls =>
        show (if l.owns = true then checkNestingFrom _ _ ls r else _) =
          (if l.owns = true then (popsFrom (i + 1) ls _).map _ else _).map _
        rw [ih]
        by_cases hl : l.owns = true
        · rw [if_pos hl, if_pos hl]
          cases popsFrom (i + 1) ls (marks (c == '\\') r) <;> rfl
        · rw [if_neg hl, if_neg hl]
          rfl
    | token =>
      simp only [checkNestingFrom, hs]
      cases hk : startsKey r with
      | false => exact ih ..
      | true =>
        cases levels with
        | nil => rfl
        | cons l ls => exact ih ..
    | plain =>
      simp only [checkNestingFrom, hs]
      exact ih ..

/-- The check is the popping of the pairs, with the pairs forgotten. -/
theorem checkNesting_eq_pops (t : Text) : checkNesting t = (pops t).map fun _ => () :=
  checkNestingFrom_eq_pops false 0 [] t

theorem checkNesting_eq_ok_iff {t : Text} : checkNesting t = .ok () ↔ ∃ ps, pops t = .ok ps := by
  rw [checkNesting_eq_pops]
  cases pops t with
  | error e => exact ⟨fun h => (by cases h), fun ⟨_, h⟩ => (by cases h)⟩
  | ok ps => exact ⟨fun _ => ⟨ps, rfl⟩, fun _ => rfl⟩

theorem popsFrom_closing_iff {i : Nat} {levels : List Level} {r : List Sign} {ps : List Span} :
    popsFrom i levels (.closing :: r) = .ok ps ↔
      ∃ l ls ps', levels = l :: ls ∧ l.owns = true ∧ popsFrom (i + 1) ls r = .ok ps' ∧
        ps = ⟨l.start, i⟩ :: ps' := by
  constructor
  · intro h
    cases levels with
    | nil => cases h
    | cons l ls =>
      rw [popsFrom] at h
      split at h
      · next hl =>
        cases hps : popsFrom (i + 1) ls r with
        | error e =>
          rw [hps] at h
          cases h
        | ok ps' =>
          rw [hps] at h
          exact ⟨l, ls, ps', rfl, hl, hps, (Except.ok.inj h).symm⟩
      · cases h
  · rintro ⟨l, ls, ps', rfl, hl, h, rfl⟩
    rw [popsFrom, if_pos hl, h]
    rfl

/-- What the tokens of an outline's own level do to the open fragments; outside every fragment
there may be none. -/
def Outline.note (o : Outline) (levels : List Level) : Option (List Level) :=
  if o.own = 0 then some levels
  else
    match levels with
    | [] => none
    | l :: ls => some (⟨l.start, true⟩ :: ls)

theorem Outline.note_token (r : Outline) (l : Level) (ls : List Level) :
    (Outline.token r).note (l :: ls) = r.note (⟨l.start, true⟩ :: ls) := by
  show (if r.own + 1 = 0 then _ else _) = if r.own = 0 then _ else _
  rw [if_neg (Nat.succ_ne_zero _)]
  by_cases h : r.own = 0
  · rw [if_pos h]
  · rw [if_neg h]

theorem Outline.note_opened (a : Outline) (i : Nat) (levels : List Level) :
    a.note (⟨i, false⟩ :: levels) = some (⟨i, decide (0 < a.own)⟩ :: levels) := by
  unfold note
  split
  · next h => rw [h]; rfl
  · next h => rw [decide_eq_true (Nat.pos_of_ne_zero h)]

/-- A run over an outline goes on behind it exactly where every pair has a token of its own: it has
popped the pairs, and noted the tokens of the outline's own level. -/
theorem popsFrom_word {o : Outline} {i : Nat} {levels : List Level} {r : List Sign}
    {ps : List Span} :
    popsFrom i levels (o.word ++ r) = .ok ps ↔
      (∀ p ∈ o.pairs i, 0 < p.2.own) ∧ ∃ levels' ps', o.note levels = some levels' ∧
        popsFrom (i + o.size) levels' r = .ok ps' ∧ ps = o.pops i ++ ps' := by
  induction o generalizing i levels r ps with
  | nil =>
    constructor
    · intro h
      exact ⟨fun p hp => absurd hp List.not_mem_nil, levels, ps, rfl, h, rfl⟩
    · rintro ⟨_, levels', ps', hl, h, rfl⟩
      obtain rfl := Option.some.inj hl
      exact h
  | token a ih =>
    have hi : i + (Outline.token a).size = i + 1 + a.size := by
      rw [Outline.size_token]
      omega
    rw [hi]
    cases levels with
    | nil =>
      constructor
      · intro h
        cases h
      · rintro ⟨_, levels', ps', hl, _⟩
        cases hl
    | cons l ls =>
      rw [Outline.note_token]
      exact ih
  | plain a ih =>
    have hi : i + (Outline.plain a).size = i + 1 + a.size := by
      rw [Outline.size_plain]
      omega
    rw [hi]
    exact ih
  | pair a b iha ihb =>
    have hword : (Outline.pair a b).word ++ r = .opening :: (a.word ++ (.closing :: (b.word ++ r))) := by
      rw [Outline.word_pair]
      simp
    have hi : i + (Outline.pair a b).size = i + a.size + 2 + b.size := by
      rw [Outline.size_pair]
      omega
    have hclose : i + 1 + a.size = i + a.size + 1 := by omega
    have hpairs : (∀ p ∈ (Outline.pair a b).pairs i, 0 < p.2.own) ↔
        0 < a.own ∧ (∀ p ∈ a.pairs (i + 1), 0 < p.2.own) ∧
          ∀ p ∈ b.pairs (i + a.size + 2), 0 < p.2.own := by
      rw [Outline.pairs, List.forall_mem_cons, List.forall_mem_append]
    have hopened := a.note_opened i levels
    rw [hword, hi, hpairs, popsFrom, iha, hopened, hclose]
    constructor
    · rintro ⟨ha, _, _, hl, hafter, rfl⟩
      obtain rfl := Option.some.inj hl
      obtain ⟨l, ls, _, hls, howns, hrest, rfl⟩ := popsFrom_closing_iff.mp hafter
      obtain ⟨rfl, rfl⟩ := List.cons.inj hls
      obtain ⟨hb, levels', ps', hl', h, rfl⟩ := ihb.mp hrest
      refine ⟨⟨of_decide_eq_true howns, ha, hb⟩, levels', ps', hl', h, ?_⟩
      rw [Outline.pops, List.append_assoc, List.cons_append]
    · rintro ⟨⟨howns, ha, hb⟩, levels', ps', hl, h, rfl⟩
      refine ⟨ha, _, _, rfl, popsFrom_closing_iff.mpr ⟨_, _, _, rfl, decide_eq_true howns,
        ihb.mpr ⟨hb, levels', ps', hl, h, rfl⟩, rfl⟩, ?_⟩
      rw [Outline.pops, List.append_assoc, List.cons_append]

/-- The pairs that are popped are those of the outline. -/
theorem pops_eq_ok_iff {t : Text} {o : Outline} (ho : o.word = marks false t) {ps : List Span} :
    pops t = .ok ps ↔ (∀ p ∈ o.pairs 0, 0 < p.2.own) ∧ o.own = 0 ∧ ps = o.pops 0 := by
  rw [pops, ← ho, ← List.append_nil o.word, popsFrom_word]
  constructor
  · rintro ⟨hpairs, levels', ps', hl, h, rfl⟩
    have hown : o.own = 0 := by
      by_contra hne
      rw [Outline.note, if_neg hne] at hl
      cases hl
    rw [Outline.note, if_pos hown] at hl
    obtain rfl := Option.some.inj hl
    obtain rfl : [] = ps' := Except.ok.inj h
    exact ⟨hpairs, hown, List.append_nil _⟩
  · rintro ⟨hpairs, hown, rfl⟩
    exact ⟨hpairs, [], [], if_pos hown, rfl, (List.append_nil _).symm⟩

theorem exists_outline {t : Text} (h : BracketWord (signs false t)) :
    ∃ o : Outline, o.word = marks false t :=
  bracketWord_marks.mpr h

/-! ## both checks together -/

/-- Numbers that are all positive and add up to their number are all one. -/
theorem sum_eq_length_iff {l : List Nat} (h : ∀ n ∈ l, 0 < n) :
    l.sum = l.length ↔ ∀ n ∈ l, n = 1 := by
  have hle : ∀ {l : List Nat}, (∀ n ∈ l, 0 < n) → l.length ≤ l.sum := by
    intro l h
    induction l with
    | nil => exact Nat.le_refl _
    | cons n l ih =>
      obtain ⟨hn, hl⟩ := List.forall_mem_cons.mp h
      rw [List.length_cons, List.sum_cons]
      have := ih hl
      omega
  induction l with
  | nil => simp
  | cons n l ih =>
    obtain ⟨hn, hl⟩ := List.forall_mem_cons.mp h
    have hrest := hle hl
    rw [List.forall_mem_cons, List.length_cons, List.sum_cons]
    constructor
    · intro hs
      exact ⟨by omega, (ih hl).mp (by omega)⟩
    · rintro ⟨hone, hones⟩
      have := (ih hl).mpr hones
      omega

/-- With a token for every pair there are as many tokens as pairs only if no pair has two. -/
theorem checkCounts_iff_own {t : Text} {o : Outline} (ho : o.word = marks false t)
    (hpairs : ∀ p ∈ o.pairs 0, 0 < p.2.own) (hown : o.own = 0) :
    checkCounts t = .ok () ↔ ∀ p ∈ o.pairs 0, p.2.own = 1 := by
  have hopen : countOf .opening t = (o.pairs 0).length := by
    rw [← count_marks_bracket (by decide) (by decide), ← ho, o.count_opening_word 0]
  have hclose : countOf .opening t = countOf .closing t := by
    rw [← count_marks_bracket (by decide) (by decide), ← count_marks_bracket (by decide) (by decide),
      ← ho]
    have := nest_count (nest_word o 0)
    omega
  have htoken : countTokens false t = ((o.pairs 0).map fun p => p.2.own).sum := by
    rw [← count_marks_token, ← ho, o.count_token_word 0, hown, Nat.zero_add]
  have hsum := sum_eq_length_iff (l := (o.pairs 0).map fun p => p.2.own)
    (List.forall_mem_map.mpr hpairs)
  rw [List.length_map, List.forall_mem_map] at hsum
  rw [checkCounts_eq_ok_iff, ← hsum, hopen, htoken, ← hclose, hopen]
  constructor
  · rintro ⟨_, h⟩
    exact h.symm
  · intro h
    exact ⟨rfl, h.symm⟩

theorem check_iff_isWellFormed {t : Text} : check true t = .ok () ↔ IsWellFormed t := by
  rw [check_strict_eq_ok_iff, checkNesting_eq_ok_iff]
  constructor
  · rintro ⟨hcounts, hnesting⟩
    have hword : BracketWord (signs false t) :=
      bracketWord_iff.mpr (nest_of_checkNestingFrom (checkNesting_eq_ok_iff.mpr hnesting))
    obtain ⟨o, ho⟩ := exists_outline hword
    obtain ⟨ps, hps⟩ := hnesting
    obtain ⟨hpairs, hown, _⟩ := (pops_eq_ok_iff ho).mp hps
    exact ⟨hword, (covered_iff ho).mpr hown,
      (owned_iff ho).mpr ((checkCounts_iff_own ho hpairs hown).mp hcounts)⟩
  · rintro ⟨hword, hcovered, howned⟩
    obtain ⟨o, ho⟩ := exists_outline hword
    have hown := (covered_iff ho).mp hcovered
    have hone := (owned_iff ho).mp howned
    have hpairs : ∀ p ∈ o.pairs 0, 0 < p.2.own := fun p hp => (hone p hp).symm ▸ Nat.one_pos
    exact ⟨(checkCounts_iff_own ho hpairs hown).mpr hone, _,
      (pops_eq_ok_iff ho).mpr ⟨hpairs, hown, rfl⟩⟩

/-- The strict validation accepts the well-formed templates and refuses all others.  Either of its
two checks accepts more: `}{@a}{@b` has equal counts, and in `{@a@b}` the brackets match and hold a
token of their own. -/
theorem validate_strict :
    (∀ t, ((validate true t).outcome = .ok () ↔ IsWellFormed t) ∧
      (¬ IsWellFormed t → ∃ e, (validate true t).outcome = .error e)) ∧
    (∀ t, IsWellFormed t → checkCounts t = .ok () ∧ checkNesting t = .ok ()) ∧
    (∃ t, checkCounts t = .ok () ∧ ¬ IsWellFormed t) ∧
    ∃ t, checkNesting t = .ok () ∧ ¬ IsWellFormed t := by
  refine ⟨fun t => ⟨?_, fun h => ?_⟩, fun t h => ?_, ?_, ?_⟩
  · rw [validate_outcome, check_iff_isWellFormed]
  · rw [validate_outcome]
    cases hc : check true t with
    | ok => exact absurd (check_iff_isWellFormed.mp hc) h
    | error e => exact ⟨e, rfl⟩
  · exact check_strict_eq_ok_iff.mp (check_iff_isWellFormed.mpr h)
  · refine ⟨"\x7d\x7b@a\x7d\x7b@b".toList, by rfl, fun h => ?_⟩
    exact absurd (check_iff_isWellFormed.mpr h) (by decide)
  · refine ⟨"\x7b@a@b\x7d".toList, by rfl, fun h => ?_⟩
    exact absurd (check_iff_isWellFormed.mpr h) (by decide)

end Template
end Citations
