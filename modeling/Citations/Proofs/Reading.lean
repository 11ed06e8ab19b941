import Citations.Proofs.Passes
import Citations.Proofs.Replacing
import Mathlib.Data.List.Forall2

/-!
# Reading a text for its keys

A reader goes through a text once and stops where a key might become longer than it is written:
where a word character stands behind a key, with nothing but fragments between that may leave
nothing.  What a reader gets through stays readable whatever a pass makes of the fragments, so the
keys that the passes read are the keys that the reader has read.

* `Reader`, `Step`     the open fragments and the place in the innermost; what a character does;
* `Reads K esc r t z`  the reader `r` goes through `t`, meets only keys of `K` and ends as `z`;
* `Reader.Le`          a reader with less behind it, which reads at least as far, `Reads.mono`;
* `Readable K r t`     the reader gets as far as the brackets of `t` are closed;
* `Readable.exchange`  one exchange of a fragment text for what it becomes keeps that;
* `readable_of_pass`   so does a pass, and it is the same pass over all data that agree on `K`.
-/

namespace Citations
namespace Template

/-! ## readers -/

/-- What stands directly before a character. -/
inductive Place where
  /-- nothing that it could make longer -/
  | free
  /-- a key, as far as it has been read -/
  | key (read : Text)
  /-- a key, and behind it fragments that may leave nothing -/
  | behind
  deriving DecidableEq, Repr

/-- A fragment that is still open: whether it has shown its token, and whether it stands directly
behind a key. -/
structure Opened where
  owns : Bool
  behind : Bool
  deriving DecidableEq, Repr

/-- The open fragments, the innermost first, and the place in it. -/
structure Reader where
  levels : List Opened
  place : Place
  deriving DecidableEq, Repr

/-- The place behind a fragment, or at its start, by whether the fragment stands behind a key. -/
def Place.after : Bool → Place
  | false => .free
  | true => .behind

section
variable (K : Text → Prop)

/-- A place where no key goes on, and whether one ends there. -/
inductive Place.Settled : Place → Bool → Prop where
  | free : Place.Settled .free false
  | key {k : Text} (h : K k) : Place.Settled (.key k) true
  | behind : Place.Settled .behind true

/-- What a character of some sign does to a reader. -/
inductive Step : Sign → Char → Reader → Reader → Prop where
  | free {c : Char} {ls : List Opened} : Step .plain c ⟨ls, .free⟩ ⟨ls, .free⟩
  | longer {c : Char} {k : Text} {ls : List Opened} (hc : Text.isKeyChar c = true) :
      Step .plain c ⟨ls, .key k⟩ ⟨ls, .key (k ++ [c])⟩
  | ends {c : Char} {p : Place} {b : Bool} {ls : List Opened} (hc : Text.isKeyChar c = false)
      (h : Place.Settled K p b) : Step .plain c ⟨ls, p⟩ ⟨ls, .free⟩
  | opening {c : Char} {p : Place} {b : Bool} {ls : List Opened} (h : Place.Settled K p b) :
      Step .opening c ⟨ls, p⟩ ⟨⟨false, b⟩ :: ls, .after b⟩
  | token {c : Char} {b : Bool} {ls : List Opened} :
      Step .token c ⟨⟨false, b⟩ :: ls, .free⟩ ⟨⟨true, b⟩ :: ls, .key []⟩
  | closing {c : Char} {p : Place} {b b' : Bool} {ls : List Opened} (h : Place.Settled K p b') :
      Step .closing c ⟨⟨true, b⟩ :: ls, p⟩ ⟨ls, .after b⟩

/-- A reader goes through a text, with `esc` for a backslash directly before it. -/
inductive Reads : Bool → Reader → Text → Reader → Prop where
  | nil {esc : Bool} {r : Reader} : Reads esc r [] r
  | cons {esc : Bool} {c : Char} {t : Text} {r m z : Reader} (h : Step K (sign esc c) c r m)
      (hs : Reads (c == '\\') m t z) : Reads esc r (c :: t) z

end

section
variable {K : Text → Prop} {esc : Bool} {a b t : Text} {r m z : Reader}

theorem settled_after (b : Bool) : Place.Settled K (.after b) b := by
  cases b with
  | false => exact .free
  | true => exact .behind

theorem Place.Settled.unique {p : Place} {c d : Bool} (h : Place.Settled K p c)
    (h' : Place.Settled K p d) : c = d := by
  cases h <;> cases h' <;> rfl

theorem reads_nil : Reads K esc r [] z ↔ r = z := by
  constructor
  · rintro ⟨⟩
    rfl
  · rintro rfl
    exact .nil

theorem reads_cons {c : Char} :
    Reads K esc r (c :: t) z ↔ ∃ m, Step K (sign esc c) c r m ∧ Reads K (c == '\\') m t z := by
  constructor
  · rintro ⟨⟩
    exact ⟨_, ‹_›, ‹_›⟩
  · rintro ⟨m, h, hs⟩
    exact .cons h hs

theorem reads_append :
    Reads K esc r (a ++ b) z ↔ ∃ m, Reads K esc r a m ∧ Reads K (endsEscaping esc a) m b z := by
  induction a generalizing esc r with
  | nil =>
    constructor
    · exact fun h => ⟨r, .nil, h⟩
    · rintro ⟨m, h, hs⟩
      rw [reads_nil.mp h]
      exact hs
  | cons c a ih =>
    rw [List.cons_append, reads_cons]
    constructor
    · rintro ⟨m, hc, h⟩
      obtain ⟨m', ha, hb⟩ := ih.mp h
      exact ⟨m', .cons hc ha, hb⟩
    · rintro ⟨m', h, hb⟩
      obtain ⟨m, hc, ha⟩ := reads_cons.mp h
      exact ⟨m, hc, ih.mpr ⟨m', ha, hb⟩⟩

theorem Reads.append (ha : Reads K esc r a m) (hb : Reads K (endsEscaping esc a) m b z) :
    Reads K esc r (a ++ b) z :=
  reads_append.mpr ⟨m, ha, hb⟩

theorem reads_free {ls : List Opened} (h : IsPlain esc t) :
    Reads K esc ⟨ls, .free⟩ t ⟨ls, .free⟩ := by
  induction t generalizing esc with
  | nil => exact .nil
  | cons c t ih =>
    obtain ⟨hc, ht⟩ := isPlain_cons.mp h
    refine .cons ?_ (ih ht)
    rw [hc]
    exact .free

theorem reads_key {k key : Text} {ls : List Opened} (h : ∀ c ∈ key, Text.isKeyChar c = true) :
    Reads K esc ⟨ls, .key k⟩ key z ↔ z = ⟨ls, .key (k ++ key)⟩ := by
  induction key generalizing esc k with
  | nil => rw [reads_nil, List.append_nil, eq_comm]
  | cons c key ih =>
    obtain ⟨hc, hkey⟩ := List.forall_mem_cons.mp h
    have hsign : sign esc c = .plain := (isPlain_cons.mp (isPlain_key h esc)).1
    have hsplit : k ++ c :: key = k ++ [c] ++ key := by simp
    rw [reads_cons, hsign, hsplit, ← ih hkey]
    constructor
    · rintro ⟨m, hstep, hrest⟩
      cases hstep with
      | longer => exact hrest
      | ends hc' => rw [hc] at hc'; cases hc'
    · exact fun hrest => ⟨_, .longer hc, hrest⟩

end

/-! ## readers with less behind them -/

section
variable (K : Text → Prop)

/-- A place after which more can follow. -/
inductive Place.Le : Place → Place → Prop where
  | refl (p : Place) : Place.Le p p
  | free (p : Place) : Place.Le .free p
  | key {k : Text} (h : K k) : Place.Le (.key k) .behind

/-- The same fragments are open, with no more keys before them. -/
def OpenedLe (l l' : Opened) : Prop := l.owns = l'.owns ∧ (l.behind = true → l'.behind = true)

structure Reader.Le (r r' : Reader) : Prop where
  levels : List.Forall₂ OpenedLe r.levels r'.levels
  place : Place.Le K r.place r'.place

end

section
variable {K : Text → Prop} {p q s : Place} {b : Bool} {r r' z : Reader}

theorem Place.Le.trans (h : Place.Le K p q) (h' : Place.Le K q s) : Place.Le K p s := by
  cases h with
  | refl => exact h'
  | free => exact .free s
  | key hk =>
    cases h' with
    | refl => exact .key hk

theorem Place.Le.after {b b' : Bool} (h : b = true → b' = true) :
    Place.Le K (.after b) (.after b') := by
  cases b with
  | false => exact .free _
  | true =>
    rw [h rfl]
    exact .refl _

theorem Place.Settled.le (h : Place.Settled K p b) : Place.Le K p (.after b) := by
  cases h with
  | free => exact .refl _
  | key hk => exact .key hk
  | behind => exact .refl _

theorem Place.Settled.le_behind (h : Place.Settled K p b) : Place.Le K p .behind := by
  cases h with
  | free => exact .free _
  | key hk => exact .key hk
  | behind => exact .refl _

theorem Place.Settled.mono (h : Place.Settled K p b) (hq : Place.Le K q p) :
    ∃ b', Place.Settled K q b' ∧ (b' = true → b = true) := by
  cases hq with
  | refl => exact ⟨b, h, id⟩
  | free => exact ⟨false, .free, nofun⟩
  | key hk =>
    cases h with
    | behind => exact ⟨true, .key hk, id⟩

theorem OpenedLe.refl (l : Opened) : OpenedLe l l := ⟨rfl, id⟩

theorem OpenedLe.trans {l m n : Opened} (h : OpenedLe l m) (h' : OpenedLe m n) : OpenedLe l n :=
  ⟨h.1.trans h'.1, h'.2 ∘ h.2⟩

theorem forall₂_openedLe_refl (ls : List Opened) : List.Forall₂ OpenedLe ls ls :=
  List.forall₂_same.mpr fun l _ => .refl l

theorem Reader.Le.refl (r : Reader) : Reader.Le K r r := ⟨forall₂_openedLe_refl _, .refl _⟩

theorem Reader.Le.of_place (ls : List Opened) (h : Place.Le K p q) : Reader.Le K ⟨ls, p⟩ ⟨ls, q⟩ :=
  ⟨forall₂_openedLe_refl _, h⟩

theorem Reader.Le.trans {m : Reader} (h : Reader.Le K r m) (h' : Reader.Le K m z) :
    Reader.Le K r z := by
  refine ⟨?_, h.place.trans h'.place⟩
  have : ∀ {as bs cs : List Opened}, List.Forall₂ OpenedLe as bs → List.Forall₂ OpenedLe bs cs →
      List.Forall₂ OpenedLe as cs := by
    intro as bs cs hab hbc
    induction hab generalizing cs with
    | nil => exact hbc
    | cons hl _ ih =>
      cases hbc with
      | cons hl' hrest => exact .cons (hl.trans hl') (ih hrest)
  exact this h.levels h'.levels

/-- What one reader can do, a reader with less behind it can do. -/
theorem Step.mono {sg : Sign} {c : Char} (h : Step K sg c r z) (hr : Reader.Le K r' r) :
    ∃ z', Step K sg c r' z' ∧ Reader.Le K z' z := by
  obtain ⟨ls', p'⟩ := r'
  obtain ⟨hls, hp⟩ := hr
  cases h with
  | free =>
    cases hp with
    | refl | free => exact ⟨_, .free, hls, .refl _⟩
  | longer hc =>
    cases hp with
    | refl => exact ⟨_, .longer hc, hls, .refl _⟩
    | free => exact ⟨_, .free, hls, .free _⟩
  | ends hc hs =>
    obtain ⟨b', hs', _⟩ := hs.mono hp
    exact ⟨_, .ends hc hs', hls, .refl _⟩
  | opening hs =>
    obtain ⟨b', hs', hb⟩ := hs.mono hp
    exact ⟨_, .opening hs', .cons ⟨rfl, hb⟩ hls, .after hb⟩
  | token =>
    cases hls with
    | @cons l _ ls _ hl hls =>
      obtain ⟨owns, behind⟩ := l
      obtain ⟨rfl, hb⟩ := hl
      cases hp with
      | refl | free => exact ⟨_, .token, .cons ⟨rfl, hb⟩ hls, .refl _⟩
  | closing hs =>
    obtain ⟨b', hs', _⟩ := hs.mono hp
    cases hls with
    | @cons l _ ls _ hl hls =>
      obtain ⟨owns, behind⟩ := l
      obtain ⟨rfl, hb⟩ := hl
      exact ⟨_, .closing hs', hls, .after hb⟩

theorem Reads.mono {esc : Bool} {t : Text} (h : Reads K esc r t z) (hr : Reader.Le K r' r) :
    ∃ z', Reads K esc r' t z' ∧ Reader.Le K z' z := by
  induction h generalizing r' with
  | nil => exact ⟨r', .nil, hr⟩
  | cons hstep _ ih =>
    obtain ⟨m', hm, hle⟩ := hstep.mono hr
    obtain ⟨z', hz, hle'⟩ := ih hle
    exact ⟨z', .cons hm hz, hle'⟩

/-! ## what a text leaves open -/

/-- What reading can do to the fragments that stay open: the innermost may show its token. -/
inductive Shown : List Opened → List Opened → Prop where
  | same (ls : List Opened) : Shown ls ls
  | token {b : Bool} {ls : List Opened} : Shown (⟨false, b⟩ :: ls) (⟨true, b⟩ :: ls)

theorem Shown.trans {ls ms ns : List Opened} (h : Shown ls ms) (h' : Shown ms ns) :
    Shown ls ns := by
  cases h with
  | same => exact h'
  | token =>
    cases h' with
    | same => exact .token

theorem Shown.unique {b b' : Bool} {ls ms ns : List Opened} (h : Shown ls (⟨true, b⟩ :: ms))
    (h' : Shown ls (⟨true, b'⟩ :: ns)) : b = b' ∧ ms = ns := by
  cases h with
  | same =>
    cases h' with
    | same => exact ⟨rfl, rfl⟩
  | token =>
    cases h' with
    | token => exact ⟨rfl, rfl⟩

/-- A text works on the fragments that it opens and on the innermost of the others. -/
theorem Reads.levels {esc : Bool} {t : Text} (h : Reads K esc r t z) {d e : Nat}
    (hn : nest d (signs esc t) = some e) {hi lo : List Opened} (hl : r.levels = hi ++ lo)
    (hd : hi.length = d) : ∃ hi' lo', z.levels = hi' ++ lo' ∧ hi'.length = e ∧ Shown lo lo' := by
  induction h generalizing d hi lo with
  | nil =>
    refine ⟨hi, lo, hl, ?_, .same lo⟩
    rw [hd]
    exact Option.some.inj hn
  | @cons esc c t r m z hstep _ ih =>
    rw [signs_cons] at hn
    generalize sign esc c = sg at hstep hn
    cases hstep with
    | free => exact ih hn hl hd
    | longer => exact ih hn hl hd
    | ends => exact ih hn hl hd
    | @opening _ p b ls hs =>
      have hls : ⟨false, b⟩ :: ls = (⟨false, b⟩ :: hi) ++ lo := congrArg _ hl
      exact ih hn hls (congrArg Nat.succ hd)
    | @token _ b ls =>
      cases hi with
      | nil =>
        have hls : ⟨true, b⟩ :: ls = [] ++ ⟨true, b⟩ :: ls := rfl
        obtain ⟨hi', lo', hz, he, hshown⟩ := ih hn hls hd
        refine ⟨hi', lo', hz, he, ?_⟩
        rw [← show _ = lo from hl]
        exact Shown.token.trans hshown
      | cons l hi =>
        obtain ⟨rfl, rfl⟩ := List.cons.inj hl
        have hls : ⟨true, b⟩ :: (hi ++ lo) = (⟨true, b⟩ :: hi) ++ lo := rfl
        exact ih hn hls hd
    | @closing _ p b b' ls hs =>
      cases d with
      | zero => cases hn
      | succ d =>
        cases hi with
        | nil => cases hd
        | cons l hi =>
          obtain ⟨_, rfl⟩ := List.cons.inj hl
          exact ih hn rfl (Nat.succ.inj hd)

/-- Between brackets that match nothing but a token is shown. -/
theorem Reads.shown {x : Text} (hx : WellNested x) (h : Reads K false r x z) :
    Shown r.levels z.levels := by
  have hl : r.levels = [] ++ r.levels := rfl
  obtain ⟨hi, lo, hz, he, hshown⟩ := h.levels hx hl rfl
  rw [List.length_eq_zero_iff.mp he] at hz
  rw [show z.levels = lo from hz]
  exact hshown

/-! ## readable texts -/

/-- The fragment that the reader is in can end. -/
def Reader.CanClose (K : Text → Prop) (r : Reader) : Prop := ∃ z, Step K .closing '}' r z

theorem Reader.CanClose.mono (h : r.CanClose K) (hr : Reader.Le K r' r) : r'.CanClose K := by
  obtain ⟨z, hz⟩ := h
  obtain ⟨z', hz', _⟩ := hz.mono hr
  exact ⟨z', hz'⟩

variable (K r) in
/-- The reader gets as far as the brackets of the text are closed, and if that is to the end, the
fragment that it is in can end there. -/
structure Readable (t : Text) : Prop where
  depth : ∃ e, nest 0 (signs false t) = some e
  reads : ∀ a b, t = a ++ b → nest 0 (signs false a) = some 0 →
    ∃ z, Reads K false r a z ∧ (b = [] → z.CanClose K)

theorem Readable.of_reads {t : Text} (hn : ∃ e, nest 0 (signs false t) = some e)
    (h : Reads K false r t z) (hz : z.CanClose K) : Readable K r t := by
  refine ⟨hn, ?_⟩
  intro a b hab _
  rw [hab] at h
  obtain ⟨m, ha, hb⟩ := reads_append.mp h
  refine ⟨m, ha, ?_⟩
  rintro rfl
  rw [reads_nil.mp hb]
  exact hz

theorem signs_congr {e e' : Bool} {t : Text} (h : t ≠ [] → e = e') : signs e t = signs e' t := by
  cases t with
  | nil => rfl
  | cons c t => rw [h (by simp)]

theorem Reads.congr {e e' : Bool} {t : Text} (he : t ≠ [] → e = e') (h : Reads K e r t z) :
    Reads K e' r t z := by
  cases t with
  | nil =>
    rw [reads_nil.mp h]
    exact .nil
  | cons c t =>
    rw [← he (by simp)]
    exact h

/-! ## exchanging a part -/

variable (K) in
/-- What the exchange of `old` for `new` does to a reader, behind an escape or not: `k` brackets
more stay open, and with none more the reader has no more behind it. -/
structure Exchanged (k : Nat) (esc : Bool) (old new : Text) : Prop where
  depth : ∀ {d e : Nat}, nest d (signs esc old) = some e → nest d (signs esc new) = some (e + k)
  inner : ∀ {d e : Nat} {n n' : Text} {c : Char}, nest d (signs esc old) = some e →
    new = n ++ c :: n' → n ≠ [] → nest d (signs esc n) = some 0 → e + k = 0
  reads : k = 0 → ∀ {y z : Reader}, Reads K esc y old z →
    ∃ z', Reads K esc y new z' ∧ Reader.Le K z' z

/-- Where a part of a text ends that has an exchanged part in it. -/
theorem prefix_cases {u new w p q : Text} (h : u ++ new ++ w = p ++ q) :
    (∃ w', p = u ++ new ++ w' ∧ w = w' ++ q) ∨
    (∃ n c n', p = u ++ n ∧ new = n ++ c :: n' ∧ n ≠ []) ∨ (∃ u', u = p ++ u' ∧ q ≠ []) := by
  rw [List.append_assoc] at h
  rcases List.append_eq_append_iff.mp h with ⟨n, rfl, hn⟩ | ⟨u', rfl, rfl⟩
  · rcases List.append_eq_append_iff.mp hn with ⟨w', rfl, rfl⟩ | ⟨n', rfl, rfl⟩
    · exact Or.inl ⟨w', (List.append_assoc ..).symm, rfl⟩
    · cases n' with
      | nil => exact Or.inl ⟨[], by simp, rfl⟩
      | cons c n' =>
        by_cases hn : n = []
        · exact Or.inr (Or.inr ⟨[], by simp [hn], by simp⟩)
        · exact Or.inr (Or.inl ⟨n, c, n', rfl, rfl, hn⟩)
  · by_cases hq : u' ++ (new ++ w) = []
    · simp only [List.append_eq_nil_iff] at hq
      obtain ⟨rfl, rfl, rfl⟩ := hq
      exact Or.inl ⟨[], by simp, rfl⟩
    · exact Or.inr (Or.inr ⟨u', rfl, hq⟩)

theorem Readable.exchange {u old new w : Text} {k : Nat}
    (he : Exchanged K k (endsEscaping false u) old new)
    (hw : w ≠ [] →
      endsEscaping (endsEscaping false u) old = endsEscaping (endsEscaping false u) new)
    (h : Readable K r (u ++ old ++ w)) : Readable K r (u ++ new ++ w) := by
  obtain ⟨⟨e, hn⟩, hreads⟩ := h
  rw [List.append_assoc, signs_append, signs_append] at hn
  obtain ⟨d, hu, hn⟩ := nest_split hn
  obtain ⟨a, hold, hn⟩ := nest_split hn
  have hnew := he.depth hold
  refine ⟨⟨e + k, ?_⟩, ?_⟩
  · rw [List.append_assoc, signs_append, signs_append, nest_append_of hu, nest_append_of hnew,
      ← signs_congr hw]
    exact nest_add hn k
  · intro p q hpq hp
    rcases prefix_cases hpq with ⟨w', rfl, rfl⟩ | ⟨n, c, n', rfl, rfl, hne⟩ | ⟨u', rfl, hq⟩
    · -- behind the exchange
      have hw' : w' ≠ [] → endsEscaping (endsEscaping false u) old =
          endsEscaping (endsEscaping false u) new := fun hne => hw (by simp [hne])
      rw [List.append_assoc, signs_append, signs_append, nest_append_of hu, nest_append_of hnew,
        ← signs_congr hw'] at hp
      obtain ⟨i, hi, _⟩ := nest_split (signs_append _ w' q ▸ hn)
      obtain ⟨rfl, rfl⟩ : i = 0 ∧ k = 0 := by
        have := (nest_add hi k).symm.trans hp
        simpa using this
      have hdepth : nest 0 (signs false (u ++ old ++ w')) = some 0 := by
        rw [List.append_assoc, signs_append, signs_append, nest_append_of hu, nest_append_of hold]
        exact hi
      obtain ⟨z, hz, hclose⟩ := hreads (u ++ old ++ w') q (by simp) hdepth
      rw [List.append_assoc, reads_append] at hz
      obtain ⟨y, hy, hz⟩ := hz
      obtain ⟨m, hm, hz⟩ := reads_append.mp hz
      obtain ⟨m', hm', hle⟩ := he.reads rfl hm
      obtain ⟨z', hz', hle'⟩ := (hz.congr hw').mono hle
      refine ⟨z', ?_, fun hq => (hclose hq).mono hle'⟩
      rw [List.append_assoc]
      exact hy.append (hm'.append hz')
    · -- within it
      rw [signs_append, nest_append_of hu] at hp
      have hzero := he.inner hold rfl hne hp
      obtain ⟨rfl, rfl⟩ : a = 0 ∧ k = 0 := by omega
      have hdepth : nest 0 (signs false (u ++ old)) = some 0 := by
        rw [signs_append, nest_append_of hu]
        exact hold
      obtain ⟨z, hz, _⟩ := hreads (u ++ old) w rfl hdepth
      obtain ⟨y, hy, hz⟩ := reads_append.mp hz
      obtain ⟨z', hz', _⟩ := he.reads rfl hz
      obtain ⟨m, hm, _⟩ := reads_append.mp hz'
      refine ⟨m, hy.append hm, ?_⟩
      rintro rfl
      simp at hpq
    · -- before it
      obtain ⟨z, hz, _⟩ := hreads p (u' ++ old ++ w) (by simp) hp
      exact ⟨z, hz, fun h => absurd h hq⟩

end

/-! ## the token of a leaf -/

/-- No bracket of the text is a sign. -/
def Bracketless (esc : Bool) (t : Text) : Prop := ∀ s ∈ signs esc t, s = .plain ∨ s = .token

theorem bracketless_cons {esc : Bool} {c : Char} {t : Text} :
    Bracketless esc (c :: t) ↔
      (sign esc c = .plain ∨ sign esc c = .token) ∧ Bracketless (c == '\\') t := by
  rw [Bracketless, signs_cons, List.forall_mem_cons]
  rfl

theorem Bracketless.right {esc : Bool} {a b : Text} (h : Bracketless esc (a ++ b)) :
    Bracketless (endsEscaping esc a) b := by
  rw [Bracketless, signs_append] at h
  exact fun s hs => h s (List.mem_append_right _ hs)

theorem bracketless_leaf {x : Text} (hx : IsInterior x)
    (hl : isNested (Render.bracketed x) = false) : Bracketless false x := by
  have hclosing := List.count_eq_zero.mp (countFrom_closing_leaf hx hl)
  rw [isNested_bracketed hx.ends] at hl
  intro s hs
  cases s with
  | opening => simp [hs] at hl
  | closing => exact absurd hs hclosing
  | token => exact Or.inr rfl
  | plain => exact Or.inl rfl

section
variable {K : Text → Prop} {esc b : Bool} {ls : List Opened} {p : Place} {r z : Reader} {t x : Text}

theorem Step.levels_plain {c : Char} (h : Step K .plain c r z) : z.levels = r.levels := by
  cases h with
  | free | longer | ends => rfl

/-- Plain text is read in the same way whatever fragments are open. -/
theorem Reads.on_levels {p' : Place} {ls' : List Opened} (h : Reads K esc ⟨ls, p⟩ t ⟨ls', p'⟩)
    (ht : IsPlain esc t) (ms : List Opened) : Reads K esc ⟨ms, p⟩ t ⟨ms, p'⟩ := by
  induction t generalizing esc ls p with
  | nil =>
    cases reads_nil.mp h
    exact .nil
  | cons c t ih =>
    obtain ⟨hc, ht⟩ := isPlain_cons.mp ht
    obtain ⟨m, hstep, hrest⟩ := reads_cons.mp h
    refine reads_cons.mpr ?_
    rw [hc] at hstep ⊢
    cases hstep with
    | free => exact ⟨_, .free, ih hrest ht⟩
    | longer hkey => exact ⟨_, .longer hkey, ih hrest ht⟩
    | ends hkey hs => exact ⟨_, .ends hkey hs, ih hrest ht⟩

/-- A fragment that has shown its token shows no other. -/
theorem Reads.plain_of_owns (h : Reads K esc r t z) (hr : r.levels = ⟨true, b⟩ :: ls)
    (ht : Bracketless esc t) : IsPlain esc t := by
  induction h with
  | nil => exact isPlain_nil _
  | @cons esc c t r m z hstep _ ih =>
    obtain ⟨hc, ht⟩ := bracketless_cons.mp ht
    rcases hc with hc | hc
    · rw [hc] at hstep
      exact isPlain_cons.mpr ⟨hc, ih (hstep.levels_plain.trans hr) ht⟩
    · rw [hc] at hstep
      cases hstep with
      | token => cases hr

/-- A fragment that has shown its token showed it at a free place. -/
theorem Reads.token_of_shown {b' : Bool} {ls' : List Opened} (h : Reads K esc r t z)
    (hr : r.levels = ⟨false, b⟩ :: ls) (hz : z.levels = ⟨true, b'⟩ :: ls')
    (ht : Bracketless esc t) :
    ∃ u a, t = u ++ '@' :: a ∧ IsPlain esc u ∧ endsEscaping esc u = false ∧
      Reads K esc r u ⟨⟨false, b⟩ :: ls, .free⟩ ∧
      Reads K false ⟨⟨true, b⟩ :: ls, .key []⟩ a z := by
  induction h with
  | nil =>
    rw [hr] at hz
    cases hz
  | @cons esc c t r m z hstep hrest ih =>
    obtain ⟨hc, ht⟩ := bracketless_cons.mp ht
    rcases hc with hc | hc
    · rw [hc] at hstep
      obtain ⟨u, a, rfl, hu, he, hread, ha⟩ := ih (hstep.levels_plain.trans hr) hz ht
      refine ⟨c :: u, a, rfl, isPlain_cons.mpr ⟨hc, hu⟩, he, .cons ?_ hread, ha⟩
      rw [hc]
      exact hstep
    · obtain ⟨rfl, rfl⟩ := sign_eq_token_iff.mp hc
      rw [hc] at hstep
      cases hstep with
      | @token _ b₀ ls₀ =>
        obtain ⟨hb, rfl⟩ := List.cons.inj hr
        obtain rfl : b₀ = b := congrArg Opened.behind hb
        exact ⟨[], t, rfl, isPlain_nil _, rfl, .nil, hrest⟩

theorem token_mem_signs {k : Token} (h : firstToken? x = some k) : Sign.token ∈ signs false x := by
  rw [(firstToken?_spec h).signs]
  simp

/-- What a reader that gets through a leaf has met: plain text, the token with a key of `K`, and
plain text again. -/
structure ReadsToken (K : Text → Prop) (r : Reader) (x : Text) (k : Token) : Prop where
  token : firstToken? x = some k
  key : K k.key
  before : IsPlain false k.before
  after : IsPlain false k.after
  reads : Reads K false r k.before ⟨r.levels, .free⟩

/-- Where a fragment can end behind plain text, the key before that has been read to its end. -/
theorem Reads.key_settled {k : Text} {q : Place} {ls' : List Opened}
    (h : Reads K esc ⟨ls, .key k⟩ t ⟨ls', q⟩) (hs : Place.Settled K q b) (ht : IsPlain esc t) :
    K (k ++ t.takeWhile Text.isKeyChar) := by
  induction t generalizing esc k with
  | nil =>
    cases reads_nil.mp h
    cases hs with
    | key hk =>
      rw [List.takeWhile_nil, List.append_nil]
      exact hk
  | cons c t ih =>
    obtain ⟨hc, ht⟩ := isPlain_cons.mp ht
    obtain ⟨m, hstep, hrest⟩ := reads_cons.mp h
    rw [hc] at hstep
    cases hstep with
    | longer hkey =>
      have := ih hrest ht
      rw [List.append_assoc] at this
      rw [List.takeWhile_cons_of_pos hkey]
      exact this
    | ends hkey hs =>
      cases hs with
      | key hk =>
        rw [List.takeWhile_cons_of_neg (by rw [hkey]; decide), List.append_nil]
        exact hk

theorem startsKeyOrJoin_of_takeWhile (h : t.takeWhile Text.isKeyChar ≠ []) :
    startsKeyOrJoin t = true := by
  cases t with
  | nil => exact absurd rfl h
  | cons c t =>
    by_cases hc : Text.isKeyChar c = true
    · exact hc
    · exact absurd (List.takeWhile_cons_of_neg hc) h

/-- A leaf that can be read has its token, and the key of it is one of `K`. -/
theorem Reads.exists_token (hK : ¬ K []) (h : Reads K false ⟨⟨false, b⟩ :: ls, p⟩ x z)
    (hz : z.CanClose K) (hx : Bracketless false x) :
    ∃ k, ReadsToken K ⟨⟨false, b⟩ :: ls, p⟩ x k := by
  obtain ⟨z', hclose⟩ := hz
  cases hclose with
  | closing hs =>
    obtain ⟨u, a, rfl, hu, he, hread, ha⟩ := h.token_of_shown rfl rfl hx
    have hflat := hx.right
    rw [he] at hflat
    obtain ⟨_, hflat⟩ := bracketless_cons.mp hflat
    have hplain : IsPlain false a := ha.plain_of_owns rfl hflat
    have hk : K (a.takeWhile Text.isKeyChar) := ha.key_settled hs hplain
    rw [← List.takeWhile_append_dropWhile (p := Text.isKeyChar) (l := a)] at hplain
    have hafter := (isPlain_append.mp hplain).2
    rw [endsEscaping_key isKeyChar_of_mem_takeWhile] at hafter
    have hstart : startsKeyOrJoin a = true := by
      refine startsKeyOrJoin_of_takeWhile fun hnil => hK ?_
      rw [← hnil]
      exact hk
    exact ⟨_, firstToken?_append hu he hstart, hk, hu, hafter, hread⟩

end

/-! ## exchanging a leaf -/

theorem signs_bracketed_all (esc : Bool) (x : Text) :
    signs esc (Render.bracketed x) =
      sign esc '{' :: (signs false x ++ [sign (endsEscaping false x) '}']) := by
  rw [Render.bracketed, List.cons_append, signs_cons, signs_append]
  rfl

/-- Behind an escape a fragment text closes one bracket more than it opens. -/
theorem nest_bracketed_escaped {x : Text} (hx : IsInterior x) {d e : Nat}
    (h : nest d (signs true (Render.bracketed x)) = some e) : d = e + 1 := by
  rw [signs_bracketed_all, hx.ends] at h
  have h : nest d (signs false x ++ [.closing]) = some e := h
  rw [nest_append_of (hx.nest d)] at h
  cases d with
  | zero => cases h
  | succ d => exact congrArg Nat.succ (Option.some.inj h)

section
variable {K : Text → Prop} {x : Text} {y z : Reader}

theorem reads_bracketed {esc : Bool} (he : endsEscaping false x = false) :
    Reads K esc y (Render.bracketed x) z ↔
      ∃ m n, Step K (sign esc '{') '{' y m ∧ Reads K false m x n ∧ Step K .closing '}' n z := by
  rw [Render.bracketed, List.cons_append, reads_cons]
  constructor
  · rintro ⟨m, hm, h⟩
    obtain ⟨n, hn, h⟩ := reads_append.mp h
    obtain ⟨z', hz, h⟩ := reads_cons.mp h
    have he : endsEscaping ('{' == '\\') x = false := he
    rw [he] at hz
    rw [reads_nil.mp h] at hz
    exact ⟨m, n, hm, hn, hz⟩
  · rintro ⟨m, n, hm, hn, hz⟩
    have hlast : Reads K (endsEscaping ('{' == '\\') x) n ['}'] z := by
      refine .cons ?_ .nil
      rw [show endsEscaping ('{' == '\\') x = false from he]
      exact hz
    exact ⟨m, hm, hn.append hlast⟩

theorem IsPlain.nest_left {esc : Bool} {a b : Text} (h : IsPlain esc (a ++ b)) (d : Nat) :
    Template.nest d (signs esc a) = some d :=
  (isPlain_append.mp h).1.nest d

/-- A leaf that leaves nothing: what comes behind it may have a key before it. -/
theorem exchanged_leaf_nil (hx : IsInterior x) : Exchanged K 0 false (Render.bracketed x) [] := by
  refine ⟨?_, ?_, ?_⟩
  · intro d e h
    rw [nest_bracketed hx] at h
    exact h
  · intro d e n n' c _ h hn
    exact absurd (List.append_eq_nil_iff.mp h.symm).1 hn
  · intro _ y z h
    refine ⟨y, .nil, ?_⟩
    obtain ⟨m, n, hm, hn, hz⟩ := (reads_bracketed hx.ends).mp h
    cases hm with
    | opening hs =>
      have hshown := hn.shown hx.wellNested
      cases hz with
      | closing =>
        cases hshown with
        | token => exact .of_place _ hs.le

/-- A leaf with something in the place of its token: behind it is no key. -/
theorem exchanged_leaf (hK : ¬ K []) (hx : IsInterior x)
    (hl : isNested (Render.bracketed x) = false) {k : Token} (hk : firstToken? x = some k)
    {v : Text} (hv : IsPlain false v) (hve : endsEscaping false v = false)
    (hnew : IsPlain false (k.filledWith v)) :
    Exchanged K 0 false (Render.bracketed x) (k.filledWith v) := by
  refine ⟨?_, ?_, ?_⟩
  · intro d e h
    rw [nest_bracketed hx] at h
    rw [hnew.nest, h]
    rfl
  · intro d e n n' c h hsplit _ hn
    rw [hsplit] at hnew
    rw [hnew.nest_left] at hn
    rw [nest_bracketed hx] at h
    rw [Nat.add_zero, ← Option.some.inj h]
    exact Option.some.inj hn
  · intro _ y z h
    obtain ⟨m, n, hm, hn, hz⟩ := (reads_bracketed hx.ends).mp h
    cases hm with
    | @opening _ p b ls hs =>
      obtain ⟨k', hread⟩ := hn.exists_token hK ⟨_, hz⟩ (bracketless_leaf hx hl)
      obtain rfl : k' = k := Option.some.inj (hread.token.symm.trans hk)
      -- the text before the token is read as it stands, and what follows it stands behind it
      have hle : Reader.Le K ⟨ls, p⟩ ⟨ls, .after b⟩ := .of_place ls hs.le
      obtain ⟨⟨ls', p'⟩, hbefore, hls, hp⟩ := (hread.reads.on_levels hread.before ls).mono hle
      have hp : Place.Le K p' .free := hp
      have hrest : IsPlain false (v ++ k'.after) :=
        isPlain_append.mpr ⟨hv, by rw [hve]; exact hread.after⟩
      have hfree : Reads K (endsEscaping false k'.before) ⟨ls', .free⟩ (v ++ k'.after)
          ⟨ls', .free⟩ := reads_free (hrest.of_false _)
      have hshown := hn.shown hx.wellNested
      cases hz with
      | closing =>
        cases hshown with
        | token =>
          refine ⟨⟨ls', .free⟩, ?_, hls, .free _⟩
          rw [Token.filledWith, List.append_assoc]
          cases hp with
          | refl | free => exact hbefore.append hfree

/-- Behind an escape a plain text in the place of a fragment text leaves a bracket open. -/
theorem exchanged_escaped (hx : IsInterior x) {new : Text} (hnew : IsPlain false new) :
    Exchanged K 1 true (Render.bracketed x) new := by
  refine ⟨?_, ?_, nofun⟩
  · intro d e h
    rw [(hnew.of_false true).nest, nest_bracketed_escaped hx h]
  · intro d e n n' c h hsplit _ hn
    rw [hsplit] at hnew
    rw [(hnew.of_false true).nest_left, nest_bracketed_escaped hx h] at hn
    cases hn

theorem nest_gap (hx : IsInterior x) {c : Char} {d e : Nat}
    (h : nest d (signs true (Render.bracketed x ++ [c])) = some e) :
    ∃ m, d = m + 1 ∧ nest m [sign false c] = some e := by
  rw [signs_append, endsEscaping_bracketed] at h
  obtain ⟨m, hm, h⟩ := nest_split h
  exact ⟨m, nest_bracketed_escaped hx hm, h⟩

theorem eq_nil_of_singleton {c d : Char} {n n' : Text} (h : [c] = n ++ d :: n') : n = [] := by
  cases n with
  | nil => rfl
  | cons _ n => simp at h

/-- Where nothing is left behind an escape, the next character is escaped: the brackets that the
fragment text and this character closed stay open. -/
theorem exchanged_gap (hx : IsInterior x) {c : Char} {i : Nat}
    (hi : ∀ m e, nest m [sign false c] = some e → m + 1 = e + i) (hne : i ≠ 0) :
    Exchanged K i true (Render.bracketed x ++ [c]) [c] := by
  refine ⟨?_, fun _ h hn => absurd (eq_nil_of_singleton h) hn, fun h => absurd h hne⟩
  intro d e h
  obtain ⟨m, rfl, hm⟩ := nest_gap hx h
  rw [← hi m e hm]
  rfl

/-- Only a `{` finds the brackets as they were, and it then belongs to the fragment around it. -/
theorem exchanged_gap_opening (hx : IsInterior x) (hl : isNested (Render.bracketed x) = false)
    {k : Token} (hk : firstToken? x = some k) :
    Exchanged K 0 true (Render.bracketed x ++ ['{']) ['{'] := by
  refine ⟨?_, fun _ h hn => absurd (eq_nil_of_singleton h) hn, ?_⟩
  · intro d e h
    obtain ⟨m, rfl, hm⟩ := nest_gap hx h
    rw [← Option.some.inj hm]
    rfl
  · intro _ y z h
    obtain ⟨m, hm, hz⟩ := reads_append.mp h
    rw [endsEscaping_bracketed] at hz
    obtain ⟨⟨L, p⟩, m₂, hm₁, hm₂, hm⟩ := (reads_bracketed hx.ends).mp hm
    obtain ⟨z', hz, hnil⟩ := reads_cons.mp hz
    cases reads_nil.mp hnil
    -- the escaped bracket is no character of a key
    obtain rfl : p = .free := by
      cases hm₁ with
      | free | ends => rfl
      | longer hc => exact absurd hc (by decide)
    refine ⟨_, .cons hm₁ .nil, ?_⟩
    have hshown := hm₂.shown hx.wellNested
    cases hm with
    | @closing _ q b b' ls _ =>
      cases hz with
      | opening hs =>
        cases hs.unique (settled_after b)
        cases hshown with
        | same =>
          -- the fragment around has shown a token of its own, so `x` cannot show another
          have hplain := hm₂.plain_of_owns rfl (bracketless_leaf hx hl)
          exact absurd (hplain _ (token_mem_signs hk)) (by decide)
        | token => exact .of_place _ (.free _)

theorem exists_exchanged_gap (hx : IsInterior x) (hl : isNested (Render.bracketed x) = false)
    {k : Token} (hk : firstToken? x = some k) (c : Char) :
    ∃ i, Exchanged K i true (Render.bracketed x ++ [c]) [c] := by
  cases hs : sign false c with
  | opening =>
    obtain ⟨_, rfl⟩ := sign_eq_opening_iff.mp hs
    exact ⟨0, exchanged_gap_opening hx hl hk⟩
  | closing =>
    refine ⟨2, exchanged_gap hx ?_ (by decide)⟩
    intro m e h
    rw [hs] at h
    cases m with
    | zero => cases h
    | succ m => exact congrArg (· + 2) (Option.some.inj h)
  | token | plain =>
    refine ⟨1, exchanged_gap hx ?_ (by decide)⟩
    intro m e h
    rw [hs] at h
    exact congrArg (· + 1) (Option.some.inj h)

/-! ## exchanging an interior -/

theorem nest_bracketed_start (hx : IsInterior x) {esc : Bool} {d e : Nat}
    (h : nest d (signs esc (Render.bracketed x)) = some e) :
    nest d [sign esc '{'] = some (e + 1) := by
  cases esc with
  | false =>
    rw [nest_bracketed hx] at h
    rw [← Option.some.inj h]
    rfl
  | true => exact congrArg some (nest_bracketed_escaped hx h)

/-- What stays open behind an interior and the bracket that should close it. -/
theorem nest_interior_end {x' : Text} {i : Nat} (hi : nest 0 (signs false x') = some i) (d : Nat) :
    nest (d + 1) (signs false x' ++ [sign (endsEscaping false x') '}']) =
      some (d + (i + if endsEscaping false x' then 1 else 0)) := by
  have hdepth := nest_add hi (d + 1)
  rw [Nat.zero_add] at hdepth
  rw [nest_append_of hdepth]
  cases endsEscaping false x' with
  | false => exact congrArg some (by omega : i + d = d + (i + 0))
  | true => exact congrArg some (by omega : i + (d + 1) = d + (i + 1))

/-- With matching brackets in the new interior the fragment is read as before. -/
theorem Reads.exchange_interior {x' : Text} {esc : Bool} (hx : IsInterior x) (hx' : IsInterior x')
    (hr : ∀ r, Readable K r x → Readable K r x') (h : Reads K esc y (Render.bracketed x) z) :
    Reads K esc y (Render.bracketed x') z := by
  obtain ⟨m, n, hm, hn, hz⟩ := (reads_bracketed hx.ends).mp h
  have hread := hr m (.of_reads ⟨0, hx.wellNested⟩ hn ⟨z, hz⟩)
  obtain ⟨n', hn', hclose⟩ := hread.reads x' [] (List.append_nil _).symm hx'.wellNested
  obtain ⟨z', hz'⟩ := hclose rfl
  have hsame : z' = z := by
    -- both close the fragment that was open before the interior
    have hshown := hn.shown hx.wellNested
    have hshown' := hn'.shown hx'.wellNested
    cases hz with
    | closing =>
      cases hz' with
      | closing =>
        obtain ⟨rfl, rfl⟩ := hshown.unique hshown'
        rfl
  rw [hsame] at hz'
  exact (reads_bracketed hx'.ends).mpr ⟨m, n', hm, hn', hz'⟩

/-- A fragment whose interior stays readable: where its brackets do not match any more, more of
them stay open. -/
theorem exchanged_nested {x' : Text} {i : Nat} (hx : IsInterior x)
    (hi : nest 0 (signs false x') = some i) (hr : ∀ r, Readable K r x → Readable K r x')
    (esc : Bool) :
    Exchanged K (i + if endsEscaping false x' then 1 else 0) esc (Render.bracketed x)
      (Render.bracketed x') := by
  have hcons : ∀ {d e} (ss : List Sign), nest d (signs esc (Render.bracketed x)) = some e →
      nest d (sign esc '{' :: ss) = nest (e + 1) ss := fun ss h =>
    nest_append_of (nest_bracketed_start hx h)
  refine ⟨?_, ?_, ?_⟩
  · intro d e h
    rw [signs_bracketed_all, hcons _ h]
    exact nest_interior_end hi e
  · -- with the first bracket and a part of the interior one bracket at least is open
    intro d e n n' c h hsplit hne hn
    obtain ⟨n, rfl⟩ : ∃ m, n = '{' :: m := by
      cases n with
      | nil => exact absurd rfl hne
      | cons d m => exact ⟨m, by rw [(List.cons.inj hsplit).1]⟩
    obtain ⟨q, rfl⟩ : ∃ q, x' = n ++ q := by
      have hsplit : x' ++ ['}'] = n ++ c :: n' := (List.cons.inj hsplit).2
      rcases List.append_eq_append_iff.mp hsplit with ⟨q, rfl, hq⟩ | ⟨q, hq, _⟩
      · cases q with
        | nil => exact ⟨[], by simp⟩
        | cons d q => simp at hq
      · exact ⟨q, hq⟩
    rw [signs_append] at hi
    obtain ⟨j, hj, _⟩ := nest_split hi
    have hdepth := nest_add hj (e + 1)
    rw [Nat.zero_add] at hdepth
    rw [signs_cons, hcons _ h] at hn
    exact absurd (Option.some.inj (hdepth.symm.trans hn)) (by omega)
  · intro hzero y z h
    obtain ⟨rfl, he⟩ : i = 0 ∧ endsEscaping false x' = false := by
      cases he : endsEscaping false x' <;> simp [he] at hzero ⊢
      exact hzero
    exact ⟨z, h.exchange_interior hx ⟨hi, he⟩ hr, .refl _⟩

/-! ## readable texts under a pass -/

variable {r : Reader} {u w : Text}

theorem Readable.exchange_leaf (hK : ¬ K []) (hx : IsInterior x)
    (hl : isNested (Render.bracketed x) = false) {k : Token} (hk : firstToken? x = some k)
    {new v : Text} (hnew : new = [] ∨ new = k.filledWith v)
    (hv : IsPlain false v) (hve : endsEscaping false v = false)
    (hplain : IsPlain false new) (hends : endsEscaping false new = false)
    (h : Readable K r (u ++ Render.bracketed x ++ w)) : Readable K r (u ++ new ++ w) := by
  have hold : ∀ esc, endsEscaping esc (Render.bracketed x) = false := fun esc =>
    endsEscaping_bracketed esc x
  cases hu : endsEscaping false u with
  | false =>
    have hw : w ≠ [] → endsEscaping (endsEscaping false u) (Render.bracketed x) =
        endsEscaping (endsEscaping false u) new := by
      intro _
      rw [hold, hu, hends]
    refine h.exchange (k := 0) ?_ hw
    rw [hu]
    rcases hnew with rfl | rfl
    · exact exchanged_leaf_nil hx
    · exact exchanged_leaf hK hx hl hk hv hve hplain
  | true =>
    by_cases hne : new = []
    · subst hne
      cases w with
      | nil =>
        refine h.exchange (k := 1) ?_ (absurd rfl)
        rw [hu]
        exact exchanged_escaped hx hplain
      | cons c w =>
        obtain ⟨i, hi⟩ := exists_exchanged_gap (K := K) hx hl hk c
        have hsplit :
            u ++ (Render.bracketed x ++ [c]) ++ w = u ++ Render.bracketed x ++ c :: w := by
          simp
        rw [← hsplit] at h
        have := h.exchange (hu ▸ hi) fun _ => by
          rw [endsEscaping_append, hold, hu]
          rfl
        simpa using this
    · refine h.exchange (k := 1) ?_ fun _ => ?_
      · rw [hu]
        exact exchanged_escaped hx hplain
      · rw [hold, hu, endsEscaping_of_ne_nil _ hne, hends]

theorem Readable.exchange_nested {x' : Text} (hx : IsInterior x)
    (hr : ∀ r, Readable K r x → Readable K r x') (hx' : ∃ i, nest 0 (signs false x') = some i)
    (h : Readable K r (u ++ Render.bracketed x ++ w)) :
    Readable K r (u ++ Render.bracketed x' ++ w) := by
  obtain ⟨i, hi⟩ := hx'
  refine h.exchange (exchanged_nested hx hi hr _) fun _ => ?_
  rw [endsEscaping_bracketed, endsEscaping_bracketed]

/-- A reader comes to every fragment of a readable text and gets through its interior. -/
theorem Readable.interior {t : Text} {s : Span} (h : Readable K r t) (hp : SpanAt t s u x w) :
    ∃ b ls z, Reads K false ⟨⟨false, b⟩ :: ls, .after b⟩ x z ∧ z.CanClose K := by
  obtain ⟨e, hn⟩ := h.depth
  rw [hp.text, List.append_assoc, signs_append] at hn
  obtain ⟨d, hu, _⟩ := nest_split hn
  obtain rfl : d = 0 := (depthFrom_of_nest hu).symm.trans hp.depth
  have hdepth : nest 0 (signs false (u ++ Render.bracketed x)) = some 0 := by
    rw [signs_append, nest_append_of hu, hp.ends]
    exact nest_bracketed hp.interior 0
  obtain ⟨z, hz, _⟩ := h.reads _ w hp.text hdepth
  obtain ⟨y, _, hz⟩ := reads_append.mp hz
  rw [hp.ends] at hz
  obtain ⟨m, n, hm, hn, hclose⟩ := (reads_bracketed hp.interior.ends).mp hz
  cases hm with
  | opening => exact ⟨_, _, n, hn, z, hclose⟩

end

end Template

namespace Render
open Template

section
variable {c c' : Context}

/-- The keys for which two contexts show the same. -/
def Agree (c c' : Context) (key : Text) : Prop := key ≠ [] ∧ c.resolve key = c'.resolve key

/-- What a leaf that is readable becomes over one context it becomes over the other, and it can
stand in its place. -/
theorem Expands.readable (hd : c.options.debug = false) (hd' : c'.options.debug = false)
    {x new : Text} (h : Expands c x new) (hx : IsInterior x)
    (hl : isNested (bracketed x) = false) {k : Token} (hk : firstToken? x = some k)
    (hkey : Agree c c' k.key) (hb : IsPlain false k.before) (ha : IsPlain false k.after) :
    Expands c' x new ∧ ∀ r u w, Readable (Agree c c') r (u ++ bracketed x ++ w) →
      Readable (Agree c c') r (u ++ new ++ w) := by
  have hnone : ¬ Agree c c' [] := fun h => h.1 rfl
  have hcut := firstToken?_spec hk
  have hends : endsEscaping false k.after = false := by
    have := hx.ends
    rw [hcut.text, endsEscaping_append, endsEscaping_append, hcut.ends] at this
    have htoken : endsEscaping false ('@' :: k.key) = false :=
      (endsEscaping_key hcut.key_chars : endsEscaping false k.key = false)
    rwa [htoken] at this
  cases h with
  | whole h =>
    rw [hk] at h
    cases h
  | @filled k' shown h hs =>
    obtain rfl : k' = k := Option.some.inj (h.symm.trans hk)
    cases hs with
    | placeholder _ hdebug =>
      rw [hd] at hdebug
      cases hdebug
    | value hne =>
      refine ⟨?_, fun r u w => Readable.exchange_leaf hnone hx hl hk (Or.inr rfl)
        (isPlain_escape _ _) (endsEscaping_escape _) ?_ ?_⟩
      · rw [hkey.2] at hne ⊢
        exact .filled hk (.value hne)
      · refine isPlain_append.mpr ⟨isPlain_append.mpr ⟨hb, isPlain_escape _ _⟩, ?_⟩
        rw [endsEscaping_append, hcut.ends, endsEscaping_escape]
        exact ha
      · rw [Token.filledWith, endsEscaping_append, endsEscaping_append, hcut.ends,
          endsEscaping_escape, hends]
  | @removed k' h hv =>
    obtain rfl : k' = k := Option.some.inj (h.symm.trans hk)
    refine ⟨.removed hk (hkey.2 ▸ hv) hd', fun r u w => Readable.exchange_leaf hnone hx hl hk
      (Or.inl rfl) (isPlain_nil false) rfl (isPlain_nil _) rfl⟩

/-- A text that can be read stays so under a pass, which is the same over both contexts. -/
def Carries (c c' : Context) (t t' : Text) : Prop :=
  ∀ r, Readable (Agree c c') r t →
    Readable (Agree c c') r t' ∧ (pass c' t).outcome = .ok t'

/-- What becomes of a fragment text over the other context, and can stand in its place. -/
structure Keeps (c c' : Context) (old new : Text) : Prop where
  ne_nil : old ≠ []
  solves : Solves c' old new
  exchange : ∀ r u w, Readable (Agree c c') r (u ++ old ++ w) →
    Readable (Agree c c') r (u ++ new ++ w)

theorem keeps_of_pair (hd : c.options.debug = false) (hd' : c'.options.debug = false)
    {r : Reader} {t old new : Text} (ht : Readable (Agree c c') r t)
    (h : Pair c (Carries c c') t old new) : Keeps c c' old new := by
  have hnone : ¬ Agree c c' [] := fun h => h.1 rfl
  cases h with
  | nested hf hn h ih =>
    obtain ⟨_, s, u, x, w, hspan, rfl⟩ := exists_of_mem_openTexts hf
    obtain ⟨b, ls, z, hz, hclose⟩ := ht.interior hspan
    rw [interior_bracketed] at ih
    have hx : Readable (Agree c c') ⟨⟨false, b⟩ :: ls, .after b⟩ x :=
      .of_reads ⟨0, hspan.interior.wellNested⟩ hz hclose
    obtain ⟨hx', hpass⟩ := ih _ hx
    refine ⟨bracketed_ne_nil x, .nested hn (by rwa [interior_bracketed]), ?_⟩
    intro r u w
    exact Readable.exchange_nested hspan.interior (fun r h => (ih r h).1) hx'.depth
  | leaf hf hn h =>
    obtain ⟨_, s, u, x, w, hspan, rfl⟩ := exists_of_mem_openTexts hf
    obtain ⟨b, ls, z, hz, hclose⟩ := ht.interior hspan
    obtain ⟨k, hk⟩ := hz.exists_token hnone hclose (bracketless_leaf hspan.interior hn)
    rw [interior_bracketed] at h
    obtain ⟨hsame, hexchange⟩ :=
      h.readable hd hd' hspan.interior hn hk.token hk.key hk.before hk.after
    exact ⟨bracketed_ne_nil x, .leaf hn (by rwa [interior_bracketed]), hexchange⟩

/-- A pass keeps a text readable, and over all data that agree on the keys it is the same pass. -/
theorem readable_of_pass (hd : c.options.debug = false) (hd' : c'.options.debug = false)
    {t t' : Text} (h : (pass c t).outcome = .ok t') : Carries c c' t t' := by
  refine pass_induction c (motive := Carries c c') (fun t solved htexts hpairs r ht => ?_) h
  have hkeeps : ∀ p ∈ solved, Keeps c c' p.1 p.2 := fun p hp =>
    keeps_of_pair hd hd' ht (hpairs p hp)
  constructor
  · exact Text.replaceAll_preserves (P := Readable (Agree c c') r)
      (fun p hp => (hkeeps p hp).ne_nil) (fun p hp u w => (hkeeps p hp).exchange r u w) ht
  · exact (pass_outcome c').mpr ⟨solved, ⟨htexts, fun p hp => (hkeeps p hp).solves⟩, rfl⟩

end

end Render
end Citations
