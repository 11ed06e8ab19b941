import Citations.Proofs.Brackets

/-!
# Escaping as one scan

The escaper replaces one special after the other.  For specials of one character each that is the
same as going through the text once.

* `shielded k t`       `t` with backslashes before its characters, `k d` of them before a `d`;
                       `escape_eq_shielded` for any list of characters;
* `escapeChar cs`      what a character becomes if the specials are all different,
                       `escape_eq_flatMap`;
* `dropEscapes cs`     a text without the backslashes directly before a special,
                       `unescape_eq_dropEscapes`;
* `dropEscapes_append` the scan of two texts put together, where the seam escapes nothing, and with
                       it `unescape_join`;
* `isPlain_escape`     an inserted value has no sign of its own, and `endsEscaping_escape` it
                       escapes nothing behind it;
* `NoEscapedOpening`   no `{` of a text stands directly behind a backslash.
-/

namespace Citations

theorem forall_mem_of_all {α : Type} {p : α → Prop} [DecidablePred p] {l : List α}
    (h : (l.all fun a => decide (p a)) = true) : ∀ a ∈ l, p a := by
  simpa using h

/-! ## replacing a character -/

namespace Text

theorem replace_singleton (c : Char) (new t : Text) :
    replace [c] new t = t.flatMap fun d => if d = c then new else [d] := by
  induction t with
  | nil => exact replace_nil_right new (by simp)
  | cons d r ih =>
    rw [List.flatMap_cons, ← ih]
    by_cases h : d = c
    · rw [if_pos h, h]
      exact replace_append_self new r (by simp)
    · rw [if_neg h]
      refine replace_cons new (by simp) fun hp => ?_
      exact h (List.cons_prefix_cons.mp hp).1.symm

end Text

namespace Escaper

def ofChars (cs : List Char) : Escaper := ⟨cs.map fun c => [c]⟩

def syntaxChars : List Char := ['{', '}', '@']

/-! ## escape -/

def escapeSpecial (cs : List Char) (d : Char) : Text := if d ∈ cs then ['\\', d] else [d]

/-- What a character of a value becomes. -/
def escapeChar (cs : List Char) (d : Char) : Text :=
  if d = '\\' then [parked] else escapeSpecial cs d

/-- The text with `k d` backslashes directly before each character `d`. -/
def shielded (k : Char → Nat) (t : Text) : Text :=
  t.flatMap fun d => List.replicate (k d) '\\' ++ [d]

theorem shielded_cons (k : Char → Nat) (d : Char) (r : Text) :
    shielded k (d :: r) = List.replicate (k d) '\\' ++ d :: shielded k r := by
  unfold shielded
  rw [List.flatMap_cons, List.append_assoc]
  rfl

theorem shielded_concat (k : Char → Nat) (t : Text) (d : Char) :
    shielded k (t ++ [d]) = shielded k t ++ List.replicate (k d) '\\' ++ [d] := by
  unfold shielded
  rw [List.flatMap_append, List.append_assoc]
  simp

theorem shielded_zero (t : Text) : shielded (fun _ => 0) t = t :=
  List.flatMap_singleton' t

/-- One replacement puts one more backslash before its character. -/
theorem replace_shielded {c : Char} (hc : c ≠ '\\') (k : Char → Nat) (t : Text) :
    Text.replace [c] ['\\', c] (shielded k t) =
      shielded (fun d => k d + if c = d then 1 else 0) t := by
  have hback : ∀ n, (List.replicate n '\\').flatMap (fun e => if e = c then ['\\', c] else [e]) =
      List.replicate n '\\' := by
    intro n
    induction n with
    | zero => rfl
    | succ n ih => rw [List.replicate_succ, List.flatMap_cons, ih, if_neg hc.symm]; rfl
  rw [Text.replace_singleton]
  unfold shielded
  rw [List.flatMap_assoc]
  congr 1
  funext d
  rw [List.flatMap_append, hback, List.flatMap_singleton]
  show _ = List.replicate (k d + if c = d then 1 else 0) '\\' ++ [d]
  by_cases hd : d = c
  · rw [if_pos hd, if_pos hd.symm, List.replicate_succ', hd, List.append_assoc]
    rfl
  · rw [if_neg hd, if_neg (Ne.symm hd)]
    rfl

/-- A character gets a backslash each time it is among the specials. -/
theorem replaceAll_shielded {cs : List Char} (hb : '\\' ∉ cs) (k : Char → Nat) (t : Text) :
    Text.replaceAll (ofChars cs).escapePairs (shielded k t) =
      shielded (fun d => k d + cs.count d) t := by
  induction cs generalizing k with
  | nil => rfl
  | cons c cs ih =>
    have hc : c ≠ '\\' := fun h => hb (h ▸ List.mem_cons_self)
    have hb' : '\\' ∉ cs := fun h => hb (List.mem_cons_of_mem _ h)
    show Text.replaceAll (ofChars cs).escapePairs (Text.replace [c] ['\\', c] (shielded k t)) = _
    rw [replace_shielded hc, ih hb']
    congr 1
    funext d
    rw [List.count_cons, Nat.add_assoc, Nat.add_comm (cs.count d)]
    simp only [beq_iff_eq]

def park (d : Char) : Char := if d = '\\' then parked else d

theorem escape_eq_shielded {cs : List Char} (hb : '\\' ∉ cs) (t : Text) :
    (ofChars cs).escape t = shielded cs.count (t.map park) := by
  have hpark : Text.replace ['\\'] [parked] t = t.map park := by
    rw [Text.replace_singleton, List.map_eq_flatMap]
    congr 1
    funext d
    unfold park
    split <;> rfl
  have hall := replaceAll_shielded hb (fun _ => 0) (t.map park)
  rw [shielded_zero] at hall
  rw [escape, hpark, hall]
  simp only [Nat.zero_add]

theorem escape_eq_flatMap {cs : List Char} (hn : cs.Nodup) (hb : '\\' ∉ cs) (hp : parked ∉ cs)
    (v : Text) : (ofChars cs).escape v = v.flatMap (escapeChar cs) := by
  rw [escape_eq_shielded hb, shielded, List.flatMap_map]
  congr 1
  funext d
  unfold park escapeChar escapeSpecial
  by_cases hd : d = '\\'
  · rw [if_pos hd, if_pos hd, List.count_eq_zero.mpr hp]
    rfl
  · rw [if_neg hd, if_neg hd, hn.count]
    split <;> rfl

/-! ## unescape -/

def startsIn (cs : List Char) : Text → Bool
  | [] => false
  | d :: _ => cs.contains d

/-- The text without the backslashes directly before one of the characters. -/
def dropEscapes (cs : List Char) : Text → Text
  | [] => []
  | d :: r => if d = '\\' ∧ startsIn cs r then dropEscapes cs r else d :: dropEscapes cs r

theorem dropEscapes_of_ne {cs : List Char} {d : Char} (h : d ≠ '\\') (r : Text) :
    dropEscapes cs (d :: r) = d :: dropEscapes cs r := by
  simp [dropEscapes, h]

theorem dropEscapes_backslash (cs : List Char) (r : Text) :
    dropEscapes cs ('\\' :: r) =
      if startsIn cs r then dropEscapes cs r else '\\' :: dropEscapes cs r := by
  simp [dropEscapes]

theorem dropEscapes_no_chars (t : Text) : dropEscapes [] t = t := by
  induction t with
  | nil => rfl
  | cons d r ih =>
    have : startsIn [] r = false := by cases r <;> rfl
    simp [dropEscapes, this, ih]

theorem replace_escaped {c : Char} (hc : c ≠ '\\') (t : Text) :
    Text.replace ['\\', c] [c] t = dropEscapes [c] t := by
  induction h : t.length using Nat.strongRecOn generalizing t with
  | ind n ih =>
    cases t with
    | nil => exact Text.replace_nil_right [c] (by simp)
    | cons d r =>
      simp only [List.length_cons] at h
      by_cases hp : ['\\', c] <+: d :: r
      · obtain ⟨r', hr'⟩ := hp
        simp only [List.cons_append, List.nil_append, List.cons.injEq] at hr'
        obtain ⟨rfl, rfl⟩ := hr'
        have hs := @Text.replace_append_self ['\\', c] [c] r' (by simp)
        simp only [List.cons_append, List.nil_append] at hs
        simp only [List.length_cons] at h
        rw [hs, ih r'.length (by omega) r' rfl, dropEscapes_backslash, dropEscapes_of_ne hc]
        simp [startsIn]
      · rw [Text.replace_cons [c] (by simp) hp, ih r.length (by omega) r rfl]
        rw [dropEscapes, if_neg]
        rintro ⟨rfl, hs⟩
        cases r with
        | nil => cases hs
        | cons e r' =>
          simp only [startsIn, List.contains_cons, List.contains_nil, Bool.or_false,
            beq_iff_eq] at hs
          exact hp ⟨r', by rw [hs]; rfl⟩

/-- What a text starts with stays in view when other backslashes are dropped. -/
theorem startsIn_dropEscapes {c : Char} {cs : List Char} (hc : c ∉ cs) (hb : '\\' ∉ cs)
    {r : Text} (hr : startsIn [c] r = false) :
    startsIn cs (dropEscapes [c] r) = startsIn cs r := by
  cases r with
  | nil => rfl
  | cons e r' =>
    by_cases he : e = '\\'
    · subst he
      have hback : startsIn cs ('\\' :: r') = false := by simpa [startsIn] using hb
      rw [dropEscapes_backslash, hback]
      split
      · next hs =>
        -- the dropped backslash stood before `c`, which the others do not look for
        cases r' with
        | nil => cases hs
        | cons e' r'' =>
          simp only [startsIn, List.contains_cons, List.contains_nil, Bool.or_false,
            beq_iff_eq] at hs
          subst hs
          have hne : e' ≠ '\\' := fun h => by simp [startsIn, h] at hr
          rw [dropEscapes_of_ne hne]
          simpa [startsIn] using hc
      · simpa [startsIn] using hb
    · rw [dropEscapes_of_ne he]
      rfl

theorem dropEscapes_dropEscapes {c : Char} {cs : List Char} (hc : c ∉ cs) (hb : '\\' ∉ cs)
    (t : Text) :
    dropEscapes cs (dropEscapes [c] t) = dropEscapes (c :: cs) t := by
  induction t with
  | nil => rfl
  | cons d r ih =>
    by_cases hd : d = '\\'
    · subst hd
      rw [dropEscapes_backslash, dropEscapes_backslash]
      have hor : startsIn (c :: cs) r = (startsIn [c] r || startsIn cs r) := by
        cases r with
        | nil => rfl
        | cons e r' => simp [startsIn]
      rw [hor]
      cases hs : startsIn [c] r with
      | true => simpa using ih
      | false =>
        have hkeep := startsIn_dropEscapes hc hb hs
        rw [if_neg (by simp), dropEscapes_backslash, hkeep, ih]
        rfl
    · rw [dropEscapes_of_ne hd, dropEscapes_of_ne hd, dropEscapes_of_ne hd, ih]

theorem replaceAll_unescapePairs {cs : List Char} (hn : cs.Nodup) (hb : '\\' ∉ cs) (t : Text) :
    Text.replaceAll (ofChars cs).unescapePairs t = dropEscapes cs t := by
  induction cs generalizing t with
  | nil => exact (dropEscapes_no_chars t).symm
  | cons c cs ih =>
    obtain ⟨hc, hn'⟩ := List.nodup_cons.mp hn
    have hb' : '\\' ∉ cs := fun h => hb (List.mem_cons_of_mem _ h)
    have hcb : c ≠ '\\' := fun h => hb (h ▸ List.mem_cons_self)
    show Text.replaceAll (ofChars cs).unescapePairs (Text.replace ['\\', c] [c] t) = _
    rw [ih hn' hb', replace_escaped hcb, dropEscapes_dropEscapes hc hb']

def unpark (d : Char) : Char := if d = parked then '\\' else d

/-- Unescaping goes through the text once. -/
theorem unescape_eq_dropEscapes {cs : List Char} (hn : cs.Nodup) (hb : '\\' ∉ cs) (t : Text) :
    (ofChars cs).unescape t = (dropEscapes cs t).map unpark := by
  rw [unescape, replaceAll_unescapePairs hn hb, Text.replace_singleton, List.map_eq_flatMap]
  congr 1
  funext d
  by_cases hd : d = parked
  · simp [unpark, hd]
  · simp [unpark, hd]

/-- The scan of two texts put together, where no backslash at the seam stands before a special. -/
theorem dropEscapes_append {cs : List Char} {a b : Text}
    (h : Template.endsEscaping false a = true → startsIn cs b = false) :
    dropEscapes cs (a ++ b) = dropEscapes cs a ++ dropEscapes cs b := by
  induction a with
  | nil => rfl
  | cons d r ih =>
    cases r with
    | nil =>
      have hkeep : ¬ (d = '\\' ∧ startsIn cs b = true) := by
        rintro ⟨rfl, hs⟩
        rw [h rfl] at hs
        cases hs
      show dropEscapes cs (d :: b) = dropEscapes cs [d] ++ dropEscapes cs b
      rw [dropEscapes, if_neg hkeep, dropEscapes, if_neg fun hd => Bool.false_ne_true hd.2]
      rfl
    | cons e r' =>
      have ih' := ih h
      have hs : startsIn cs (e :: r' ++ b) = startsIn cs (e :: r') := rfl
      rw [List.cons_append, dropEscapes, dropEscapes, hs, ih']
      split <;> rfl

/-- Unescaping goes part by part where no backslash at the seam stands before a special. -/
theorem unescape_join {cs : List Char} (hn : cs.Nodup) (hb : '\\' ∉ cs) {s t : Text}
    (h : Template.endsEscaping false s = true → startsIn cs t = false) :
    (ofChars cs).unescape (s ++ t) = (ofChars cs).unescape s ++ (ofChars cs).unescape t := by
  rw [unescape_eq_dropEscapes hn hb, unescape_eq_dropEscapes hn hb, unescape_eq_dropEscapes hn hb,
    dropEscapes_append h, List.map_append]

end Escaper

/-! ## inserted values -/

namespace Template

/-- No character of the text is a sign for the scanners. -/
def IsPlain (esc : Bool) (t : Text) : Prop := ∀ s ∈ signs esc t, s = .plain

theorem isPlain_nil (esc : Bool) : IsPlain esc [] := fun _ h => nomatch h

theorem isPlain_cons {esc : Bool} {c : Char} {r : Text} :
    IsPlain esc (c :: r) ↔ sign esc c = .plain ∧ IsPlain (c == '\\') r := by
  rw [IsPlain, signs_cons, List.forall_mem_cons]
  rfl

theorem isPlain_append {esc : Bool} {a b : Text} :
    IsPlain esc (a ++ b) ↔ IsPlain esc a ∧ IsPlain (endsEscaping esc a) b := by
  rw [IsPlain, signs_append, List.forall_mem_append]
  rfl

theorem IsPlain.of_false {t : Text} (h : IsPlain false t) (esc : Bool) : IsPlain esc t := by
  cases t with
  | nil => exact isPlain_nil esc
  | cons c r =>
    obtain ⟨hc, hr⟩ := isPlain_cons.mp h
    refine isPlain_cons.mpr ⟨?_, hr⟩
    cases esc with
    | false => exact hc
    | true => exact sign_escaped c

theorem IsPlain.countFrom {esc : Bool} {t : Text} (h : IsPlain esc t) {s : Sign}
    (hs : s ≠ .plain) : countFrom s esc t = 0 :=
  List.count_eq_zero.mpr fun hm => hs (h s hm)

theorem IsPlain.nest {esc : Bool} {t : Text} (h : IsPlain esc t) (d : Nat) :
    nest d (signs esc t) = some d := by
  induction t generalizing esc with
  | nil => rfl
  | cons c r ih =>
    obtain ⟨hc, hr⟩ := isPlain_cons.mp h
    rw [signs_cons, hc]
    exact ih hr

theorem isPlain_of_unsigned {t : Text} (h : ∀ c ∈ t, c ∉ Escaper.syntaxChars) (esc : Bool) :
    IsPlain esc t := by
  induction t generalizing esc with
  | nil => exact isPlain_nil esc
  | cons c r ih =>
    obtain ⟨hc, hr⟩ := List.forall_mem_cons.mp h
    simp only [Escaper.syntaxChars, List.mem_cons, List.not_mem_nil, or_false, not_or] at hc
    refine isPlain_cons.mpr ⟨?_, ih hr _⟩
    simp [sign, hc.1, hc.2.1, hc.2.2]

theorem not_mem_syntaxChars_of_isKeyChar {d : Char} (h : Text.isKeyChar d = true) :
    d ∉ Escaper.syntaxChars := by
  have hnone : ∀ d ∈ Escaper.syntaxChars, Text.isKeyChar d = false := forall_mem_of_all (by decide)
  intro hm
  rw [hnone d hm] at h
  cases h

theorem isPlain_key {key : Text} (h : ∀ c ∈ key, Text.isKeyChar c = true) (esc : Bool) :
    IsPlain esc key :=
  isPlain_of_unsigned (fun c hc => not_mem_syntaxChars_of_isKeyChar (h c hc)) esc

/-! ## escaped brackets -/

/-- No `{` stands directly behind a backslash. -/
def NoEscapedOpening (esc : Bool) : Text → Prop
  | [] => True
  | c :: r => (c = '{' → esc = false) ∧ NoEscapedOpening (c == '\\') r

instance NoEscapedOpening.decidable : (esc : Bool) → (t : Text) →
    Decidable (NoEscapedOpening esc t)
  | _, [] => isTrue trivial
  | esc, c :: r =>
    have := decidable (c == '\\') r
    inferInstanceAs (Decidable ((c = '{' → esc = false) ∧ NoEscapedOpening (c == '\\') r))

theorem noEscapedOpening_append {esc : Bool} {a b : Text} :
    NoEscapedOpening esc (a ++ b) ↔
      NoEscapedOpening esc a ∧ NoEscapedOpening (endsEscaping esc a) b := by
  induction a generalizing esc with
  | nil => exact ⟨fun h => ⟨trivial, h⟩, fun h => h.2⟩
  | cons c r ih => exact (and_congr_right fun _ => ih).trans and_assoc.symm

theorem noEscapedOpening_of_not_mem {t : Text} (h : '{' ∉ t) (esc : Bool) :
    NoEscapedOpening esc t := by
  induction t generalizing esc with
  | nil => trivial
  | cons c r ih =>
    refine ⟨fun e => absurd (e ▸ List.mem_cons_self) h, ih (fun hm => ?_) _⟩
    exact h (List.mem_cons_of_mem _ hm)

theorem noEscapedOpening_of_no_backslash {t : Text} (h : '\\' ∉ t) : NoEscapedOpening false t := by
  induction t with
  | nil => trivial
  | cons c r ih =>
    have hc : (c == '\\') = false := beq_eq_false_iff_ne.mpr fun e => h (e ▸ List.mem_cons_self)
    refine ⟨fun _ => rfl, ?_⟩
    rw [hc]
    exact ih fun hm => h (List.mem_cons_of_mem _ hm)

theorem noEscapedOpening_iff {t : Text} :
    NoEscapedOpening false t ↔ ¬ ['\\', '{'] <:+: t := by
  constructor
  · rintro h ⟨u, w, rfl⟩
    rw [List.append_assoc, noEscapedOpening_append] at h
    exact absurd (h.2.2.1 rfl) (by decide)
  · have hfrom : ∀ (esc : Bool) (t : Text), (esc = true → ¬ ['{'] <+: t) →
        ¬ ['\\', '{'] <:+: t → NoEscapedOpening esc t := by
      intro esc t hs h
      induction t generalizing esc with
      | nil => trivial
      | cons c r ih =>
        refine ⟨?_, ih _ (fun hb => ?_) fun hi => h (List.infix_cons hi)⟩
        · rintro rfl
          exact Bool.eq_false_iff.mpr fun he => hs he ⟨r, rfl⟩
        · rintro ⟨w, hw⟩
          have hc : c = '\\' := beq_iff_eq.mp hb
          exact h ⟨[], w, by rw [hc, ← hw]; rfl⟩
    exact hfrom false t nofun

/-- A bracketed text that can be seen anywhere has an unescaped `{`. -/
theorem NoEscapedOpening.ends {u x w : Text}
    (h : NoEscapedOpening false (u ++ Render.bracketed x ++ w)) : endsEscaping false u = false := by
  rw [List.append_assoc, noEscapedOpening_append] at h
  exact h.2.1 rfl

end Template

namespace Render
open Escaper Template

theorem escape_eq (v : Text) : escape v = v.flatMap (escapeChar syntaxChars) :=
  @escape_eq_flatMap syntaxChars (by decide) (by decide) (by decide) v

theorem escape_cons (d : Char) (v : Text) :
    escape (d :: v) = escapeChar syntaxChars d ++ escape v := by
  rw [escape_eq, escape_eq, List.flatMap_cons]

theorem escape_append (v w : Text) : escape (v ++ w) = escape v ++ escape w := by
  rw [escape_eq, escape_eq, escape_eq, List.flatMap_append]

/-- The three forms of an escaped character. -/
theorem escapeChar_cases (d : Char) :
    (d = '\\' ∧ escapeChar syntaxChars d = [parked]) ∨
    (d ∈ syntaxChars ∧ escapeChar syntaxChars d = ['\\', d]) ∨
    (d ≠ '\\' ∧ d ∉ syntaxChars ∧ escapeChar syntaxChars d = [d]) := by
  by_cases hd : d = '\\'
  · exact Or.inl ⟨hd, by simp [escapeChar, hd]⟩
  · by_cases hs : d ∈ syntaxChars
    · exact Or.inr (Or.inl ⟨hs, by simp [escapeChar, escapeSpecial, hd, hs]⟩)
    · exact Or.inr (Or.inr ⟨hd, hs, by simp [escapeChar, escapeSpecial, hd, hs]⟩)

/-- An inserted value does not escape what follows it. -/
theorem endsEscaping_escape (v : Text) : endsEscaping false (escape v) = false := by
  induction v with
  | nil => rfl
  | cons d v ih =>
    have one : endsEscaping false (escapeChar syntaxChars d) = false := by
      rcases escapeChar_cases d with ⟨_, e⟩ | ⟨hs, e⟩ | ⟨hd, _, e⟩
      · rw [e]
        decide
      · rw [e]
        have : d ≠ '\\' := fun h => by rw [h] at hs; revert hs; decide
        simpa [endsEscaping] using this
      · rw [e]
        simpa [endsEscaping] using hd
    rw [escape_cons, endsEscaping_append, one, ih]

/-- An inserted value has no sign of its own. -/
theorem isPlain_escape (v : Text) (esc : Bool) : IsPlain esc (escape v) := by
  refine IsPlain.of_false ?_ esc
  induction v with
  | nil => exact isPlain_nil false
  | cons d v ih =>
    rw [escape_cons]
    refine isPlain_append.mpr ⟨?_, ih.of_false _⟩
    rcases escapeChar_cases d with ⟨_, e⟩ | ⟨_, e⟩ | ⟨_, hs, e⟩
    · rw [e]
      exact isPlain_of_unsigned (forall_mem_of_all (by decide)) false
    · rw [e]
      refine isPlain_cons.mpr ⟨by decide, isPlain_cons.mpr ⟨rfl, isPlain_nil _⟩⟩
    · rw [e]
      exact isPlain_of_unsigned (by simpa using hs) false

theorem mem_of_mem_escape {c : Char} {v : Text} (hb : c ≠ '\\') (hp : c ≠ parked)
    (h : c ∈ escape v) : c ∈ v := by
  induction v with
  | nil => exact h
  | cons d v ih =>
    rw [escape_cons, List.mem_append] at h
    rcases h with h | h
    · refine List.mem_cons.mpr (Or.inl ?_)
      rcases escapeChar_cases d with ⟨_, e⟩ | ⟨_, e⟩ | ⟨_, _, e⟩ <;> rw [e] at h
      · exact absurd (List.mem_singleton.mp h) hp
      · exact List.mem_singleton.mp ((List.mem_cons.mp h).resolve_left hb)
      · exact List.mem_singleton.mp h
    · exact List.mem_cons_of_mem _ (ih h)

theorem unescape_eq (t : Text) :
    syntaxSigns.unescape t = (dropEscapes syntaxChars t).map unpark :=
  @unescape_eq_dropEscapes syntaxChars (by decide) (by decide) t

theorem mem_dropEscapes {c : Char} (hb : c ≠ '\\') (cs : List Char) (t : Text) :
    c ∈ dropEscapes cs t ↔ c ∈ t := by
  induction t with
  | nil => exact Iff.rfl
  | cons d t ih =>
    rw [dropEscapes]
    split
    · next h => rw [ih, List.mem_cons, h.1, or_iff_right hb]
    · rw [List.mem_cons, List.mem_cons, ih]

theorem mem_unescape {c : Char} (hb : c ≠ '\\') (hp : c ≠ parked) (t : Text) :
    c ∈ syntaxSigns.unescape t ↔ c ∈ t := by
  have hone : ∀ d, unpark d = c ↔ d = c := by
    intro d
    rw [unpark]
    split
    · next h => exact ⟨fun e => absurd e.symm hb, fun e => absurd (e.symm.trans h) hp⟩
    · exact Iff.rfl
  rw [unescape_eq, List.mem_map]
  simp only [hone, exists_eq_right, mem_dropEscapes hb]

end Render
end Citations
