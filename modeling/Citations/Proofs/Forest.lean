import Citations.Proofs.Fragments
import Citations.Proofs.Passes
import Citations.Template.Check

/-!
# The fragment tree of a template

A template that the strict check accepts is a sequence of characters and fragments, and a fragment
is a sequence of characters, fragments and one token of its own.

* `Forest`              such a sequence, and `Forest.text` the text it stands for;
* `Forest.WellFormed`   the characters are no signs, and each fragment has one token;
* `Forest.Maximal`      each key is as long as it can be;
* `Forest.Spells f t`   `f` is the fragment tree of the template `t`;
* `Spells.unique`       a template has at most one tree;
* `exists_spells`       the strict check gives it one, where each `@` starts a token.
-/

namespace Citations

/-- Characters, tokens and fragments one after the other. -/
inductive Forest where
  | nil
  | char (c : Char) (rest : Forest)
  | token (key : Text) (rest : Forest)
  | fragment (inner rest : Forest)
  deriving DecidableEq, Repr

/-- The key of a token as it is written: it starts with a word character. -/
structure IsKey (key : Text) : Prop where
  starts : Template.startsKey key = true
  chars : ∀ d ∈ key, Text.isKeyChar d = true

theorem isKey_iff {key : Text} :
    IsKey key ↔ (Template.startsKey key && key.all Text.isKeyChar) = true := by
  rw [Bool.and_eq_true, List.all_eq_true]
  exact ⟨fun h => ⟨h.starts, h.chars⟩, fun h => ⟨h.1, h.2⟩⟩

instance (key : Text) : Decidable (IsKey key) := decidable_of_iff _ isKey_iff.symm

theorem IsKey.ne_nil {key : Text} (h : IsKey key) : key ≠ [] := by
  rintro rfl
  cases h.starts

namespace Forest
open Template Render

def text : Forest → Text
  | nil => []
  | char c r => c :: r.text
  | token key r => '@' :: key ++ r.text
  | fragment x r => bracketed x.text ++ r.text

/-- The keys of the tokens outside the fragments. -/
def keys : Forest → List Text
  | nil => []
  | char _ r => r.keys
  | token key r => key :: r.keys
  | fragment _ r => r.keys

def size : Forest → Nat
  | nil => 0
  | char _ r => r.size
  | token _ r => r.size
  | fragment x r => x.size + 1 + r.size

/-! ## well-formed forests -/

/-- The characters are no signs, with `esc` for a backslash in front, and a fragment has exactly
one token outside its own fragments. -/
inductive WellFormed : Bool → Forest → Prop where
  | nil {esc : Bool} : WellFormed esc nil
  | char {esc : Bool} {c : Char} {r : Forest} (hc : sign esc c = .plain)
      (hr : WellFormed (c == '\\') r) : WellFormed esc (char c r)
  | token {key : Text} {r : Forest} (hk : IsKey key) (hr : WellFormed false r) :
      WellFormed false (token key r)
  | fragment {x r : Forest} {key : Text} (hx : WellFormed false x)
      (he : endsEscaping false x.text = false) (hk : x.keys = [key]) (hr : WellFormed false r) :
      WellFormed false (fragment x r)

theorem endsEscaping_token {key : Text} (hk : IsKey key) (esc : Bool) :
    endsEscaping esc ('@' :: key) = false :=
  endsEscaping_key hk.chars

section
variable {esc : Bool} {f : Forest}

theorem WellFormed.nest (h : WellFormed esc f) (d : Nat) :
    nest d (signs esc f.text) = some d := by
  induction h generalizing d with
  | nil => rfl
  | @char esc c r hc hr ih =>
    rw [text, signs_cons, hc]
    exact ih d
  | @token key r hk hr ih =>
    rw [text, List.cons_append, signs_cons, signs_append]
    have hends : endsEscaping ('@' == '\\') key = false := endsEscaping_key hk.chars
    show Template.nest d (signs false key ++ _) = _
    rw [nest_append_of ((isPlain_key hk.chars false).nest d), hends]
    exact ih d
  | @fragment x r key hx he hk hr ihx ihr =>
    rw [text, signs_append, nest_append_of (nest_bracketed ⟨ihx 0, he⟩ d), endsEscaping_bracketed]
    exact ihr d

theorem WellFormed.isInterior (h : WellFormed false f) (he : endsEscaping false f.text = false) :
    IsInterior f.text := ⟨h.nest 0, he⟩

theorem WellFormed.countFrom_opening (h : WellFormed esc f) :
    countFrom .opening esc f.text = f.size := by
  induction h with
  | nil => rfl
  | @char esc c r hc hr ih =>
    rw [text, countFrom_cons, hc, ih, size]
    exact Nat.zero_add _
  | @token key r hk hr ih =>
    have hplain : countFrom .opening false key = 0 :=
      (isPlain_key hk.chars false).countFrom (by decide)
    rw [text, countFrom_append, endsEscaping_token hk, ih, size, countFrom_cons]
    show 0 + countFrom .opening false key + r.size = r.size
    omega
  | @fragment x r key hx he hk hr ihx ihr =>
    have hends : endsEscaping ('{' == '\\') x.text = false := he
    rw [text, countFrom_append, endsEscaping_bracketed, ihr, size, bracketed, List.cons_append,
      countFrom_cons, countFrom_append, hends]
    show 1 + (countFrom .opening false x.text + 0) + r.size = _
    omega

theorem WellFormed.countFrom_token (h : WellFormed esc f) :
    countFrom .token esc f.text = f.size + f.keys.length := by
  induction h with
  | nil => rfl
  | @char esc c r hc hr ih =>
    rw [text, countFrom_cons, hc, ih, size, keys]
    exact Nat.zero_add _
  | @token key r hk hr ih =>
    have hplain : countFrom .token false key = 0 :=
      (isPlain_key hk.chars false).countFrom (by decide)
    rw [text, countFrom_append, endsEscaping_token hk, ih, size, keys, countFrom_cons]
    show 1 + countFrom .token false key + (r.size + r.keys.length) = r.size + (r.keys.length + 1)
    omega
  | @fragment x r key hx he hk hr ihx ihr =>
    have hends : endsEscaping ('{' == '\\') x.text = false := he
    rw [text, countFrom_append, endsEscaping_bracketed, ihr, size, keys, bracketed,
      List.cons_append, countFrom_cons, countFrom_append, hends]
    show 0 + (countFrom .token false x.text + 0) + (r.size + r.keys.length) = _
    rw [ihx, hk]
    show 0 + (x.size + 1 + 0) + (r.size + r.keys.length) = x.size + 1 + r.size + r.keys.length
    omega

end

/-! ## the fragments of the text -/

def fragments : Forest → List Forest
  | nil => []
  | char _ r => r.fragments
  | token _ r => r.fragments
  | fragment x r => x :: r.fragments

/-- The segmenter finds the fragments of the tree, behind a text `p` without brackets. -/
theorem WellFormed.fragmentTexts_append {f : Forest} {esc : Bool} (h : WellFormed esc f) :
    ∀ p, countFrom .opening false p = 0 → WellNested p → endsEscaping false p = esc →
      fragmentTexts (p ++ f.text) = f.fragments.map fun x => bracketed x.text := by
  induction h with
  | nil =>
    intro p hp _ _
    rw [text, List.append_nil]
    exact fragmentTexts_of_no_opening hp
  | @char esc c r hc hr ih =>
    intro p hp hn he
    have hsplit : p ++ c :: r.text = (p ++ [c]) ++ r.text := by simp
    rw [text, hsplit, fragments]
    refine ih _ ?_ ?_ (endsEscaping_concat _ _ _)
    · rw [countFrom_append, hp, he, countFrom_cons, hc]
      rfl
    · rw [WellNested, signs_append, nest_append_of hn, he, signs_cons, hc]
      rfl
  | @token key r hk hr ih =>
    intro p hp hn he
    have hsplit : p ++ '@' :: (key ++ r.text) = (p ++ '@' :: key) ++ r.text := by simp
    have hkey := isPlain_key hk.chars ('@' == '\\')
    rw [text, List.cons_append, hsplit, fragments]
    refine ih _ ?_ ?_ ?_
    · rw [countFrom_append, hp, he, countFrom_cons, hkey.countFrom (by decide)]
      rfl
    · rw [WellNested, signs_append, nest_append_of hn, he]
      exact hkey.nest 0
    · rw [endsEscaping_append]
      exact endsEscaping_token hk _
  | @fragment x r key hx he hk hr ihx ihr =>
    intro p hp hn hep
    have hrest := ihr [] rfl rfl rfl
    rw [List.nil_append] at hrest
    rw [text, Template.fragmentTexts_append ⟨hn, hep⟩, fragmentTexts_of_no_opening hp,
      fragmentTexts_bracketed_append (hx.isInterior he), hrest]
    rfl

theorem WellFormed.fragmentTexts {f : Forest} (h : WellFormed false f) :
    Template.fragmentTexts f.text = f.fragments.map fun x => bracketed x.text :=
  h.fragmentTexts_append [] rfl rfl rfl

/-- What stands between the brackets of a fragment with the token `key`. -/
structure Within (key : Text) (x : Forest) : Prop where
  wf : WellFormed false x
  ends : endsEscaping false x.text = false
  keys : x.keys = [key]

theorem Within.isInterior {key : Text} {x : Forest} (h : Within key x) : IsInterior x.text :=
  h.wf.isInterior h.ends

theorem WellFormed.of_mem_fragments {esc : Bool} {f x : Forest} (h : WellFormed esc f)
    (hx : x ∈ f.fragments) : ∃ key, Within key x := by
  induction h with
  | nil => cases hx
  | char _ _ ih => exact ih hx
  | token _ _ ih => exact ih hx
  | fragment hy he hk _ _ ih =>
    rcases List.mem_cons.mp hx with rfl | hx
    · exact ⟨_, hy, he, hk⟩
    · exact ih hx

theorem mem_text_of_keys {f : Forest} (h : f.keys ≠ []) : '@' ∈ f.text := by
  induction f with
  | nil => exact absurd rfl h
  | char c r ih => exact List.mem_cons_of_mem _ (ih h)
  | token key r _ => exact List.mem_cons_self
  | fragment x r _ ih => exact List.mem_append_right _ (ih h)

/-- The texts that a pass solves are those of the outermost fragments. -/
theorem WellFormed.mem_openTexts_iff {f : Forest} (h : WellFormed false f) {t : Text} :
    t ∈ openTexts f.text ↔ ∃ x ∈ f.fragments, bracketed x.text = t := by
  rw [openTexts_eq, List.mem_eraseDups, List.mem_filter, h.fragmentTexts, List.mem_map]
  refine and_iff_left_of_imp ?_
  rintro ⟨x, hx, rfl⟩
  obtain ⟨key, hin⟩ := h.of_mem_fragments hx
  have hmark : '@' ∈ x.text := mem_text_of_keys (by rw [hin.keys]; simp)
  simp [bracketed, hmark]

/-! ## one tree at most -/

def Maximal : Forest → Prop
  | nil => True
  | char _ r => r.Maximal
  | token _ r => startsKeyOrJoin r.text = false ∧ r.Maximal
  | fragment x r => x.Maximal ∧ r.Maximal

/-- What can stand behind a forest: nothing, or the bracket that closes it. -/
def Closes (esc : Bool) (w : Text) : Prop := w = [] ∨ esc = false ∧ ∃ r, w = '}' :: r

theorem startsKeyOrJoin_append_closes {f : Forest} {esc : Bool} {w : Text}
    (h : startsKeyOrJoin f.text = false) (hw : Closes esc w) :
    startsKeyOrJoin (f.text ++ w) = false := by
  cases ht : f.text with
  | nil =>
    rcases hw with rfl | ⟨_, r, rfl⟩
    · rfl
    · show Text.isKeyChar '}' = false
      decide
  | cons c r =>
    rw [ht] at h
    exact h

/-- Nothing but the end of a fragment starts with an unescaped `}`. -/
theorem WellFormed.eq_nil_of_closing {f : Forest} (h : WellFormed false f) {w r : Text}
    (ht : f.text ++ w = '}' :: r) : f = Forest.nil := by
  cases h with
  | nil => rfl
  | char hc _ =>
    have := (List.cons.inj ht).1
    rw [this] at hc
    cases hc
  | token => exact absurd (List.cons.inj ht).1 (by decide)
  | fragment => exact absurd (List.cons.inj ht).1 (by decide)

theorem WellFormed.eq_nil_of_closes {esc : Bool} {f : Forest} (h : WellFormed esc f) {w w' : Text}
    (hw : Closes esc w) (ht : f.text ++ w' = w) : f = Forest.nil ∧ w' = w := by
  have hnil : f = Forest.nil := by
    rcases hw with rfl | ⟨rfl, r, rfl⟩
    · have htext := (List.append_eq_nil_iff.mp ht).1
      cases f with
      | nil => rfl
      | char => cases htext
      | token => cases htext
      | fragment => cases htext
    · exact h.eq_nil_of_closing ht
  rw [hnil] at ht
  exact ⟨hnil, ht⟩

/-- The tree can be read off the text. -/
theorem WellFormed.unique {esc : Bool} {f g : Forest} {w w' : Text} (hf : WellFormed esc f)
    (hg : WellFormed esc g) (mf : f.Maximal) (mg : g.Maximal)
    (hw : Closes (endsEscaping esc f.text) w) (hw' : Closes (endsEscaping esc g.text) w')
    (h : f.text ++ w = g.text ++ w') : f = g ∧ w = w' := by
  induction hf generalizing g w w' with
  | nil =>
    obtain ⟨rfl, hww⟩ := hg.eq_nil_of_closes hw h.symm
    exact ⟨rfl, hww.symm⟩
  | @char esc c r hc hr ih =>
    cases hg with
    | nil => cases ((WellFormed.char hc hr).eq_nil_of_closes hw' h).1
    | @char _ d s hd hs =>
      obtain ⟨hcd, htail⟩ : c = d ∧ r.text ++ w = s.text ++ w' := List.cons.inj h
      subst hcd
      obtain ⟨rfl, hww⟩ := ih hs mf mg hw hw' htail
      exact ⟨rfl, hww⟩
    | token =>
      rw [(List.cons.inj h).1] at hc
      cases hc
    | fragment =>
      rw [(List.cons.inj h).1] at hc
      cases hc
  | @token key r hk hr ih =>
    cases hg with
    | nil => cases ((WellFormed.token hk hr).eq_nil_of_closes hw' h).1
    | char hd _ =>
      rw [← (List.cons.inj h).1] at hd
      cases hd
    | @token key' s hk' hs =>
      rw [text, endsEscaping_append, endsEscaping_token hk] at hw
      rw [text, endsEscaping_append, endsEscaping_token hk'] at hw'
      have h : key ++ (r.text ++ w) = key' ++ (s.text ++ w') := by
        have := (List.cons.inj h).2
        simpa using this
      have hkeys := congrArg (List.takeWhile Text.isKeyChar) h
      rw [takeWhile_key_append hk.chars (startsKeyOrJoin_append_closes mf.1 hw),
        takeWhile_key_append hk'.chars (startsKeyOrJoin_append_closes mg.1 hw')] at hkeys
      rw [hkeys] at h
      obtain ⟨rfl, hww⟩ := ih hs mf.2 mg.2 hw hw' (List.append_cancel_left h)
      exact ⟨by rw [hkeys], hww⟩
    | fragment => exact absurd (List.cons.inj h).1 (by decide)
  | @fragment x r key hx he hk hr ihx ihr =>
    cases hg with
    | nil => cases ((WellFormed.fragment hx he hk hr).eq_nil_of_closes hw' h).1
    | char hd _ =>
      rw [← (List.cons.inj h).1] at hd
      cases hd
    | token => exact absurd (List.cons.inj h).1 (by decide)
    | @fragment y s key' hy he' hk' hs =>
      rw [text, endsEscaping_append, endsEscaping_bracketed] at hw hw'
      have hinner : x.text ++ '}' :: (r.text ++ w) = y.text ++ '}' :: (s.text ++ w') := by
        have := (List.cons.inj h).2
        simpa using this
      obtain ⟨rfl, htail⟩ := ihx hy mf.1 mg.1 (Or.inr ⟨he, _, rfl⟩) (Or.inr ⟨he', _, rfl⟩) hinner
      obtain ⟨rfl, hww⟩ := ihr hs mf.2 mg.2 hw hw' (List.cons.inj htail).2
      exact ⟨rfl, hww⟩

/-- The fragment tree of a template. -/
structure Spells (f : Forest) (t : Text) : Prop where
  wf : WellFormed false f
  maximal : f.Maximal
  keys : f.keys = []
  text : f.text = t

theorem Spells.unique {f g : Forest} {t : Text} (hf : f.Spells t) (hg : g.Spells t) : f = g := by
  have h : f.text ++ [] = g.text ++ [] := by rw [hf.text, hg.text]
  exact (hf.wf.unique hg.wf hf.maximal hg.maximal (Or.inl rfl) (Or.inl rfl) h).1

/-! ## a tree for every checked template -/

def leadKey : Forest → Text
  | char c r => if Text.isKeyChar c then c :: r.leadKey else []
  | _ => []

/-- What stands behind it. -/
def afterKey : Forest → Forest
  | char c r => if Text.isKeyChar c then r.afterKey else char c r
  | f => f

theorem leadKey_char {c : Char} (h : Text.isKeyChar c = true) (r : Forest) :
    (char c r).leadKey = c :: r.leadKey := if_pos h

theorem afterKey_char {c : Char} (h : Text.isKeyChar c = true) (r : Forest) :
    (char c r).afterKey = r.afterKey := if_pos h

theorem leadKey_append (f : Forest) : f.leadKey ++ f.afterKey.text = f.text := by
  induction f with
  | nil => rfl
  | char c r ih =>
    by_cases hc : Text.isKeyChar c = true
    · rw [leadKey_char hc, afterKey_char hc, List.cons_append, ih, text]
    · simp [leadKey, afterKey, hc]
  | token => rfl
  | fragment => rfl

theorem isKeyChar_leadKey (f : Forest) : ∀ d ∈ f.leadKey, Text.isKeyChar d = true := by
  induction f with
  | char c r ih =>
    by_cases hc : Text.isKeyChar c = true
    · rw [leadKey_char hc]
      exact List.forall_mem_cons.mpr ⟨hc, ih⟩
    · simp [leadKey, hc]
  | nil | token | fragment => exact fun _ h => nomatch h

theorem startsKeyOrJoin_afterKey (f : Forest) : startsKeyOrJoin f.afterKey.text = false := by
  induction f with
  | nil => rfl
  | char c r ih =>
    by_cases hc : Text.isKeyChar c = true
    · rw [afterKey_char hc]
      exact ih
    · simp [afterKey, hc, text, startsKeyOrJoin]
  | token => exact (by decide : Text.isKeyChar '@' = false)
  | fragment => exact (by decide : Text.isKeyChar '{' = false)

theorem keys_afterKey (f : Forest) : f.afterKey.keys = f.keys := by
  induction f with
  | char c r ih =>
    by_cases hc : Text.isKeyChar c = true
    · rw [afterKey_char hc, ih, keys]
    · simp [afterKey, hc]
  | nil | token | fragment => rfl

theorem Maximal.afterKey {f : Forest} (h : f.Maximal) : f.afterKey.Maximal := by
  induction f with
  | char c r ih =>
    by_cases hc : Text.isKeyChar c = true
    · rw [afterKey_char hc]
      exact ih h
    · simpa [Forest.afterKey, hc] using h
  | nil | token | fragment => exact h

theorem WellFormed.afterKey {f : Forest} (h : WellFormed false f) :
    WellFormed false f.afterKey := by
  induction f with
  | char c r ih =>
    by_cases hc : Text.isKeyChar c = true
    · rw [afterKey_char hc]
      cases h with
      | char _ hr =>
        rw [beq_eq_false_iff_ne.mpr (ne_backslash_of_isKeyChar hc)] at hr
        exact ih hr
    · simpa [Forest.afterKey, hc] using h
  | nil | token | fragment => exact h

theorem startsKey_leadKey {f : Forest} {w : Text} (h : startsKey (f.text ++ '}' :: w) = true) :
    startsKey f.leadKey = true := by
  cases f with
  | nil => exact absurd h (by decide : ¬ Text.isWord '}' = true)
  | char c r =>
    have hc : Text.isWord c = true := h
    have hkey : Text.isKeyChar c = true := by simp [Text.isKeyChar, hc]
    rw [leadKey_char hkey]
    exact hc
  | token => exact absurd h (by decide : ¬ Text.isWord '@' = true)
  | fragment => exact absurd h (by decide : ¬ Text.isWord '{' = true)

/-- A text that is left to read while the fragments `levels` are open: the rest of each of them,
the innermost first, with the token that it still owes. -/
def Remains (esc : Bool) : List Level → Text → Prop
  | [], t => ∃ f, WellFormed esc f ∧ f.Maximal ∧ f.keys = [] ∧ f.text = t
  | l :: ls, t => ∃ f r, WellFormed esc f ∧ f.Maximal ∧
      f.keys.length = (if l.owns then 0 else 1) ∧ endsEscaping esc f.text = false ∧
      f.text ++ '}' :: r = t ∧ Remains false ls r

section
variable {esc : Bool} {l : Level} {ls : List Level} {t : Text}

theorem Remains.char {c : Char} (hc : sign esc c = .plain) (h : Remains (c == '\\') ls t) :
    Remains esc ls (c :: t) := by
  cases ls with
  | nil =>
    obtain ⟨f, hf, hm, hk, rfl⟩ := h
    exact ⟨.char c f, .char hc hf, hm, hk, rfl⟩
  | cons l ls =>
    obtain ⟨f, r, hf, hm, hk, he, rfl, hr⟩ := h
    exact ⟨.char c f, r, .char hc hf, hm, hk, he, rfl, hr⟩

theorem Remains.closing (hl : l.owns = true) (h : Remains false ls t) :
    Remains false (l :: ls) ('}' :: t) :=
  ⟨.nil, t, .nil, trivial, by rw [hl]; rfl, rfl, rfl, h⟩

theorem Remains.opening {i : Nat} (h : Remains false (⟨i, false⟩ :: ls) t) :
    Remains false ls ('{' :: t) := by
  obtain ⟨x, r, hx, mx, hkeys, he, rfl, hr⟩ := h
  obtain ⟨key, hk⟩ := List.length_eq_one_iff.mp hkeys
  have htext : ∀ w, bracketed x.text ++ w = '{' :: (x.text ++ '}' :: w) := by
    intro w
    simp [bracketed]
  cases ls with
  | nil =>
    obtain ⟨f, hf, mf, hkf, rfl⟩ := hr
    exact ⟨.fragment x f, .fragment hx he hk hf, ⟨mx, mf⟩, hkf, htext _⟩
  | cons l ls =>
    obtain ⟨f, r, hf, mf, hkf, hef, rfl, hr⟩ := hr
    refine ⟨.fragment x f, r, .fragment hx he hk hf, ⟨mx, mf⟩, hkf, ?_, ?_, hr⟩
    · rw [text, endsEscaping_append, endsEscaping_bracketed]
      exact hef
    · rw [text, List.append_assoc, htext]

theorem Remains.token {i : Nat} (ht : startsKey t = true)
    (h : Remains false (⟨i, true⟩ :: ls) t) : Remains false (⟨i, false⟩ :: ls) ('@' :: t) := by
  obtain ⟨f, r, hf, mf, hk, he, rfl, hr⟩ := h
  have hkey : IsKey f.leadKey := ⟨startsKey_leadKey ht, isKeyChar_leadKey f⟩
  refine ⟨.token f.leadKey f.afterKey, r, .token hkey hf.afterKey,
    ⟨startsKeyOrJoin_afterKey f, mf.afterKey⟩, ?_, ?_, ?_, hr⟩
  · rw [keys, keys_afterKey, List.length_cons, hk]
    rfl
  · rw [text, List.cons_append, leadKey_append]
    exact he
  · rw [text, List.cons_append, leadKey_append]
    rfl

end

/-- How many of the open fragments have shown no token yet. -/
def owed (levels : List Level) : Nat := levels.countP fun l => !l.owns

theorem owed_cons (l : Level) (ls : List Level) :
    owed (l :: ls) = (if l.owns then 0 else 1) + owed ls := by
  rw [owed, List.countP_cons, owed]
  cases l.owns <;> simp [Nat.add_comm]

/-- Under the strict check there are tokens enough: one for every fragment that owes one. -/
theorem owed_le_of_check {esc : Bool} {i : Nat} {levels : List Level} {t : Text}
    (h : checkNestingFrom esc i levels t = .ok ()) :
    owed levels + countFrom .opening esc t ≤ countTokens esc t := by
  induction t generalizing esc i levels with
  | nil =>
    cases levels with
    | nil => exact Nat.le_refl _
    | cons l ls => cases h
  | cons c r ih =>
    obtain ⟨levels', hstep, h⟩ := checkNestingFrom_cons_iff.mp h
    have hle := ih h
    rw [countFrom_cons, countTokens_cons]
    generalize sign esc c = s at hstep ⊢
    cases hstep with
    | opening =>
      rw [owed_cons] at hle
      simpa [Nat.add_assoc, Nat.add_comm, Nat.add_left_comm] using hle
    | closing hl => simpa [owed_cons, hl] using hle
    | @token l ls hk =>
      rw [owed_cons] at hle ⊢
      cases l.owns <;> simp [hk] at hle ⊢ <;> omega
    | bare hk => simpa [hk] using hle
    | plain => simpa using hle

end Forest

namespace Template

/-- Whether `p` holds of what follows each unescaped `@`. -/
def atMarks (p : Text → Bool) (esc : Bool) : Text → Bool
  | [] => true
  | c :: r => (decide (sign esc c ≠ .token) || p r) && atMarks p (c == '\\') r

theorem atMarks_cons (p : Text → Bool) (esc : Bool) (c : Char) (r : Text) :
    atMarks p esc (c :: r) = true ↔ (sign esc c = .token → p r = true) ∧
      atMarks p (c == '\\') r = true := by
  by_cases h : sign esc c = .token <;> simp [atMarks, h]

theorem atMarks_append_right {p : Text → Bool} {esc : Bool} {a b : Text}
    (h : atMarks p esc (a ++ b) = true) : atMarks p (endsEscaping esc a) b = true := by
  induction a generalizing esc with
  | nil => exact h
  | cons c a ih => exact ih ((atMarks_cons _ _ _ _).mp h).2

end Template

namespace Forest
open Template Render

/-- With no more tokens than needed, every open fragment gets the one that it owes. -/
theorem remains_of_check {esc : Bool} {i : Nat} {levels : List Level} {t : Text}
    (h : checkNestingFrom esc i levels t = .ok ()) (hm : atMarks startsKey esc t = true)
    (hc : countTokens esc t ≤ owed levels + countFrom .opening esc t) : Remains esc levels t := by
  induction t generalizing esc i levels with
  | nil =>
    cases levels with
    | nil => exact ⟨.nil, .nil, trivial, rfl, rfl⟩
    | cons l ls => cases h
  | cons c r ih =>
    obtain ⟨hmark, htail⟩ := (atMarks_cons _ _ _ _).mp hm
    obtain ⟨levels', hstep, hrest⟩ := checkNestingFrom_cons_iff.mp h
    have henough := owed_le_of_check hrest
    rw [countFrom_cons, countTokens_cons] at hc
    generalize hs : sign esc c = s at hstep hmark hc
    cases hstep with
    | opening =>
      obtain ⟨rfl, rfl⟩ := sign_eq_opening_iff.mp hs
      have hesc : ('{' == '\\') = false := rfl
      rw [hesc] at hrest htail hc
      refine Remains.opening (ih hrest htail ?_)
      rw [owed_cons]
      simp only [if_true, Bool.false_eq_true, if_false, decide_false, Bool.false_and,
        reduceCtorEq] at hc ⊢
      omega
    | closing hl =>
      obtain ⟨rfl, rfl⟩ := sign_eq_closing_iff.mp hs
      have hesc : ('}' == '\\') = false := rfl
      rw [hesc] at hrest htail hc
      refine Remains.closing hl (ih hrest htail ?_)
      simp only [owed_cons, hl, if_true, Bool.false_eq_true, if_false, decide_false,
        Bool.false_and, reduceCtorEq] at hc
      omega
    | @token l ls hk =>
      obtain ⟨rfl, rfl⟩ := sign_eq_token_iff.mp hs
      have hesc : ('@' == '\\') = false := rfl
      rw [hesc] at hrest htail hc henough
      simp only [owed_cons, hk, if_true, if_false, decide_true, Bool.true_and,
        reduceCtorEq] at hc henough
      cases hl : l.owns with
      | true =>
        -- a second token of the fragment would be one too many
        simp only [hl, if_true] at hc
        omega
      | false =>
        simp only [hl, Bool.false_eq_true, if_false] at hc
        have hremains := ih hrest htail (by
          simp only [owed_cons, if_true]
          omega)
        obtain ⟨i, owns⟩ := l
        subst hl
        exact Remains.token hk hremains
    | bare hk => exact absurd (hmark rfl) (Bool.eq_false_iff.mp hk)
    | plain =>
      refine Remains.char hs (ih hrest htail ?_)
      simp only [if_false, Bool.false_eq_true, decide_false, Bool.false_and, reduceCtorEq] at hc
      omega

/-- A template that the strict check accepts has a tree, if each of its `@` starts a token. -/
theorem exists_spells {t : Text} (h : check true t = .ok ())
    (hm : atMarks startsKey false t = true) : ∃ f : Forest, f.Spells t := by
  obtain ⟨hcounts, hnesting⟩ := check_strict_eq_ok_iff.mp h
  obtain ⟨_, htokens⟩ := checkCounts_eq_ok_iff.mp hcounts
  have hle : countTokens false t ≤ owed [] + countFrom .opening false t := by
    show _ ≤ 0 + countOf .opening t
    omega
  obtain ⟨f, hf, mf, hk, ht⟩ := remains_of_check hnesting hm hle
  exact ⟨f, hf, mf, hk, ht⟩

/-! ## the check of a text that has a tree -/

end Forest

namespace Template

section
variable {esc : Bool} {a : Text}

theorem countTokens_append (h : IsPlain esc a) (w : Text) :
    countTokens esc (a ++ w) = countTokens (endsEscaping esc a) w := by
  induction a generalizing esc with
  | nil => rfl
  | cons c a ih =>
    obtain ⟨hc, ha⟩ := isPlain_cons.mp h
    rw [List.cons_append, countTokens_cons, hc, ih ha]
    exact Nat.zero_add _

theorem checkNestingFrom_append (h : IsPlain esc a) {i : Nat} {levels : List Level} {w : Text}
    (hw : checkNestingFrom (endsEscaping esc a) (i + a.length) levels w = .ok ()) :
    checkNestingFrom esc i levels (a ++ w) = .ok () := by
  induction a generalizing esc i with
  | nil => exact hw
  | cons c a ih =>
    obtain ⟨hc, ha⟩ := isPlain_cons.mp h
    have hi : i + (c :: a).length = i + 1 + a.length := by
      rw [List.length_cons]
      omega
    rw [hi] at hw
    refine checkNestingFrom_cons_iff.mpr ⟨levels, ?_, ih ha hw⟩
    rw [hc]
    exact .plain

theorem startsKey_append {key : Text} (h : startsKey key = true) (w : Text) :
    startsKey (key ++ w) = true := by
  cases key with
  | nil => cases h
  | cons c key => exact h

end

end Template

namespace Forest
open Template Render

section
variable {esc : Bool} {f : Forest}

theorem WellFormed.countTokens (h : WellFormed esc f) (w : Text) :
    countTokens esc (f.text ++ w) =
      f.size + f.keys.length + Template.countTokens (endsEscaping esc f.text) w := by
  induction h generalizing w with
  | nil => exact (Nat.zero_add _).symm
  | @char esc c r hc hr ih =>
    rw [text, List.cons_append, countTokens_cons, hc, ih, size, keys]
    exact Nat.zero_add _
  | @token key r hk hr ih =>
    have hends : endsEscaping ('@' == '\\') key = false := endsEscaping_key hk.chars
    rw [text, List.cons_append, List.cons_append, countTokens_cons, List.append_assoc,
      startsKey_append hk.starts, countTokens_append (isPlain_key hk.chars _), hends, ih,
      endsEscaping_cons, endsEscaping_append, hends, size, keys, List.length_cons]
    show 1 + _ = _
    omega
  | @fragment x r key hx he hk hr ihx ihr =>
    have hclose : Template.countTokens false ('}' :: (r.text ++ w)) =
        Template.countTokens false (r.text ++ w) := Nat.zero_add _
    have hsplit : bracketed x.text ++ r.text ++ w = '{' :: (x.text ++ '}' :: (r.text ++ w)) := by
      simp [bracketed]
    rw [text, endsEscaping_append, endsEscaping_bracketed, hsplit, countTokens_cons]
    show 0 + Template.countTokens false (x.text ++ '}' :: (r.text ++ w)) = _
    rw [ihx, he, hclose, ihr, size, keys, hk, List.length_singleton]
    omega

/-- What some tokens of a fragment do to the open fragments. -/
inductive Marks : List Text → List Level → List Level → Prop where
  | none (ls : List Level) : Marks [] ls ls
  | token {key : Text} {keys : List Text} {l : Level} {ls ls' : List Level}
      (h : Marks keys (⟨l.start, true⟩ :: ls) ls') : Marks (key :: keys) (l :: ls) ls'

/-- The check of the brackets goes through a tree, where no token stands outside a fragment. -/
theorem WellFormed.checkNestingFrom (h : WellFormed esc f) {i : Nat} {ls ls' : List Level}
    (hl : Marks f.keys ls ls') {w : Text}
    (hw : checkNestingFrom (endsEscaping esc f.text) (i + f.text.length) ls' w = .ok ()) :
    Template.checkNestingFrom esc i ls (f.text ++ w) = .ok () := by
  induction h generalizing i ls ls' w with
  | nil =>
    cases hl with
    | none => exact hw
  | @char esc c r hc hr ih =>
    have hi : i + (c :: r.text).length = i + 1 + r.text.length := by
      rw [List.length_cons]
      omega
    rw [text, hi] at hw
    refine checkNestingFrom_cons_iff.mpr ⟨ls, ?_, ih hl hw⟩
    rw [hc]
    exact .plain
  | @token key r hk hr ih =>
    have hends : endsEscaping ('@' == '\\') key = false := endsEscaping_key hk.chars
    have hi : i + ('@' :: key ++ r.text).length = i + 1 + key.length + r.text.length := by
      simp only [List.length_append, List.length_cons]
      omega
    rw [text, hi, endsEscaping_append, endsEscaping_token hk] at hw
    cases hl with
    | @token _ _ l ls _ hl =>
      have hstart : startsKey (key ++ r.text ++ w) = true := by
        rw [List.append_assoc]
        exact startsKey_append hk.starts _
      have hrest : Template.checkNestingFrom ('@' == '\\') (i + 1) (⟨l.start, true⟩ :: ls)
          (key ++ (r.text ++ w)) = .ok () := by
        refine checkNestingFrom_append (isPlain_key hk.chars _) ?_
        rw [hends]
        exact ih hl hw
      rw [← List.append_assoc] at hrest
      exact checkNestingFrom_cons_iff.mpr ⟨_, .token hstart, hrest⟩
  | @fragment x r key hx he hk hr ihx ihr =>
    have hsplit : bracketed x.text ++ r.text ++ w = '{' :: (x.text ++ '}' :: (r.text ++ w)) := by
      simp [bracketed]
    have hi : i + (bracketed x.text ++ r.text).length =
        i + 1 + x.text.length + 1 + r.text.length := by
      simp only [bracketed, List.length_append, List.length_cons, List.length_nil]
      omega
    have hmark : Marks x.keys (⟨i, false⟩ :: ls) (⟨i, true⟩ :: ls) := by
      rw [hk]
      exact .token (.none _)
    rw [text, hi, endsEscaping_append, endsEscaping_bracketed] at hw
    rw [text, hsplit]
    refine checkNestingFrom_cons_iff.mpr ⟨_, .opening, ihx hmark ?_⟩
    rw [he]
    exact checkNestingFrom_cons_iff.mpr ⟨_, .closing rfl, ihr hl hw⟩

/-- The text of a tree is a template that the strict check accepts. -/
theorem Spells.check {t : Text} (h : f.Spells t) : check true t = .ok () := by
  have hopening := h.wf.countFrom_opening
  have htokens := h.wf.countTokens []
  have hnest := nest_count (h.wf.nest 0)
  have hmark : Marks f.keys [] [] := by
    rw [h.keys]
    exact .none []
  have hchecked : checkNesting t = .ok () := by
    have := h.wf.checkNestingFrom (i := 0) hmark (w := []) rfl
    rwa [List.append_nil, h.text] at this
  rw [List.append_nil, h.text, h.keys] at htokens
  rw [h.text] at hopening hnest
  rw [countFrom] at hopening
  have hcounts : countOf .opening t = countOf .closing t ∧
      countOf .opening t = Template.countTokens false t := by
    rw [htokens, countOf, countOf, hopening]
    exact ⟨by omega, rfl⟩
  exact check_strict_eq_ok_iff.mpr ⟨checkCounts_eq_ok_iff.mpr hcounts, hchecked⟩

end

end Forest
end Citations
