import Citations.Proofs.Forest
import Citations.Proofs.Progress

/-!
# A run over a fragment tree

A pass replaces fragment texts wherever they occur, also inside fragments that it has not come to
yet.  On a text whose tree has no `{` among its characters, and with values that have none, this is
harmless: a fragment text then occurs only as a fragment of the tree, and what it becomes stands
for the same text in the end.

* `Context.leafText`     what a leaf becomes, where debugging shows the default placeholder;
* `Context.collapse f`   the tree filled from the innermost fragments outwards;
* `Stands c esc f g`     `g` can stand in the place of `f`: it collapses to the same text;
* `replace_text`         replacing a fragment text is `Forest.exchange` on the tree;
* `stands_of_pass`       a pass leaves a tree that stands for the one before, with less to do;
* `build_collapse`       a citation is its collapsed tree without the escapes.
-/

namespace Citations

namespace Render
open Template

/-! ## leaves -/

section
variable (c : Context)

/-- Unresolved tokens are shown, if at all, by the default placeholder. -/
def Context.ShowsKeys : Prop :=
  c.options.debug = true → c.options.placeholder = "[\x7bkey\x7d]".toList

/-- What a leaf becomes. -/
def Context.leafText (segment : Text) : Text :=
  match firstToken? segment with
  | none => segment
  | some k =>
    if c.resolve k.key ≠ [] then k.filledWith (escape (c.resolve k.key))
    else if c.options.debug then k.filledWith ('[' :: k.key ++ [']'])
    else []

variable {c}

theorem expands_leafText (h : c.ShowsKeys) (segment : Text) :
    Expands c segment (c.leafText segment) := by
  rw [Context.leafText]
  cases hk : firstToken? segment with
  | none => exact .whole hk
  | some k =>
    by_cases hv : c.resolve k.key = []
    · cases hd : c.options.debug with
      | false => simpa [hv] using Expands.removed hk hv hd
      | true =>
        have hf : Placeholder.fill c.memory c.options.placeholder k.key =
            .ok ('[' :: k.key ++ [']']) := by
          rw [h hd, Placeholder.fill_default]
        simpa [hv] using Expands.filled hk (.placeholder hv hd hf)
    · simpa [hv] using Expands.filled hk (.value hv)

theorem expands_iff (h : c.ShowsKeys) {segment new : Text} :
    Expands c segment new ↔ new = c.leafText segment := by
  constructor
  · intro hn
    have h1 := (expand_outcome c).mpr hn
    have h2 := (expand_outcome c).mpr (expands_leafText h segment)
    exact Except.ok.inj (h1.symm.trans h2)
  · rintro rfl
    exact expands_leafText h segment

/-- A leaf with plain text before its token: the key may go on in what follows it. -/
theorem leafText_token {b key a : Text} (hb : IsPlain false b) (he : endsEscaping false b = false)
    (hk : IsKey key) :
    c.leafText (b ++ '@' :: key ++ a) =
      if c.resolve (key ++ a.takeWhile Text.isKeyChar) ≠ [] then
        b ++ escape (c.resolve (key ++ a.takeWhile Text.isKeyChar)) ++ a.dropWhile Text.isKeyChar
      else if c.options.debug then
        b ++ ('[' :: (key ++ a.takeWhile Text.isKeyChar) ++ [']']) ++ a.dropWhile Text.isKeyChar
      else [] := by
  have hstart := startsKeyOrJoin_key_append hk.ne_nil hk.chars a
  have htoken : firstToken? (b ++ '@' :: key ++ a) =
      some ⟨b, key ++ a.takeWhile Text.isKeyChar, a.dropWhile Text.isKeyChar⟩ := by
    rw [List.append_assoc, List.cons_append, firstToken?_append hb he hstart,
      List.takeWhile_append_of_pos hk.chars, List.dropWhile_append_of_pos hk.chars]
  rw [Context.leafText, htoken]
  rfl

end

end Render

namespace Template

/-- A text without signs and without a `{`. -/
structure Flat (esc : Bool) (t : Text) : Prop where
  plain : IsPlain esc t
  bare : '{' ∉ t

theorem flat_nil (esc : Bool) : Flat esc [] := ⟨isPlain_nil esc, List.not_mem_nil⟩

theorem Flat.append {esc : Bool} {a b : Text} (ha : Flat esc a)
    (hb : Flat (endsEscaping esc a) b) : Flat esc (a ++ b) :=
  ⟨isPlain_append.mpr ⟨ha.plain, hb.plain⟩,
    fun h => (List.mem_append.mp h).elim ha.bare hb.bare⟩

theorem Flat.of_append {esc : Bool} {a b : Text} (h : Flat esc (a ++ b)) :
    Flat esc a ∧ Flat (endsEscaping esc a) b :=
  ⟨⟨(isPlain_append.mp h.plain).1, fun hm => h.bare (List.mem_append_left _ hm)⟩,
    ⟨(isPlain_append.mp h.plain).2, fun hm => h.bare (List.mem_append_right _ hm)⟩⟩

end Template

namespace Forest
open Template Render

/-! ## forests put together -/

def append : Forest → Forest → Forest
  | nil, g => g
  | char c r, g => char c (r.append g)
  | token key r, g => token key (r.append g)
  | fragment x r, g => fragment x (r.append g)

def ofText : Text → Forest
  | [] => nil
  | c :: r => char c (ofText r)

/-- No character of the forest is a `{`. -/
def Unbraced : Forest → Prop
  | nil => True
  | char c r => c ≠ '{' ∧ r.Unbraced
  | token _ r => r.Unbraced
  | fragment x r => x.Unbraced ∧ r.Unbraced

/-- A well-formed forest whose keys cannot be longer and whose characters are no `{`. -/
structure Sound (esc : Bool) (f : Forest) : Prop where
  wf : WellFormed esc f
  maximal : f.Maximal
  unbraced : f.Unbraced

/-- The text of a forest with every fragment filled, the inner ones first. -/
def collapse (c : Context) : Forest → Text
  | nil => []
  | char d r => d :: r.collapse c
  | token key r => '@' :: key ++ r.collapse c
  | fragment x r => c.leafText (x.collapse c) ++ r.collapse c

/-! ## putting one forest behind another -/

theorem text_append (f g : Forest) : (f.append g).text = f.text ++ g.text := by
  induction f with
  | nil => rfl
  | char d r ih => rw [append, text, ih, text, List.cons_append]
  | token key r ih => rw [append, text, ih, text, List.append_assoc]
  | fragment x r _ ih => rw [append, text, ih, text, List.append_assoc]

theorem keys_append (f g : Forest) : (f.append g).keys = f.keys ++ g.keys := by
  induction f with
  | nil => rfl
  | char d r ih => exact ih
  | token key r ih => rw [append, keys, ih, keys, List.cons_append]
  | fragment x r _ ih => exact ih

theorem size_append (f g : Forest) : (f.append g).size = f.size + g.size := by
  induction f with
  | nil => exact (Nat.zero_add _).symm
  | char d r ih => exact ih
  | token key r ih => exact ih
  | fragment x r _ ih =>
    rw [append, size, ih, size]
    omega

theorem collapse_append (c : Context) (f g : Forest) :
    (f.append g).collapse c = f.collapse c ++ g.collapse c := by
  induction f with
  | nil => rfl
  | char d r ih => rw [append, collapse, ih, collapse, List.cons_append]
  | token key r ih => rw [append, collapse, ih, collapse, List.append_assoc]
  | fragment x r _ ih => rw [append, collapse, ih, collapse, List.append_assoc]

theorem Sound.append {esc : Bool} {f g : Forest} (hf : Sound esc f) (hk : f.keys = [])
    (he : endsEscaping esc f.text = false) (hg : Sound false g) : Sound esc (f.append g) := by
  obtain ⟨wf, mf, uf⟩ := hf
  induction wf with
  | @nil esc =>
    have he : esc = false := he
    rw [he]
    exact hg
  | char hc hr ih =>
    have := ih hk he mf uf.2
    exact ⟨.char hc this.wf, this.maximal, uf.1, this.unbraced⟩
  | token => cases hk
  | @fragment x r key hx hex hkx hr _ ih =>
    rw [text, endsEscaping_append, endsEscaping_bracketed] at he
    have := ih hk he mf.2 uf.2
    exact ⟨.fragment hx hex hkx this.wf, ⟨mf.1, this.maximal⟩, uf.1, this.unbraced⟩

/-! ## plain text as a forest -/

theorem text_ofText (t : Text) : (ofText t).text = t := by
  induction t with
  | nil => rfl
  | cons d r ih => rw [ofText, text, ih]

theorem keys_ofText (t : Text) : (ofText t).keys = [] := by
  induction t with
  | nil => rfl
  | cons d r ih => exact ih

theorem size_ofText (t : Text) : (ofText t).size = 0 := by
  induction t with
  | nil => rfl
  | cons d r ih => exact ih

theorem sound_ofText {esc : Bool} {t : Text} (hp : IsPlain esc t) (hb : '{' ∉ t) :
    Sound esc (ofText t) := by
  induction t generalizing esc with
  | nil => exact ⟨.nil, trivial, trivial⟩
  | cons d r ih =>
    obtain ⟨hd, hr⟩ := isPlain_cons.mp hp
    have := ih hr fun hm => hb (List.mem_cons_of_mem _ hm)
    exact ⟨.char hd this.wf, this.maximal, fun e => hb (e ▸ List.mem_cons_self), this.unbraced⟩

theorem collapse_of_size (c : Context) {f : Forest} (h : f.size = 0) : f.collapse c = f.text := by
  induction f with
  | nil => rfl
  | char d r ih => rw [collapse, ih h, text]
  | token key r ih => rw [collapse, ih h, text]
  | fragment x r =>
    rw [size] at h
    omega

/-! ## a longer key -/

/-- A token with as long a key as what follows allows. -/
def tokenOf (key : Text) (r : Forest) : Forest := token (key ++ r.leadKey) r.afterKey

theorem text_tokenOf (key : Text) (r : Forest) : (tokenOf key r).text = '@' :: key ++ r.text := by
  rw [tokenOf, text, List.cons_append, List.append_assoc, leadKey_append, List.cons_append]

theorem size_afterKey (f : Forest) : f.afterKey.size = f.size := by
  induction f with
  | char d r ih =>
    by_cases hd : Text.isKeyChar d = true
    · rw [afterKey_char hd, ih, size]
    · simp [afterKey, hd]
  | nil | token | fragment => rfl

theorem leadKey_append_collapse (c : Context) (f : Forest) :
    f.leadKey ++ f.afterKey.collapse c = f.collapse c := by
  induction f with
  | char d r ih =>
    by_cases hd : Text.isKeyChar d = true
    · rw [leadKey_char hd, afterKey_char hd, List.cons_append, ih, collapse]
    · simp [leadKey, afterKey, hd]
  | nil | token | fragment => rfl

theorem collapse_tokenOf (c : Context) (key : Text) (r : Forest) :
    (tokenOf key r).collapse c = '@' :: key ++ r.collapse c := by
  rw [tokenOf, collapse, List.cons_append, List.append_assoc, leadKey_append_collapse,
    List.cons_append]

theorem Unbraced.afterKey {f : Forest} (h : f.Unbraced) : f.afterKey.Unbraced := by
  induction f with
  | char d r ih =>
    by_cases hd : Text.isKeyChar d = true
    · rw [afterKey_char hd]
      exact ih h.2
    · simpa [Forest.afterKey, hd] using h
  | nil | token | fragment => exact h

theorem Sound.tokenOf {key : Text} {r : Forest} (hk : IsKey key) (h : Sound false r) :
    Sound false (tokenOf key r) := by
  have hkey : IsKey (key ++ r.leadKey) := by
    refine ⟨?_, fun d hd => ?_⟩
    · have hs := hk.starts
      cases key with
      | nil => cases hs
      | cons d key => exact hs
    · exact (List.mem_append.mp hd).elim (hk.chars d) (isKeyChar_leadKey r d)
  exact ⟨.token hkey h.wf.afterKey, ⟨startsKeyOrJoin_afterKey r, h.maximal.afterKey⟩,
    h.unbraced.afterKey⟩

/-! ## replacing on the tree -/

/-- Every fragment with the interior `old`, at any depth, exchanged for `new`. -/
def exchange (old : Text) (new : Forest) : Forest → Forest
  | nil => nil
  | char d r => char d (exchange old new r)
  | token key r => tokenOf key (exchange old new r)
  | fragment x r =>
    if x.text = old then new.append (exchange old new r)
    else fragment (exchange old new x) (exchange old new r)

/-- Replacing a fragment text exchanges fragments of the tree and nothing else. -/
theorem replace_text {old : Text} (ho : IsInterior old) (new : Forest) {esc : Bool} {f : Forest}
    (hf : WellFormed esc f) (hu : f.Unbraced) (w : Text) :
    Text.replace (bracketed old) new.text (f.text ++ w) =
      (exchange old new f).text ++ Text.replace (bracketed old) new.text w := by
  have hne : bracketed old ≠ [] := bracketed_ne_nil old
  have hstart : ∀ {d : Char} {t : Text}, d ≠ '{' → ¬ bracketed old <+: d :: t := by
    intro d t hd hp
    exact hd (List.cons_prefix_cons.mp hp).1.symm
  induction hf generalizing w with
  | nil => rfl
  | @char esc d r hd hr ih =>
    rw [text, List.cons_append, Text.replace_cons _ hne (hstart hu.1), ih hu.2, exchange, text,
      List.cons_append]
  | @token key r hk hr ih =>
    have hkey : '{' ∉ '@' :: key := by
      intro hm
      rcases List.mem_cons.mp hm with h | h
      · exact absurd h (by decide)
      · exact absurd (hk.chars _ h) (by decide)
    rw [text, List.append_assoc, bracketed, List.cons_append, Text.replace_append_of_not_mem hkey]
    have := ih hu w
    rw [bracketed, List.cons_append] at this
    rw [this, exchange, text_tokenOf, List.append_assoc]
  | @fragment x r key hx he hk hr ihx ihr =>
    by_cases hxo : x.text = old
    · rw [exchange, if_pos hxo, text, hxo, List.append_assoc, Text.replace_append_self _ _ hne,
        ihr hu.2, text_append, List.append_assoc]
    · have hmiss : ¬ bracketed old <+: bracketed x.text ++ (r.text ++ w) := fun hp =>
        hxo (eq_of_starts_bracketed (hx.isInterior he) ho hp).symm
      have hsplit : bracketed x.text ++ (r.text ++ w) =
          '{' :: (x.text ++ '}' :: (r.text ++ w)) := by simp [bracketed]
      rw [hsplit] at hmiss
      rw [exchange, if_neg hxo, text, List.append_assoc, hsplit, Text.replace_cons _ hne hmiss,
        ihx hu.1, Text.replace_cons _ hne (hstart (by decide)), ihr hu.2, text]
      simp [bracketed]

/-! ## standing for the same text -/

/-- `g` can stand in the place of `f`: it collapses to the same text, and there is no more to fill
in it. -/
structure Stands (c : Context) (esc : Bool) (f g : Forest) : Prop where
  sound : Sound esc g
  ends : endsEscaping esc g.text = endsEscaping esc f.text
  keys : g.keys.length = f.keys.length
  collapse : g.collapse c = f.collapse c
  size : g.size ≤ f.size

section
variable {c : Context}

theorem Stands.refl {esc : Bool} {f : Forest} (h : Sound esc f) : Stands c esc f f :=
  ⟨h, rfl, rfl, rfl, Nat.le_refl _⟩

theorem Stands.trans {esc : Bool} {f g h : Forest} (hfg : Stands c esc f g)
    (hgh : Stands c esc g h) : Stands c esc f h :=
  ⟨hgh.sound, hgh.ends.trans hfg.ends, hgh.keys.trans hfg.keys,
    hgh.collapse.trans hfg.collapse, Nat.le_trans hgh.size hfg.size⟩

theorem Stands.char {esc : Bool} {d : Char} {r s : Forest} (hd : sign esc d = .plain)
    (hu : d ≠ '{') (h : Stands c (d == '\\') r s) : Stands c esc (.char d r) (.char d s) :=
  ⟨⟨.char hd h.sound.wf, h.sound.maximal, hu, h.sound.unbraced⟩, h.ends, h.keys,
    by rw [Forest.collapse, h.collapse, Forest.collapse], h.size⟩

/-- The key takes what it can from what stands behind it now. -/
theorem Stands.token {key : Text} {r s : Forest} (hk : IsKey key) (h : Stands c false r s) :
    Stands c false (.token key r) (tokenOf key s) := by
  refine ⟨h.sound.tokenOf hk, ?_, ?_, ?_, ?_⟩
  · rw [text_tokenOf, text, endsEscaping_append, endsEscaping_append, endsEscaping_token hk, h.ends]
  · rw [tokenOf, Forest.keys, keys_afterKey, Forest.keys, List.length_cons, List.length_cons,
      h.keys]
  · rw [collapse_tokenOf, h.collapse, Forest.collapse]
  · rw [tokenOf, Forest.size, size_afterKey, Forest.size]
    exact h.size

theorem Stands.fragment {x y r s : Forest} {key : Text} (hk : x.keys = [key])
    (he : endsEscaping false x.text = false) (hin : Stands c false x y) (h : Stands c false r s) :
    Stands c false (.fragment x r) (.fragment y s) := by
  have hkeys : y.keys.length = 1 := by
    rw [hin.keys, hk]
    rfl
  obtain ⟨k, hy⟩ := List.length_eq_one_iff.mp hkeys
  refine ⟨⟨.fragment hin.sound.wf (hin.ends.trans he) hy h.sound.wf,
    ⟨hin.sound.maximal, h.sound.maximal⟩, hin.sound.unbraced, h.sound.unbraced⟩, ?_, h.keys, ?_, ?_⟩
  · rw [text, endsEscaping_append, endsEscaping_bracketed, h.ends, text, endsEscaping_append,
      endsEscaping_bracketed]
  · rw [Forest.collapse, hin.collapse, h.collapse, Forest.collapse]
  · have hx := hin.size
    have hr := h.size
    rw [Forest.size, Forest.size]
    omega

/-- In the place of the first fragment stands what stands for it alone. -/
theorem Stands.append {x new r s : Forest} (hnew : Stands c false (.fragment x nil) new)
    (h : Stands c false r s) : Stands c false (.fragment x r) (new.append s) := by
  have hkeys : new.keys = [] := List.length_eq_zero_iff.mp hnew.keys
  have hends : endsEscaping false new.text = false := by
    rw [hnew.ends, text, endsEscaping_append, endsEscaping_bracketed]
    rfl
  refine ⟨hnew.sound.append hkeys hends h.sound, ?_, ?_, ?_, ?_⟩
  · rw [text_append, endsEscaping_append, hends, h.ends, text, endsEscaping_append,
      endsEscaping_bracketed]
  · rw [keys_append, hkeys, List.nil_append, h.keys, Forest.keys]
  · rw [collapse_append, hnew.collapse, h.collapse, Forest.collapse, Forest.collapse,
      Forest.collapse, List.append_nil]
  · have hx := hnew.size
    have hr := h.size
    rw [Forest.size, Forest.size] at hx
    rw [size_append, Forest.size]
    omega

theorem Within.eq_of_text {x y : Forest} {key : Text} (hx : Within key x) (mx : x.Maximal)
    (hy : WellFormed false y) (my : y.Maximal) (h : y.text = x.text) : y = x :=
  (hy.unique hx.wf my mx (Or.inl rfl) (Or.inl rfl) (congrArg (· ++ []) h)).1

/-- A fragment exchanged for what stands for it, wherever it occurs. -/
theorem Stands.exchange {x new : Forest} {key : Text} (hx : Within key x) (mx : x.Maximal)
    (hnew : Stands c false (.fragment x nil) new) {esc : Bool} {f : Forest} (hf : Sound esc f) :
    Stands c esc f (exchange x.text new f) := by
  obtain ⟨wf, mf, uf⟩ := hf
  induction wf with
  | nil => exact .refl ⟨.nil, trivial, trivial⟩
  | char hd hr ih => exact .char hd uf.1 (ih mf uf.2)
  | token hk hr ih => exact .token hk (ih mf.2 uf)
  | @fragment y r k hy he hk hr ihy ihr =>
    have hrest := ihr mf.2 uf.2
    by_cases hyx : y.text = x.text
    · -- the fragment met is the fragment itself
      obtain rfl := hx.eq_of_text mx hy mf.1 hyx
      rw [Forest.exchange, if_pos rfl]
      exact hnew.append hrest
    · rw [Forest.exchange, if_neg hyx]
      exact .fragment hk he (ihy mf.1 uf.1) hrest

theorem size_exchange_lt {x new : Forest} {key : Text} (hx : Within key x) (mx : x.Maximal)
    (hnew : Stands c false (fragment x nil) new) (hlt : new.size < x.size + 1) {esc : Bool}
    {f : Forest} (hf : Sound esc f) (hm : x ∈ f.fragments) :
    (exchange x.text new f).size < f.size := by
  obtain ⟨wf, mf, uf⟩ := hf
  induction wf with
  | nil => cases hm
  | char hd hr ih => exact ih hm mf uf.2
  | token hk hr ih =>
    rw [exchange, tokenOf, size, size_afterKey, size]
    exact ih hm mf.2 uf
  | @fragment y r k hy he hk hr _ ihr =>
    have hrest := (Stands.exchange hx mx hnew ⟨hr, mf.2, uf.2⟩).size
    by_cases hyx : y.text = x.text
    · obtain rfl := hx.eq_of_text mx hy mf.1 hyx
      rw [exchange, if_pos rfl, size_append, size]
      omega
    · have hinner := (Stands.exchange hx mx hnew ⟨hy, mf.1, uf.1⟩).size
      have hmr : x ∈ r.fragments := by
        rcases List.mem_cons.mp hm with rfl | h
        · exact absurd rfl hyx
        · exact h
      have := ihr hmr mf.2 uf.2
      rw [exchange, if_neg hyx, size, size]
      omega

end

/-! ## what collapses -/

section
variable {c : Context}

/-- A flat text that hands on no escape, so that what follows it is read on its own. -/
structure Closed (t : Text) : Prop where
  flat : Flat false t
  ends : endsEscaping false t = false

theorem closed_nil : Closed [] := ⟨flat_nil _, rfl⟩

theorem Closed.append {a b : Text} (ha : Closed a) (hb : Closed b) : Closed (a ++ b) := by
  refine ⟨ha.flat.append ?_, ?_⟩
  · rw [ha.ends]
    exact hb.flat
  · rw [endsEscaping_append, ha.ends, hb.ends]

theorem Closed.dropWhile_key {a : Text} (h : Closed a) : Closed (a.dropWhile Text.isKeyChar) := by
  obtain ⟨hflat, hends⟩ := h
  rw [← List.takeWhile_append_dropWhile (p := Text.isKeyChar) (l := a)] at hflat hends
  have hrest := hflat.of_append.2
  rw [endsEscaping_append, endsEscaping_key isKeyChar_of_mem_takeWhile] at hends
  rw [endsEscaping_key isKeyChar_of_mem_takeWhile] at hrest
  exact ⟨hrest, hends⟩

theorem closed_escape {v : Text} (h : '{' ∉ v) : Closed (escape v) :=
  ⟨⟨isPlain_escape _ _, fun hm => h (mem_of_mem_escape (by decide) (by decide) hm)⟩,
    endsEscaping_escape _⟩

theorem closed_default {key : Text} (hk : ∀ d ∈ key, Text.isKeyChar d = true) :
    Closed ('[' :: key ++ [']']) := by
  have hnone : ∀ d ∈ '[' :: key ++ [']'], d ∉ Escaper.syntaxChars := by
    intro d hd
    rcases Placeholder.mem_default.mp hd with rfl | hd | rfl
    · decide
    · exact not_mem_syntaxChars_of_isKeyChar (hk d hd)
    · decide
  exact ⟨⟨isPlain_of_unsigned hnone _, fun hm => hnone _ hm (by decide)⟩,
    endsEscaping_concat _ _ _⟩

/-- Of a filled leaf no sign is left. -/
theorem closed_leafText (hv : ∀ key, '{' ∉ c.resolve key) {b key a : Text} (hb : Closed b)
    (hk : IsKey key) (ha : Closed a) : Closed (c.leafText (b ++ '@' :: key ++ a)) := by
  rw [leafText_token hb.flat.plain hb.ends hk]
  split
  · exact (hb.append (closed_escape (hv _))).append ha.dropWhile_key
  · split
    · refine (hb.append (closed_default fun d hd => ?_)).append ha.dropWhile_key
      exact (List.mem_append.mp hd).elim (hk.chars d) (isKeyChar_of_mem_takeWhile d)
    · exact closed_nil

/-- The shape of a collapsed forest: flat but for its token. -/
structure Shape (c : Context) (esc : Bool) (f : Forest) : Prop where
  ends : endsEscaping esc (f.collapse c) = endsEscaping esc f.text
  flat : f.keys = [] → Flat esc (f.collapse c)
  split : ∀ key, f.keys = [key] → ∃ b a, f.collapse c = b ++ '@' :: key ++ a ∧ IsKey key ∧
    Flat esc b ∧ endsEscaping esc b = false ∧ Flat false a

theorem Within.closed_leafText (hv : ∀ key, '{' ∉ c.resolve key) {key : Text} {x : Forest}
    (hx : Within key x) (h : Shape c false x) : Closed (c.leafText (x.collapse c)) := by
  obtain ⟨b, a, hsplit, hk, hb, hbe, ha⟩ := h.split key hx.keys
  have hae : endsEscaping false a = false := by
    have := h.ends.trans hx.ends
    rwa [hsplit, endsEscaping_append, endsEscaping_append, endsEscaping_token hk] at this
  rw [hsplit]
  exact Forest.closed_leafText hv ⟨hb, hbe⟩ hk ⟨ha, hae⟩

theorem WellFormed.shape (hv : ∀ key, '{' ∉ c.resolve key) {esc : Bool} {f : Forest}
    (hf : WellFormed esc f) (uf : f.Unbraced) : Shape c esc f := by
  induction hf with
  | nil => exact ⟨rfl, fun _ => flat_nil _, fun _ h => nomatch h⟩
  | @char esc d r hd hr ih =>
    have h := ih uf.2
    have hone : ∀ {t}, Flat (d == '\\') t → Flat esc (d :: t) := by
      intro t ht
      refine ⟨isPlain_cons.mpr ⟨hd, ht.plain⟩, ?_⟩
      intro hm
      exact (List.mem_cons.mp hm).elim (fun e => uf.1 e.symm) ht.bare
    refine ⟨h.ends, fun hk => hone (h.flat hk), ?_⟩
    intro key hk
    obtain ⟨b, a, hsplit, hkey, hb, hbe, ha⟩ := h.split key hk
    exact ⟨d :: b, a, by rw [collapse, hsplit]; rfl, hkey, hone hb, hbe, ha⟩
  | @token k r hk hr ih =>
    have h := ih uf
    refine ⟨?_, fun hkeys => (nomatch hkeys), ?_⟩
    · rw [collapse, text, endsEscaping_append, endsEscaping_append, endsEscaping_token hk, h.ends]
    · intro key hkeys
      obtain ⟨hkk, hrest⟩ := List.cons.inj hkeys
      rw [← hkk]
      exact ⟨[], r.collapse c, rfl, hk, flat_nil _, rfl, h.flat hrest⟩
  | @fragment x r k hx he hk hr ihx ihr =>
    have h := ihr uf.2
    obtain ⟨hflat, hends⟩ := Within.closed_leafText hv ⟨hx, he, hk⟩ (ihx uf.1)
    refine ⟨?_, ?_, ?_⟩
    · rw [collapse, text, endsEscaping_append, endsEscaping_append, endsEscaping_bracketed, hends,
        h.ends]
    · intro hkeys
      refine hflat.append ?_
      rw [hends]
      exact h.flat hkeys
    · intro key hkeys
      obtain ⟨b, a, hsplit, hkey, hb, hbe, ha⟩ := h.split key hkeys
      refine ⟨c.leafText (x.collapse c) ++ b, a, ?_, hkey, ?_, ?_, ha⟩
      · rw [collapse, hsplit]
        simp
      · exact hflat.append (by rwa [hends])
      · rw [endsEscaping_append, hends, hbe]

/-! ## a pass over a tree -/

theorem Sound.of_mem_fragments {esc : Bool} {f x : Forest} (hf : Sound esc f)
    (hx : x ∈ f.fragments) : Sound false x ∧ ∃ key, Within key x := by
  obtain ⟨wf, mf, uf⟩ := hf
  refine ⟨?_, wf.of_mem_fragments hx⟩
  induction wf with
  | nil => cases hx
  | char _ _ ih => exact ih hx mf uf.2
  | token _ _ ih => exact ih hx mf.2 uf
  | fragment hy _ _ _ _ ih =>
    rcases List.mem_cons.mp hx with rfl | hx
    · exact ⟨hy, mf.1, uf.1⟩
    · exact ih hx mf.2 uf.2

theorem exists_mem_fragments {f : Forest} (h : 0 < f.size) : ∃ x, x ∈ f.fragments := by
  induction f with
  | nil => cases h
  | char _ r ih => exact ih h
  | token _ r ih => exact ih h
  | fragment x r => exact ⟨x, List.mem_cons_self⟩

theorem Within.isNested_iff {key : Text} {x : Forest} (hx : Within key x) :
    isNested (bracketed x.text) = true ↔ 0 < x.size := by
  rw [isNested_bracketed hx.ends, ← hx.wf.countFrom_opening, countFrom, List.count_pos_iff]
  simp

/-- What a pass makes of the text of a forest is the text of a forest that stands for it; where
there was a fragment, there is less to fill. -/
def Settles (c : Context) (t t' : Text) : Prop :=
  ∀ f, Sound false f → f.text = t →
    ∃ g, Stands c false f g ∧ g.text = t' ∧ (0 < f.size → g.size < f.size)

/-- `new` can stand in the place of a fragment with the interior `x`. -/
structure Fits (c : Context) (x new : Forest) : Prop where
  sound : Sound false x
  within : ∃ key, Within key x
  stands : Stands c false (fragment x nil) new
  smaller : new.size < x.size + 1

theorem endsEscaping_fragment (x : Forest) : endsEscaping false (fragment x nil).text = false := by
  rw [text, endsEscaping_append, endsEscaping_bracketed]
  rfl

theorem stands_ofText {x : Forest} (hsize : x.size = 0) (h : Closed (c.leafText x.text)) :
    Stands c false (fragment x nil) (ofText (c.leafText x.text)) := by
  refine ⟨sound_ofText h.flat.plain h.flat.bare, ?_, ?_, ?_, ?_⟩
  · rw [text_ofText, endsEscaping_fragment, h.ends]
  · rw [keys_ofText]
    rfl
  · rw [collapse_of_size c (size_ofText _), text_ofText, collapse, collapse_of_size c hsize]
    exact (List.append_nil _).symm
  · rw [size_ofText]
    exact Nat.zero_le _

theorem fits_of_pair (hd : c.ShowsKeys) (hv : ∀ key, '{' ∉ c.resolve key) {f : Forest}
    (hf : Sound false f) {old t : Text} (h : Pair c (Settles c) f.text old t) :
    ∃ x ∈ f.fragments, ∃ new, old = bracketed x.text ∧ new.text = t ∧ Fits c x new := by
  have hmem : old ∈ openTexts f.text := by
    cases h with
    | nested hm => exact hm
    | leaf hm => exact hm
  obtain ⟨x, hx, rfl⟩ := hf.wf.mem_openTexts_iff.mp hmem
  obtain ⟨sx, key, hin⟩ := hf.of_mem_fragments hx
  refine ⟨x, hx, ?_⟩
  cases h with
  | nested _ hn _ ih =>
    rw [interior_bracketed] at ih
    obtain ⟨y, hy, rfl, hlt⟩ := ih x sx rfl
    have hstands : Stands c false (fragment x nil) (fragment y nil) :=
      .fragment hin.keys hin.ends hy (.refl ⟨.nil, trivial, trivial⟩)
    have hsize : y.size < x.size := hlt (hin.isNested_iff.mp hn)
    exact ⟨fragment y nil, rfl, List.append_nil _, sx, ⟨key, hin⟩, hstands,
      Nat.succ_lt_succ hsize⟩
  | leaf _ hn he =>
    rw [interior_bracketed, expands_iff hd] at he
    have hsize : x.size = 0 := by
      have := mt hin.isNested_iff.mpr (by rw [hn]; decide)
      omega
    have hclosed := hin.closed_leafText hv (hin.wf.shape hv sx.unbraced)
    rw [collapse_of_size c hsize] at hclosed
    rw [he]
    refine ⟨ofText _, rfl, text_ofText _, sx, ⟨key, hin⟩, stands_ofText hsize hclosed, ?_⟩
    rw [size_ofText]
    exact Nat.succ_pos _

theorem Fits.replace {x new f : Forest} (h : Fits c x new) (hf : Sound false f) :
    Stands c false f (exchange x.text new f) ∧
      (exchange x.text new f).text = Text.replace (bracketed x.text) new.text f.text := by
  obtain ⟨key, hin⟩ := h.within
  refine ⟨.exchange hin h.sound.maximal h.stands hf, ?_⟩
  have hrep := replace_text hin.isInterior new hf.wf hf.unbraced []
  rw [List.append_nil, Text.replace_nil_right _ (bracketed_ne_nil _), List.append_nil] at hrep
  exact hrep.symm

theorem stands_replaceAll {pairs : List (Text × Text)}
    (hp : ∀ p ∈ pairs, ∃ x new, p.1 = bracketed x.text ∧ new.text = p.2 ∧ Fits c x new)
    {f : Forest} (hf : Sound false f) :
    ∃ g, Stands c false f g ∧ g.text = Text.replaceAll pairs f.text := by
  induction pairs generalizing f with
  | nil => exact ⟨f, .refl hf, rfl⟩
  | cons p ps ih =>
    obtain ⟨⟨x, new, hold, hnew, hfit⟩, hps⟩ := List.forall_mem_cons.mp hp
    obtain ⟨hstep, hrep⟩ := hfit.replace hf
    obtain ⟨g, hg, htext⟩ := ih hps hstep.sound
    refine ⟨g, hstep.trans hg, ?_⟩
    rw [htext, Text.replaceAll_cons, hold, ← hnew, hrep]

theorem stands_of_pass (hd : c.ShowsKeys) (hv : ∀ key, '{' ∉ c.resolve key) {t t' : Text}
    (h : (pass c t).outcome = .ok t') : Settles c t t' := by
  refine pass_induction c (motive := Settles c) (fun t solved hs hpairs => ?_) h
  rintro f hf rfl
  have hfits : ∀ p ∈ solved, ∃ x ∈ f.fragments, ∃ new, p.1 = bracketed x.text ∧ new.text = p.2 ∧
      Fits c x new := fun p hp => fits_of_pair hd hv hf (hpairs p hp)
  have hfits' : ∀ p ∈ solved, ∃ x new, p.1 = bracketed x.text ∧ new.text = p.2 ∧ Fits c x new := by
    intro p hp
    obtain ⟨x, _, new, h⟩ := hfits p hp
    exact ⟨x, new, h⟩
  cases solved with
  | nil =>
    refine ⟨f, .refl hf, rfl, ?_⟩
    intro hpos
    obtain ⟨x, hx⟩ := exists_mem_fragments hpos
    have hmem : bracketed x.text ∈ openTexts f.text := hf.wf.mem_openTexts_iff.mpr ⟨x, hx, rfl⟩
    rw [← hs] at hmem
    cases hmem
  | cons p ps =>
    -- the first of the fragments is there, so its replacement makes the tree smaller
    obtain ⟨x, hx, new, hold, hnew, hfit⟩ := hfits p List.mem_cons_self
    obtain ⟨hstep, hrep⟩ := hfit.replace hf
    obtain ⟨key, hin⟩ := hfit.within
    have hlt := size_exchange_lt hin hfit.sound.maximal hfit.stands hfit.smaller hf hx
    obtain ⟨g, hg, htext⟩ :=
      stands_replaceAll (fun p hp => hfits' p (List.mem_cons_of_mem _ hp)) hstep.sound
    refine ⟨g, hstep.trans hg, ?_, fun _ => Nat.lt_of_le_of_lt hg.size hlt⟩
    rw [htext, Text.replaceAll_cons, hold, ← hnew, hrep]

end

end Forest

/-! ## a run over a tree -/

namespace Citation
open Template Render Forest

section
variable {c : Citation}

/-- A step over a tree with a fragment fills some of it. -/
theorem next_of_forest (hd : c.context.ShowsKeys) (hv : ∀ key, '{' ∉ c.context.resolve key)
    (hcap : c.options.maxPasses = none) {f : Forest} (hf : Sound false f) (hpos : 0 < f.size)
    {s : Stage} (hs : s.text = f.text) :
    ∃ g, Stands c.context false f g ∧ g.size < f.size ∧
      (c.next s).outcome = .ok (some ⟨s.passes + 1, g.text⟩) := by
  obtain ⟨t', hpass⟩ := pass_exists c.context (fun seg => ⟨_, expands_leafText hd seg⟩) f.text
  obtain ⟨g, hg, rfl, hlt⟩ := stands_of_pass hd hv hpass f hf rfl
  have hsmaller := hlt hpos
  refine ⟨g, hg, hsmaller, ?_⟩
  have hmark : hasTokenSign s.text = true := by
    have hcount := hf.wf.countFrom_token
    rw [hasTokenSign_iff, hs, ← List.count_pos_iff]
    rw [countFrom] at hcount
    omega
  have hne : g.text ≠ s.text := by
    intro e
    have h1 := hg.sound.wf.countFrom_opening
    have h2 := hf.wf.countFrom_opening
    rw [e, hs] at h1
    omega
  have hopen : c.atCap s.passes = false := by
    rw [atCap, hcap]
  rw [next_outcome, if_pos ⟨hmark, hopen⟩, hs, hpass, ← hs]
  show Except.ok (if g.text = s.text then none else some _) = _
  rw [if_neg hne]

/-- A run over a tree ends with its collapsed text. -/
theorem texts_collapse (hd : c.context.ShowsKeys) (hv : ∀ key, '{' ∉ c.context.resolve key)
    (hcap : c.options.maxPasses = none) (limit : Nat) {f : Forest} (hf : Sound false f)
    (hk : f.keys = []) (hl : f.size < limit) {s : Stage} (hs : s.text = f.text) :
    ∃ ts, (c.textsFrom limit s).outcome = .ok ts ∧ ts.getLastD s.text = f.collapse c.context := by
  induction limit generalizing f s with
  | zero => exact absurd hl (Nat.not_lt_zero _)
  | succ limit ih =>
    by_cases hsize : f.size = 0
    · refine ⟨[], textsFrom_outcome_ok.mpr (Or.inl ⟨?_, rfl⟩), ?_⟩
      · have hmark : hasTokenSign s.text = false := by
          have hcount := hf.wf.countFrom_token
          rw [hsize, hk, ← hs] at hcount
          have : Sign.token ∉ signs false s.text := List.count_eq_zero.mp hcount
          simpa [hasTokenSign] using this
        rw [next_outcome, hmark]
        rfl
      · rw [collapse_of_size _ hsize, ← hs]
        rfl
    · obtain ⟨g, hg, hlt, hnext⟩ := next_of_forest hd hv hcap hf (Nat.pos_of_ne_zero hsize) hs
      have hgk : g.keys = [] := List.length_eq_zero_iff.mp (by rw [hg.keys, hk]; rfl)
      obtain ⟨ts, hts, hlast⟩ := @ih g hg.sound hgk (by omega) ⟨s.passes + 1, g.text⟩ rfl
      refine ⟨g.text :: ts, textsFrom_outcome_ok.mpr (Or.inr ⟨_, ts, hnext, hts, rfl⟩), ?_⟩
      rw [← hg.collapse, ← hlast]
      cases ts with
      | nil => rfl
      | cons t ts => rfl

/-- A citation is its collapsed tree without the escapes. -/
theorem build_collapse (hd : c.context.ShowsKeys) (hv : ∀ key, '{' ∉ c.context.resolve key)
    (hcap : c.options.maxPasses = none) {f : Forest} (hf : f.Spells c.template) (hu : f.Unbraced)
    {limit : Nat} (hl : countOf .closing c.template < limit) :
    (c.build limit).outcome = .ok (Escaper.syntaxSigns.unescape (f.collapse c.context)) := by
  have hsize : f.size < limit := by
    have h1 := hf.wf.countFrom_opening
    have h2 := nest_count (hf.wf.nest 0)
    rw [hf.text] at h1 h2
    rw [countFrom] at h1
    rw [countOf] at hl
    omega
  obtain ⟨ts, hts, hlast⟩ := texts_collapse hd hv hcap limit ⟨hf.wf, hf.maximal, hu⟩ hf.keys hsize
    (s := c.start) hf.text.symm
  rw [build_outcome_ok hts, finish, ← hlast]
  rfl

end

end Citation
end Citations
