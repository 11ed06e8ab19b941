import Citations.Proofs.Keys

/-!
# Where the keys of a run come from the data

A guarded template reads no other keys than its own.  For every other one there are data from which
its run reads a further key, once its keys have suitable names: what is exposed behind a key is
filled with a letter, what stands before it is left out, and what stands around it is shown.

* `Alike f g`         the same tree but for the names of the keys and for characters of a kind;
* `quiet name f`      such a tree whose fragments are all left out;
* `exists_letter`     an exposed tree that starts, when filled, with a letter of a key;
* `exists_grown`      a tree that is not guarded and shows the value of a key that is not its own;
* `guarded_iff_builds_eq`   the templates whose keys are always their own.
-/

namespace Citations

namespace Forest
open Template Render

/-! ## trees of one shape -/

/-- The same tree but for the names of the keys and for characters of the same kind. -/
inductive Alike : Forest → Forest → Prop where
  | nil : Alike nil nil
  | char {c d : Char} {r s : Forest} (hc : Text.isKeyChar c = Text.isKeyChar d) (hr : Alike r s) :
      Alike (char c r) (char d s)
  | token {k l : Text} {r s : Forest} (hr : Alike r s) : Alike (token k r) (token l s)
  | fragment {x y r s : Forest} (hx : Alike x y) (hr : Alike r s) :
      Alike (fragment x r) (fragment y s)

section
variable {f g : Forest}

theorem Alike.refl (f : Forest) : Alike f f := by
  induction f with
  | nil => exact .nil
  | char c r ih => exact .char rfl ih
  | token k r ih => exact .token ih
  | fragment x r ihx ihr => exact .fragment ihx ihr

theorem Alike.exposed (h : Alike f g) : f.exposed = g.exposed := by
  induction h with
  | nil => rfl
  | char hc => exact hc
  | token => rfl
  | fragment _ _ ihx ihr => rw [Forest.exposed, ihx, ihr, Forest.exposed]

theorem Alike.guarded (h : Alike f g) : f.guarded = g.guarded := by
  induction h with
  | nil => rfl
  | char _ _ ih => exact ih
  | token hr ih => rw [Forest.guarded, hr.exposed, ih, Forest.guarded]
  | fragment _ _ ihx ihr => rw [Forest.guarded, ihx, ihr, Forest.guarded]

theorem Alike.length_keys (h : Alike f g) : f.keys.length = g.keys.length := by
  induction h with
  | nil => rfl
  | char _ _ ih => exact ih
  | token _ ih => exact congrArg Nat.succ ih
  | fragment _ _ _ ih => exact ih

theorem Alike.startsKeyOrJoin (h : Alike f g) :
    startsKeyOrJoin f.text = startsKeyOrJoin g.text := by
  cases h with
  | nil => rfl
  | char hc => exact hc
  | token => rfl
  | fragment => rfl

/-! ## drafts -/

/-- A tree of a few characters and keys, none of them a sign or the value that gives a run away. -/
inductive Draft : Forest → Prop where
  | nil : Draft nil
  | char {c : Char} {r : Forest} (hc : c ∈ ['+', ' ', 'c']) (hr : Draft r) : Draft (char c r)
  | token {k : Text} {r : Forest} (hk : k ∈ [['v'], ['s'], ['x'], ['a']]) (hr : Draft r) :
      Draft (token k r)
  | fragment {x r : Forest} (hx : Draft x) (hr : Draft r) : Draft (fragment x r)

theorem Draft.text_subset (h : Draft f) :
    f.text ⊆ ['+', ' ', 'c', 'v', 's', 'x', 'a', '@', '{', '}'] := by
  have hchars : ['+', ' ', 'c'] ⊆ ['+', ' ', 'c', 'v', 's', 'x', 'a', '@', '{', '}'] := by decide
  have hkeys : ∀ k ∈ [['v'], ['s'], ['x'], ['a']],
      '@' :: k ⊆ ['+', ' ', 'c', 'v', 's', 'x', 'a', '@', '{', '}'] := by decide
  induction h with
  | nil => exact List.nil_subset _
  | char hc _ ih => exact List.cons_subset.mpr ⟨hchars hc, ih⟩
  | token hk _ ih => exact List.append_subset.mpr ⟨hkeys _ hk, ih⟩
  | fragment _ _ ihx ihr =>
    refine List.append_subset.mpr ⟨List.cons_subset.mpr ⟨by decide, ?_⟩, ihr⟩
    exact List.append_subset.mpr ⟨ihx, by decide⟩

theorem Draft.ends (h : Draft f) : endsEscaping false f.text = false :=
  endsEscaping_eq_false_of_not_mem fun hm => absurd (h.text_subset hm) (by decide)

theorem Draft.wellFormed (h : Draft g) (hfg : Alike f g) {esc : Bool} (hf : WellFormed esc f) :
    WellFormed false g := by
  have hchars : ∀ c ∈ ['+', ' ', 'c'], sign false c = .plain ∧ (c == '\\') = false :=
    forall_mem_of_all (by decide)
  have hkeys : ∀ k ∈ [['v'], ['s'], ['x'], ['a']], IsKey k := by decide
  induction hfg generalizing esc with
  | nil => exact .nil
  | char _ _ ih =>
    cases h with
    | char hc hr =>
      cases hf with
      | char _ hfr =>
        refine .char (hchars _ hc).1 ?_
        rw [(hchars _ hc).2]
        exact ih hr hfr
  | token _ ih =>
    cases h with
    | token hk hr =>
      cases hf with
      | token _ hfr => exact .token (hkeys _ hk) (ih hr hfr)
  | fragment hxy _ ihx ihr =>
    cases h with
    | fragment hy hr =>
      cases hf with
      | fragment hx _ hk hfr =>
        have hlen := hxy.length_keys
        rw [hk] at hlen
        obtain ⟨key, hkey⟩ := List.length_eq_one_iff.mp hlen.symm
        exact .fragment (ihx hy hx) hy.ends hkey (ihr hr hfr)

theorem Draft.unbraced (h : Draft f) : f.Unbraced := by
  induction h with
  | nil => trivial
  | char hc _ ih => exact ⟨fun e => absurd (e ▸ hc) (by decide), ih⟩
  | token _ _ ih => exact ih
  | fragment _ _ ihx ihr => exact ⟨ihx, ihr⟩

theorem Alike.maximal (h : Alike f g) (hf : f.Maximal) : g.Maximal := by
  induction h with
  | nil => trivial
  | char _ _ ih => exact ih hf
  | token hr ih => exact ⟨hr.startsKeyOrJoin ▸ hf.1, ih hf.2⟩
  | fragment _ _ ihx ihr => exact ⟨ihx hf.1, ihr hf.2⟩

theorem Draft.spells (h : Draft g) (hfg : Alike f g) {t : Text} (hf : f.Spells t) :
    g.Spells g.text := by
  have hlen := hfg.length_keys
  rw [hf.keys] at hlen
  exact ⟨h.wellFormed hfg hf.wf, hfg.maximal hf.maximal,
    List.length_eq_zero_iff.mp hlen.symm, rfl⟩

theorem Draft.allKeys_subset (h : Draft f) : f.allKeys ⊆ [['v'], ['s'], ['x'], ['a']] := by
  induction h with
  | nil => exact List.nil_subset _
  | char _ _ ih => exact ih
  | token hk _ ih => exact List.cons_subset.mpr ⟨hk, ih⟩
  | fragment _ _ ihx ihr => exact List.append_subset.mpr ⟨ihx, ihr⟩

end

/-- The character of the same kind that makes no key another one. -/
def still (c : Char) : Char := if Text.isKeyChar c then '+' else ' '

/-- The draft with the tokens `name`, whose fragments are all left out. -/
def quiet (name : Text) : Forest → Forest
  | nil => nil
  | char c r => char (still c) (quiet name r)
  | token _ r => token name (quiet name r)
  | fragment x r => fragment (quiet ['v'] x) (quiet name r)

theorem isKeyChar_still (c : Char) : Text.isKeyChar c = Text.isKeyChar (still c) := by
  rw [still]
  split
  · next h => rw [h]; decide
  · next h => rw [Bool.eq_false_iff.mpr h]; decide

theorem still_mem (c : Char) : still c ∈ ['+', ' '] := by
  rw [still]
  split <;> decide

theorem alike_quiet (name : Text) (f : Forest) : Alike f (quiet name f) := by
  induction f generalizing name with
  | nil => exact .nil
  | char c r ih => exact .char (isKeyChar_still c) (ih name)
  | token k r ih => exact .token (ih name)
  | fragment x r ihx ihr => exact .fragment (ihx _) (ihr name)

theorem draft_quiet {name : Text} (hname : name ∈ [['v'], ['s'], ['x'], ['a']]) (f : Forest) :
    Draft (quiet name f) := by
  induction f generalizing name with
  | nil => exact .nil
  | char c r ih =>
    refine .char ?_ (ih hname)
    exact (by decide : ['+', ' '] ⊆ ['+', ' ', 'c']) (still_mem c)
  | token k r ih => exact .token hname (ih hname)
  | fragment x r ihx ihr => exact .fragment (ihx (by decide)) (ihr hname)

/-! ## drafts filled -/

def calm : List Char := ['+', ' ', '-']

def inks : List Char := ['+', ' ', '-', 'c', '1']

theorem calm_subset : calm ⊆ inks := by decide

theorem plain_of_inks {t : Text} (h : t ⊆ inks) :
    IsPlain false t ∧ endsEscaping false t = false := by
  have hnone : ∀ d ∈ inks, d ∉ Escaper.syntaxChars := forall_mem_of_all (by decide)
  refine ⟨isPlain_of_unsigned (fun d hd => hnone d (h hd)) _, ?_⟩
  exact endsEscaping_eq_false_of_not_mem fun hm => absurd (h hm) (by decide)

/-- Nothing but `+` makes a key longer. -/
def Joins (t : Text) : Prop := ∀ d ∈ t.takeWhile Text.isKeyChar, d = '+'

theorem joins_of_calm {t : Text} (h : t ⊆ calm) : Joins t := by
  have honly : ∀ d ∈ calm, Text.isKeyChar d = true → d = '+' := forall_mem_of_all (by decide)
  intro d hd
  exact honly d (h (List.takeWhile_subset _ hd)) (isKeyChar_of_mem_takeWhile d hd)

theorem joins_of_starts {t : Text} (h : startsKeyOrJoin t = false) : Joins t := by
  cases t with
  | nil => exact fun _ hd => nomatch hd
  | cons d t =>
    have hd : ¬ Text.isKeyChar d = true := Bool.eq_false_iff.mp h
    rw [Joins, List.takeWhile_cons_of_neg hd]
    exact fun _ hd => nomatch hd

theorem dropWhile_subset {cs : List Char} {t : Text} (h : t ⊆ cs) :
    t.dropWhile Text.isKeyChar ⊆ cs :=
  List.Subset.trans (List.dropWhile_sublist _).subset h

/-- Data that leave the token `v` out and show a letter for `x`. -/
structure Probe (c : Context) : Prop where
  silent : c.options.debug = false
  gone : lookup c.data ['v'] = []
  mark : lookup c.data ['s'] = ['-']
  letter : lookup c.data ['x'] = ['c']
  grown : lookup c.data ['a', 'c'] = ['1']

section
variable {c : Context} {esc : Bool} {f : Forest} {b name a value : Text}

/-- A leaf whose token is left out. -/
theorem leafText_gone (hd : c.options.debug = false) (hb : b ⊆ inks) (hn : IsKey name)
    (hp : '+' ∉ name) (ha : Joins a) (hv : lookup c.data name = []) :
    c.leafText (b ++ '@' :: name ++ a) = [] := by
  obtain ⟨hplain, hends⟩ := plain_of_inks hb
  have hres : c.resolve (name ++ a.takeWhile Text.isKeyChar) = [] :=
    (resolve_append hn.ne_nil hp ha).trans hv
  rw [leafText_token hplain hends hn, hres, if_neg (absurd rfl), hd]
  rfl

theorem leafText_shown (hb : b ⊆ inks) (hn : IsKey name) (hp : '+' ∉ name) (ha : Joins a)
    (hv : lookup c.data name = value) (hne : value ≠ []) (hesc : escape value = value) :
    c.leafText (b ++ '@' :: name ++ a) = b ++ value ++ a.dropWhile Text.isKeyChar := by
  obtain ⟨hplain, hends⟩ := plain_of_inks hb
  have hres : c.resolve (name ++ a.takeWhile Text.isKeyChar) = value :=
    (resolve_append hn.ne_nil hp ha).trans hv
  rw [leafText_token hplain hends hn, hres, if_pos hne, hesc]

theorem isKey_draft : ∀ k ∈ [['v'], ['s'], ['x'], ['a'], ['a', 'c']], IsKey k ∧ '+' ∉ k := by
  decide

/-- What a forest without fragments to show is filled to: its characters, with its token. -/
structure Quiet (c : Context) (name : Text) (keys : List Text) (t : Text) : Prop where
  text : keys = [] → t ⊆ calm
  split : ∀ key, keys = [key] → ∃ b a, t = b ++ '@' :: name ++ a ∧ b ⊆ calm ∧ a ⊆ calm

theorem Quiet.prepend {keys : List Text} {t u : Text} (h : Quiet c name keys t) (hu : u ⊆ calm) :
    Quiet c name keys (u ++ t) := by
  refine ⟨fun hk => List.append_subset.mpr ⟨hu, h.text hk⟩, ?_⟩
  intro key hk
  obtain ⟨b, a, rfl, hb, ha⟩ := h.split key hk
  exact ⟨u ++ b, a, by simp, List.append_subset.mpr ⟨hu, hb⟩, ha⟩

theorem Quiet.leafText {key t : Text} (hc : Probe c) (h : Quiet c ['v'] [key] t) :
    c.leafText t = [] := by
  obtain ⟨b, a, rfl, hb, ha⟩ := h.split key rfl
  obtain ⟨hkey, hplus⟩ := isKey_draft ['v'] (by decide)
  have hinks : b ⊆ inks := List.Subset.trans hb calm_subset
  exact leafText_gone hc.silent hinks hkey hplus (joins_of_calm ha) hc.gone

/-- A quiet forest is filled with its own characters. -/
theorem WellFormed.quiet (hc : Probe c) (name : Text) (hf : WellFormed esc f) :
    Quiet c name f.keys ((quiet name f).collapse c) := by
  induction hf generalizing name with
  | nil => exact ⟨fun _ => List.nil_subset _, fun _ h => nomatch h⟩
  | @char esc d r hd hr ih =>
    have hstill : [still d] ⊆ calm :=
      List.cons_subset.mpr ⟨(by decide : ['+', ' '] ⊆ calm) (still_mem d), List.nil_subset _⟩
    exact (ih name).prepend hstill
  | @token key r hk hr ih =>
    refine ⟨fun h => (nomatch h), fun k h => ⟨[], _, rfl, List.nil_subset _, ?_⟩⟩
    exact (ih name).text (List.cons.inj h).2
  | @fragment x r key hx he hk hr ihx ihr =>
    have hgone := ihx ['v']
    rw [hk] at hgone
    rw [Forest.quiet, collapse, hgone.leafText hc]
    exact ihr name

/-! ## a letter behind a key -/

theorem Quiet.leafText_shown {keys : List Text} {key t u : Text} (h : Quiet c ['s'] keys t)
    (hc : Probe c) (hk : keys = [key]) (hu : u ⊆ inks) :
    ∃ r, c.leafText (u ++ t) = u ++ r ∧ r ⊆ calm := by
  obtain ⟨b, a, rfl, hb, ha⟩ := h.split key hk
  obtain ⟨hkey, hplus⟩ := isKey_draft ['s'] (by decide)
  have hub : u ++ b ⊆ inks := List.append_subset.mpr ⟨hu, List.Subset.trans hb calm_subset⟩
  refine ⟨b ++ (['-'] ++ a.dropWhile Text.isKeyChar), ?_, ?_⟩
  · have := Forest.leafText_shown hub hkey hplus (joins_of_calm ha) hc.mark (by decide) (by rfl)
    simpa using this
  · exact List.append_subset.mpr ⟨hb, List.append_subset.mpr ⟨by decide, dropWhile_subset ha⟩⟩

/-- A letter with nothing but quiet text behind it is still in front when the leaf is filled. -/
theorem Quiet.leafText_letter {keys : List Text} {key t u : Text} (h : Quiet c ['s'] keys t)
    (hc : Probe c) (hk : keys = [key]) (hu : u ⊆ calm) :
    ∃ r, c.leafText ('c' :: u ++ t) = 'c' :: r ∧ r ⊆ calm := by
  have hcu : 'c' :: u ⊆ inks :=
    List.cons_subset.mpr ⟨by decide, List.Subset.trans hu calm_subset⟩
  obtain ⟨r, hr, hcalm⟩ := h.leafText_shown hc hk hcu
  exact ⟨u ++ r, hr, List.append_subset.mpr ⟨hu, hcalm⟩⟩

/-- An exposed forest has a draft that starts, when filled, with a letter of a key. -/
theorem WellFormed.exists_letter (hc : Probe c) (hf : WellFormed esc f) (he : f.exposed = true) :
    ∃ g, Alike f g ∧ Draft g ∧
      (f.keys = [] → ∃ r, g.collapse c = 'c' :: r ∧ r ⊆ calm) ∧
      ∀ key, f.keys = [key] → ∃ r, c.leafText (g.collapse c) = 'c' :: r ∧ r ⊆ calm := by
  have hs : ['s'] ∈ [['v'], ['s'], ['x'], ['a']] := by decide
  induction hf with
  | nil => cases he
  | @char esc d r hd hr ih =>
    have hq := hr.quiet hc ['s']
    refine ⟨.char 'c' (Forest.quiet ['s'] r), .char ?_ (alike_quiet _ r),
      .char (by decide) (draft_quiet hs r), fun hk => ⟨_, rfl, hq.text hk⟩,
      fun k hk => hq.leafText_letter hc hk (List.nil_subset _)⟩
    rw [show Text.isKeyChar d = true from he]
    decide
  | @token key r hk hr ih =>
    have hq := hr.quiet hc ['s']
    refine ⟨.token ['x'] (Forest.quiet ['s'] r), .token (alike_quiet _ r),
      .token (by decide) (draft_quiet hs r), fun h => (nomatch h), ?_⟩
    intro k h
    have ha := hq.text (List.cons.inj h).2
    obtain ⟨hkey, hplus⟩ := isKey_draft ['x'] (by decide)
    refine ⟨_, Forest.leafText_shown (b := []) (List.nil_subset _) hkey hplus (joins_of_calm ha)
      hc.letter (by decide) (by rfl), dropWhile_subset ha⟩
  | @fragment x r key hx hends hk hr ihx ihr =>
    by_cases hex : x.exposed = true
    · -- the inner fragment shows the letter
      obtain ⟨g, hg, hdraft, _, hgrow⟩ := ihx hex
      obtain ⟨u, hu, hcalm⟩ := hgrow key hk
      have hq := hr.quiet hc ['s']
      refine ⟨.fragment g (Forest.quiet ['s'] r), .fragment hg (alike_quiet _ r),
        .fragment hdraft (draft_quiet hs r), ?_, ?_⟩
      · intro h
        refine ⟨u ++ (Forest.quiet ['s'] r).collapse c, ?_, ?_⟩
        · rw [collapse, hu]
          rfl
        · exact List.append_subset.mpr ⟨hcalm, hq.text h⟩
      · intro k h
        rw [collapse, hu]
        exact hq.leafText_letter hc h hcalm
    · -- it is left out, and the letter comes from what follows it
      have her : r.exposed = true := by simpa [exposed, hex] using he
      obtain ⟨g, hg, hdraft, hgrow⟩ := ihr her
      have hgone := hx.quiet hc ['v']
      rw [hk] at hgone
      refine ⟨.fragment (Forest.quiet ['v'] x) g, .fragment (alike_quiet _ x) hg,
        .fragment (draft_quiet (by decide) x) hdraft, ?_⟩
      rw [collapse, hgone.leafText hc]
      exact hgrow

/-! ## a key that is not its own -/

theorem leafText_cons {d : Char} (hd : d ≠ '@') (t : Text) :
    c.leafText (d :: t) = [] ∨ ∃ u, c.leafText (d :: t) = d :: u := by
  have hsign : sign false d ≠ .token := fun h => hd (sign_eq_token_iff.mp h).2
  have hfirst : firstToken? (d :: t) =
      (firstTokenFrom? (d == '\\') t).map fun k => { k with before := d :: k.before } := by
    rw [firstToken?, firstTokenFrom?, if_neg (by simp [hsign])]
    rfl
  rw [Context.leafText, hfirst]
  cases firstTokenFrom? (d == '\\') t with
  | none => exact Or.inr ⟨t, rfl⟩
  | some k =>
    simp only [Option.map_some]
    split
    · exact Or.inr ⟨_, rfl⟩
    · split
      · exact Or.inr ⟨_, rfl⟩
      · exact Or.inl rfl

/-- A draft that is not exposed starts with no character of a key, whatever it is filled with. -/
theorem Draft.starts (h : Draft f) (he : f.exposed = false) :
    f.collapse c = [] ∨ ∃ d t, f.collapse c = d :: t ∧ Text.isKeyChar d = false ∧ d ≠ '@' := by
  have hnone : ∀ d ∈ ['+', ' ', 'c'], d ≠ '@' := forall_mem_of_all (by decide)
  induction h with
  | nil => exact Or.inl rfl
  | char hd hr => exact Or.inr ⟨_, _, rfl, he, hnone _ hd⟩
  | token => cases he
  | @fragment x r hx hr ihx ihr =>
    obtain ⟨hex, her⟩ : x.exposed = false ∧ r.exposed = false := by simpa [exposed] using he
    have hrest := ihr her
    rw [collapse]
    rcases ihx hex with hnil | ⟨d, t, hcons, hd, hmark⟩
    · rw [hnil]
      exact hrest
    · rw [hcons]
      rcases leafText_cons hmark t with hgone | ⟨u, hu⟩
      · rw [hgone]
        exact hrest
      · rw [hu]
        exact Or.inr ⟨d, _, rfl, hd, hmark⟩

/-- What a forest is filled to that shows the value of a key that it does not have. -/
structure Grown (keys : List Text) (t : Text) : Prop where
  text : keys = [] → '1' ∈ t ∧ t ⊆ inks
  split : ∀ key, keys = [key] → ∃ b name a, t = b ++ '@' :: name ++ a ∧ b ⊆ inks ∧ a ⊆ inks ∧
    Joins a ∧ (name = ['s'] ∧ ('1' ∈ b ∨ '1' ∈ a) ∨ name = ['a', 'c'])

theorem Grown.prepend {keys : List Text} {t u : Text} (h : Grown keys t) (hu : u ⊆ inks) :
    Grown keys (u ++ t) := by
  constructor
  · intro hk
    obtain ⟨hone, ht⟩ := h.text hk
    exact ⟨List.mem_append_right _ hone, List.append_subset.mpr ⟨hu, ht⟩⟩
  · intro key hk
    obtain ⟨b, name, a, rfl, hb, ha, hj, hname⟩ := h.split key hk
    refine ⟨u ++ b, name, a, by simp, List.append_subset.mpr ⟨hu, hb⟩, ha, hj, ?_⟩
    exact hname.imp_left fun ⟨hs, hone⟩ => ⟨hs, hone.imp_left (List.mem_append_right u)⟩

theorem Quiet.grown {keys : List Text} {t u : Text} (h : Quiet c ['s'] keys t) (hu : u ⊆ inks)
    (hone : '1' ∈ u) : Grown keys (u ++ t) := by
  constructor
  · intro hk
    refine ⟨List.mem_append_left _ hone, ?_⟩
    exact List.append_subset.mpr ⟨hu, List.Subset.trans (h.text hk) calm_subset⟩
  · intro key hk
    obtain ⟨b, a, rfl, hb, ha⟩ := h.split key hk
    have hub : u ++ b ⊆ inks := List.append_subset.mpr ⟨hu, List.Subset.trans hb calm_subset⟩
    exact ⟨u ++ b, ['s'], a, by simp, hub, List.Subset.trans ha calm_subset, joins_of_calm ha,
      Or.inl ⟨rfl, Or.inl (List.mem_append_left _ hone)⟩⟩

theorem Grown.leafText {key t : Text} (h : Grown [key] t) (hc : Probe c) :
    '1' ∈ c.leafText t ∧ c.leafText t ⊆ inks := by
  obtain ⟨b, name, a, rfl, hb, ha, hj, hname⟩ := h.split key rfl
  have hrest : ∀ {value : Text}, value ⊆ inks →
      b ++ value ++ a.dropWhile Text.isKeyChar ⊆ inks := fun hv =>
    List.append_subset.mpr ⟨List.append_subset.mpr ⟨hb, hv⟩, dropWhile_subset ha⟩
  rcases hname with ⟨rfl, hone⟩ | rfl
  · obtain ⟨hkey, hplus⟩ := isKey_draft ['s'] (by decide)
    rw [leafText_shown hb hkey hplus hj hc.mark (by decide) (by rfl)]
    refine ⟨?_, hrest (by decide)⟩
    rcases hone with hone | hone
    · exact List.mem_append_left _ (List.mem_append_left _ hone)
    · -- the key took nothing but `+` from what follows it
      rw [← List.takeWhile_append_dropWhile (p := Text.isKeyChar) (l := a)] at hone
      refine List.mem_append_right _ ((List.mem_append.mp hone).resolve_left fun hm => ?_)
      exact absurd (hj _ hm) (by decide)
  · obtain ⟨hkey, hplus⟩ := isKey_draft ['a', 'c'] (by decide)
    rw [leafText_shown hb hkey hplus hj hc.grown (by decide) (by rfl)]
    exact ⟨List.mem_append_left _ (List.mem_append_right _ (by decide)), hrest (by decide)⟩

/-- A forest that is not guarded has a draft that shows the value of a key that it does not have. -/
theorem WellFormed.exists_grown (hc : Probe c) (hf : WellFormed esc f) (hg : f.guarded = false) :
    ∃ g, Alike f g ∧ Draft g ∧ Grown f.keys (g.collapse c) := by
  have hs : ['s'] ∈ [['v'], ['s'], ['x'], ['a']] := by decide
  induction hf with
  | nil => cases hg
  | @char esc d r hd hr ih =>
    obtain ⟨g, halike, hdraft, hgrown⟩ := ih hg
    have hmem : ['+', ' '] ⊆ ['+', ' ', 'c'] := by decide
    have hstill : [still d] ⊆ inks :=
      List.cons_subset.mpr ⟨(by decide : ['+', ' '] ⊆ inks) (still_mem d), List.nil_subset _⟩
    exact ⟨.char (still d) g, .char (isKeyChar_still d) halike,
      .char (hmem (still_mem d)) hdraft, hgrown.prepend hstill⟩
  | @token key r hk hr ih =>
    cases he : r.exposed with
    | true =>
      -- a letter comes to stand behind the key
      obtain ⟨g, halike, hdraft, hletter, _⟩ := hr.exists_letter hc he
      refine ⟨.token ['a'] g, .token halike, .token (by decide) hdraft, fun h => (nomatch h), ?_⟩
      intro k h
      obtain ⟨t, ht, hcalm⟩ := hletter (List.cons.inj h).2
      refine ⟨[], ['a', 'c'], t, ?_, List.nil_subset _, List.Subset.trans hcalm calm_subset,
        joins_of_calm hcalm, Or.inr rfl⟩
      rw [collapse, ht]
      rfl
    | false =>
      have hgr : r.guarded = false := by simpa [guarded, he] using hg
      obtain ⟨g, halike, hdraft, hgrown⟩ := ih hgr
      refine ⟨.token ['s'] g, .token halike, .token hs hdraft, fun h => (nomatch h), ?_⟩
      intro k h
      obtain ⟨hone, hinks⟩ := hgrown.text (List.cons.inj h).2
      refine ⟨[], ['s'], g.collapse c, rfl, List.nil_subset _, hinks, ?_, Or.inl ⟨rfl, Or.inr hone⟩⟩
      rcases hdraft.starts (c := c) (halike.exposed ▸ he) with hnil | ⟨d, t, hcons, hd, _⟩
      · rw [hnil]
        exact joins_of_starts rfl
      · rw [hcons]
        exact joins_of_starts hd
  | @fragment x r key hx hends hk hr ihx ihr =>
    cases hgx : x.guarded with
    | false =>
      obtain ⟨g, halike, hdraft, hgrown⟩ := ihx hgx
      rw [hk] at hgrown
      obtain ⟨hone, hinks⟩ := hgrown.leafText hc
      have hq := hr.quiet hc ['s']
      refine ⟨.fragment g (Forest.quiet ['s'] r), .fragment halike (alike_quiet _ r),
        .fragment hdraft (draft_quiet hs r), ?_⟩
      rw [collapse]
      exact hq.grown hinks hone
    | true =>
      have hgr : r.guarded = false := by simpa [guarded, hgx] using hg
      obtain ⟨g, halike, hdraft, hgrown⟩ := ihr hgr
      have hgone := hx.quiet hc ['v']
      rw [hk] at hgone
      refine ⟨.fragment (Forest.quiet ['v'] x) g, .fragment (alike_quiet _ x) halike,
        .fragment (draft_quiet (by decide) x) hdraft, ?_⟩
      rw [collapse, hgone.leafText hc]
      exact hgrown

/-! ## what cannot be shown -/

/-- A character of neither the leaf nor a value is in nothing that the leaf is filled to. -/
theorem not_mem_leafText {d : Char} (hb : d ≠ '\\') (hp : d ≠ Escaper.parked)
    (hd : c.options.debug = false) (hv : ∀ key, d ∉ c.resolve key) {t : Text} (ht : d ∉ t) :
    d ∉ c.leafText t := by
  rw [Context.leafText]
  cases hk : firstToken? t with
  | none => exact ht
  | some k =>
    rw [(firstToken?_spec hk).text] at ht
    simp only [List.mem_append, not_or] at ht
    simp only [hd, Bool.false_eq_true, if_false]
    split
    · simp only [Token.filledWith, List.mem_append, not_or]
      exact ⟨⟨ht.1.1, fun hm => hv _ (mem_of_mem_escape hb hp hm)⟩, ht.2⟩
    · exact List.not_mem_nil

theorem not_mem_collapse {d : Char} (hb : d ≠ '\\') (hp : d ≠ Escaper.parked)
    (hd : c.options.debug = false) (hv : ∀ key, d ∉ c.resolve key) {f : Forest} (hf : d ∉ f.text) :
    d ∉ f.collapse c := by
  induction f with
  | nil => exact hf
  | char e r ih =>
    rw [text, List.mem_cons, not_or] at hf
    rw [collapse, List.mem_cons, not_or]
    exact ⟨hf.1, ih hf.2⟩
  | token key r ih =>
    rw [text, List.mem_append, not_or] at hf
    rw [collapse, List.mem_append, not_or]
    exact ⟨hf.1, ih hf.2⟩
  | fragment x r ihx ihr =>
    rw [text, List.mem_append, not_or] at hf
    rw [collapse, List.mem_append, not_or]
    have hx : d ∉ x.text := fun hm => hf.1 (by simp [bracketed, hm])
    exact ⟨not_mem_leafText hb hp hd hv (ihx hx), ihr hf.2⟩

end

end Forest

/-! ## the templates that read their own keys -/

namespace Citation
open Template Render Forest

def ofTree {f : Forest} {t : Text} (h : f.Spells t) (data : Entries) : Citation :=
  ⟨t, data, { strict := true }, .blank, h.check⟩

theorem build_ofTree {f : Forest} {t : Text} (h : f.Spells t) (hu : f.Unbraced) {data : Entries}
    (hdata : ∀ e ∈ data, '{' ∉ e.2.display) {limit : Nat} (hl : countOf .closing t < limit) :
    ((ofTree h data).build limit).outcome =
      .ok (Escaper.syntaxSigns.unescape (f.collapse (ofTree h data).context)) := by
  have hv : ∀ key, '{' ∉ (ofTree h data).context.resolve key :=
    not_mem_resolve (by decide : '{' ∉ ", ".toList) (not_mem_lookup hdata)
  have hsilent : (ofTree h data).context.ShowsKeys := by
    intro hd
    cases hd
  exact build_collapse hsilent hv rfl h hu hl

/-- A letter, something to show, and nothing for the other keys of a draft. -/
def probeData (more : Entries) : Entries :=
  (.text ['s'], .text ['-']) :: (.text ['x'], .text ['c']) :: more

def furtherData : Entries := [(.text ['a', 'c'], .text ['1'])]

/-- The data of a template that is not guarded choose what it reads, if its keys are named so. -/
theorem exists_builds_ne {f : Forest} {t : Text} (hf : f.Spells t) (hg : f.guarded = false) :
    ∃ g, Alike f g ∧ ∃ (h : g.Spells g.text) (limit : Nat),
      ((ofTree h (probeData furtherData)).build limit).outcome ≠
        ((ofTree h (probeData [])).build limit).outcome ∧
      ∀ key ∈ g.allKeys, ∀ m ∈ members key,
        lookup (probeData furtherData) m = lookup (probeData []) m := by
  have hsame : ∀ key ∈ [['v'], ['s'], ['x'], ['a']], ∀ m ∈ members key,
      lookup (probeData furtherData) m = lookup (probeData []) m := by decide
  have hprobe : Probe { data := probeData furtherData, options := { strict := true } } :=
    ⟨rfl, by decide, by decide, by decide, by decide⟩
  obtain ⟨g, halike, hdraft, hgrown⟩ := hf.wf.exists_grown hprobe hg
  have h := hdraft.spells halike hf
  refine ⟨g, halike, h, countOf .closing g.text + 1, fun e => ?_,
    fun key hkey => hsame key (hdraft.allKeys_subset hkey)⟩
  rw [build_ofTree h hdraft.unbraced (by decide) (Nat.lt_succ_self _),
    build_ofTree h hdraft.unbraced (by decide) (Nat.lt_succ_self _)] at e
  have hb : '1' ≠ '\\' := by decide
  have hp : '1' ≠ Escaper.parked := by decide
  -- the value is shown in the one citation and is nowhere in the other
  have hshown := (mem_unescape hb hp _).mpr (hgrown.text hf.keys).1
  have hvalues : ∀ e ∈ probeData [], '1' ∉ e.2.display := by decide
  have hnone : ∀ key, '1' ∉ (ofTree h (probeData [])).context.resolve key :=
    not_mem_resolve (by decide : '1' ∉ ", ".toList) (not_mem_lookup hvalues)
  have htext : '1' ∉ g.text := fun hm => absurd (hdraft.text_subset hm) (by decide)
  refine not_mem_collapse hb hp rfl hnone htext ((mem_unescape hb hp _).mp ?_)
  rw [← Except.ok.inj e]
  exact hshown

/-- A shape of template always gives one citation from all data that agree on its keys, if and only
if it is guarded. -/
theorem guarded_iff_builds_eq {f : Forest} {t : Text} (hf : f.Spells t) :
    f.guarded = true ↔ ∀ g, Alike f g → ∀ c c' : Citation, Twins c c' → g.Spells c.template →
      c.options.strict = true → c.options.debug = false →
      (∀ key ∈ g.allKeys, ∀ m ∈ members key, lookup c.data m = lookup c'.data m) →
      ∀ limit, (c.build limit).outcome = (c'.build limit).outcome := by
  constructor
  · intro hg g halike c c' htwins hspells _ hd hdata limit
    exact htwins.build hd hspells (halike.guarded ▸ hg) hdata limit
  · intro h
    cases hg : f.guarded with
    | true => rfl
    | false =>
      obtain ⟨g, halike, hspells, limit, hne, hdata⟩ := exists_builds_ne hf hg
      have htwins :
          Twins (ofTree hspells (probeData furtherData)) (ofTree hspells (probeData [])) :=
        ⟨rfl, rfl⟩
      exact absurd (h g halike _ _ htwins hspells rfl rfl hdata limit) hne

/-- A fragment in a fragment, with a comma between their keys. -/
def loose : Forest :=
  .fragment (.token ['a'] (.fragment (.char ',' (.char ' ' (.token ['b'] .nil))) .nil)) .nil

/-- A fragment in a fragment, directly behind its key. -/
def tight : Forest := .fragment (.token ['a'] (.fragment (.token ['b'] .nil) .nil)) .nil

theorem isKey_singleton : IsKey ['a'] ∧ IsKey ['b'] := by decide

theorem spells_loose : loose.Spells "\x7b@a\x7b, @b\x7d\x7d".toList := by
  obtain ⟨ha, hb⟩ := isKey_singleton
  have hinner : WellFormed false (.char ',' (.char ' ' (.token ['b'] .nil))) :=
    .char (by decide) (.char (by decide) (.token hb .nil))
  refine ⟨.fragment (.token ha (.fragment hinner rfl rfl .nil)) rfl rfl .nil, ?_, rfl, rfl⟩
  exact ⟨⟨by decide, ⟨by decide, trivial⟩, trivial⟩, trivial⟩

theorem spells_tight : tight.Spells "\x7b@a\x7b@b\x7d\x7d".toList := by
  obtain ⟨ha, hb⟩ := isKey_singleton
  refine ⟨.fragment (.token ha (.fragment (.token hb .nil) rfl rfl .nil)) rfl rfl .nil, ?_, rfl,
    rfl⟩
  exact ⟨⟨by decide, ⟨by decide, trivial⟩, trivial⟩, trivial⟩

def pairData (more : Entries) : Entries :=
  (.text ['a'], .text ['1']) :: (.text ['b'], .text ['x']) :: more

theorem lookup_pairData : ∀ key ∈ [['a'], ['b']], ∀ m ∈ members key,
    lookup (pairData []) m = lookup (pairData [(.text ['a', 'x'], .text ['2'])]) m := by
  decide

/-- With a comma between the keys `a` and `b` a value for `ax` changes nothing. -/
theorem builds_eq_loose : loose.Spells "\x7b@a\x7b, @b\x7d\x7d".toList ∧
    ∀ limit, ((ofTree spells_loose (pairData [])).build limit).outcome =
      ((ofTree spells_loose (pairData [(.text ['a', 'x'], .text ['2'])])).build limit).outcome :=
  ⟨spells_loose, (guarded_iff_builds_eq spells_loose).mp (by decide) loose (.refl _) _ _ ⟨rfl, rfl⟩
    spells_loose rfl rfl lookup_pairData⟩

/-- Without it, the value `x` of `b` makes the key `a` the key `ax`: the fragment is left out, or
shows the value of `ax`. -/
theorem builds_ne_tight : check true "\x7b@a\x7b@b\x7d\x7d".toList = .ok () ∧
    tight.Spells "\x7b@a\x7b@b\x7d\x7d".toList ∧
    (∀ key ∈ tight.allKeys, ∀ m ∈ members key,
      lookup (pairData []) m = lookup (pairData [(.text ['a', 'x'], .text ['2'])]) m) ∧
    ((ofTree spells_tight (pairData [])).build 3).outcome = .ok [] ∧
    ((ofTree spells_tight (pairData [(.text ['a', 'x'], .text ['2'])])).build 3).outcome =
      .ok ['2'] := by
  have hu : tight.Unbraced := ⟨⟨trivial, trivial⟩, trivial⟩
  refine ⟨spells_tight.check, spells_tight, lookup_pairData, ?_, ?_⟩
  · rw [build_ofTree spells_tight hu (by decide) (by decide)]
    rfl
  · rw [build_ofTree spells_tight hu (by decide) (by decide)]
    rfl

end Citation
end Citations
