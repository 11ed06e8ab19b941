import Citations.Proofs.Keys
import Citations.Proofs.Positions
import Citations.Proofs.Rendering

/-!
# Layer by layer

A pass fills the innermost fragments of a tree, all of them at once.  On a tree whose keys are all
different, and none of which stands directly before a fragment, no replacement can meet another
fragment than its own.  So each pass of the run takes one layer off, and there are no more passes
than there are layers.

* `height t`            how deep the brackets of a text go;
* `Forest.layer c f`    the tree with its innermost fragments filled;
* `Scattered f`         different keys, none directly before a fragment; a layer leaves it so;
* `pass_scattered`      a pass over such a tree is a layer, and is the exchange place by place;
* `passes_in_place`     when a pass is so, and how many passes a run then takes.
-/

namespace Citations
namespace Template

/-! ## the height of a text -/

/-- The greatest depth that the brackets come to, from depth `d` on. -/
def heightFrom (d : Nat) : List Sign → Nat
  | [] => d
  | .opening :: r => heightFrom (d + 1) r
  | .closing :: r => max d (heightFrom (d - 1) r)
  | .token :: r => heightFrom d r
  | .plain :: r => heightFrom d r

/-- How deep the brackets of a text go. -/
def height (t : Text) : Nat := heightFrom 0 (signs false t)

theorem le_heightFrom (d : Nat) (ss : List Sign) : d ≤ heightFrom d ss := by
  induction ss generalizing d with
  | nil => exact Nat.le_refl d
  | cons s r ih =>
    cases s with
    | opening => exact Nat.le_trans (Nat.le_succ d) (ih (d + 1))
    | closing => exact Nat.le_max_left _ _
    | token => exact ih d
    | plain => exact ih d

theorem heightFrom_plain {esc : Bool} {a : Text} (h : IsPlain esc a) (d : Nat) (ss : List Sign) :
    heightFrom d (signs esc a ++ ss) = heightFrom d ss := by
  induction a generalizing esc with
  | nil => rfl
  | cons c a ih =>
    obtain ⟨hc, ha⟩ := isPlain_cons.mp h
    rw [signs_cons, hc]
    exact ih ha

end Template

namespace Forest
open Template Render

/-- How deep the fragments of a forest go. -/
def height : Forest → Nat
  | nil => 0
  | char _ r => r.height
  | token _ r => r.height
  | fragment x r => max (x.height + 1) r.height

theorem height_eq_zero_iff {f : Forest} : f.height = 0 ↔ f.size = 0 := by
  induction f with
  | nil => exact Iff.rfl
  | char _ r ih => exact ih
  | token _ r ih => exact ih
  | fragment x r =>
    show max (x.height + 1) r.height = 0 ↔ x.size + 1 + r.size = 0
    omega

/-- The brackets of the text go as deep as the fragments of the tree. -/
theorem WellFormed.heightFrom {esc : Bool} {f : Forest} (h : WellFormed esc f) (d : Nat)
    (ss : List Sign) :
    heightFrom d (signs esc f.text ++ ss) = max (d + f.height) (Template.heightFrom d ss) := by
  induction h generalizing d ss with
  | nil =>
    have := le_heightFrom d ss
    show Template.heightFrom d ss = max d (Template.heightFrom d ss)
    omega
  | @char esc c r hc hr ih =>
    rw [text, signs_cons, hc]
    exact ih d ss
  | @token key r hk hr ih =>
    have hends : endsEscaping ('@' == '\\') key = false := endsEscaping_key hk.chars
    rw [text, List.cons_append, signs_cons, signs_append, hends, List.cons_append,
      List.append_assoc]
    show Template.heightFrom d (signs ('@' == '\\') key ++ (signs false r.text ++ ss)) = _
    rw [heightFrom_plain (isPlain_key hk.chars _)]
    exact ih d ss
  | @fragment x r key hx he hk hr ihx ihr =>
    have hclose : Template.heightFrom (d + 1) (.closing :: (signs false r.text ++ ss)) =
        max (d + 1) (max (d + r.height) (Template.heightFrom d ss)) :=
      congrArg (max (d + 1)) (ihr d ss)
    have hsigns : signs false (bracketed x.text ++ r.text) ++ ss =
        .opening :: (signs false x.text ++ .closing :: (signs false r.text ++ ss)) := by
      rw [signs_append, endsEscaping_bracketed, signs_bracketed false he]
      simp [sign]
    rw [text, hsigns]
    show Template.heightFrom (d + 1) (signs false x.text ++ _) = _
    rw [ihx, hclose]
    show max (d + 1 + x.height) _ = max (d + max (x.height + 1) r.height) _
    omega

theorem Spells.height {f : Forest} {t : Text} (h : f.Spells t) : Template.height t = f.height := by
  have := h.wf.heightFrom 0 []
  rw [List.append_nil, h.text] at this
  show Template.heightFrom 0 (signs false t) = f.height
  rw [this]
  show max (0 + f.height) 0 = f.height
  omega

/-! ## one layer -/

section
variable (c : Context)

/-- The forest with its innermost fragments filled. -/
def layer : Forest → Forest
  | nil => nil
  | char d r => char d r.layer
  | token key r => token key r.layer
  | fragment x r =>
    if x.size = 0 then (ofText (c.leafText x.text)).append r.layer
    else fragment x.layer r.layer

/-- What a layer makes of one fragment. -/
def layered (x : Forest) : Forest := layer c (fragment x nil)

variable {c}

theorem append_nil (f : Forest) : f.append nil = f := by
  induction f with
  | nil => rfl
  | char d r ih => rw [append, ih]
  | token key r ih => rw [append, ih]
  | fragment x r _ ih => rw [append, ih]

theorem layered_of_leaf {x : Forest} (h : x.size = 0) : layered c x = ofText (c.leafText x.text) := by
  rw [layered, layer, if_pos h]
  exact append_nil _

theorem layered_of_nested {x : Forest} (h : x.size ≠ 0) : layered c x = fragment (layer c x) nil := by
  rw [layered, layer, if_neg h]
  rfl

theorem text_layer_fragment (x r : Forest) :
    (layer c (fragment x r)).text = (layered c x).text ++ (layer c r).text := by
  by_cases h : x.size = 0
  · rw [layered_of_leaf h, layer, if_pos h, text_append]
  · rw [layered_of_nested h, layer, if_neg h, text, text, text, List.append_nil]

theorem layer_of_size {f : Forest} (h : f.size = 0) : layer c f = f := by
  induction f with
  | nil => rfl
  | char d r ih => rw [layer, ih h]
  | token key r ih => rw [layer, ih h]
  | fragment x r =>
    have h : x.size + 1 + r.size = 0 := h
    omega

theorem height_append (f g : Forest) : (f.append g).height = max f.height g.height := by
  induction f with
  | nil => exact (Nat.zero_max _).symm
  | char d r ih => exact ih
  | token key r ih => exact ih
  | fragment x r _ ih =>
    show max (x.height + 1) (r.append g).height = max (max (x.height + 1) r.height) g.height
    rw [ih, Nat.max_assoc]

/-- A layer takes one off the height. -/
theorem height_layer (f : Forest) : (layer c f).height = f.height - 1 := by
  induction f with
  | nil => rfl
  | char d r ih => exact ih
  | token key r ih => exact ih
  | fragment x r ihx ihr =>
    show _ = max (x.height + 1) r.height - 1
    by_cases h : x.size = 0
    · have hflat : (ofText (c.leafText x.text)).height = 0 := height_eq_zero_iff.mpr (size_ofText _)
      have hx := height_eq_zero_iff.mpr h
      rw [layer, if_pos h, height_append, hflat, ihr]
      omega
    · have hx := mt height_eq_zero_iff.mp h
      rw [layer, if_neg h]
      show max ((layer c x).height + 1) (layer c r).height = _
      rw [ihx, ihr]
      omega

/-! ## keys that stand apart -/

/-- The keys are all different, and none stands directly before a fragment. -/
structure Scattered (esc : Bool) (f : Forest) : Prop where
  sound : Sound esc f
  detached : f.Detached
  keys : f.allKeys.Nodup

theorem tokenOf_of_maximal {key : Text} {r : Forest} (h : startsKeyOrJoin r.text = false) :
    tokenOf key r = token key r := by
  cases r with
  | char d r =>
    have hd : Text.isKeyChar d = false := h
    simp [tokenOf, leadKey, afterKey, hd]
  | nil | token | fragment => exact congrArg (token · _) (List.append_nil key)

/-- What stands behind a key starts as before. -/
theorem startsKeyOrJoin_layer {r : Forest} (hm : startsKeyOrJoin r.text = false)
    (hs : r.startsFragment = false) : startsKeyOrJoin (layer c r).text = false := by
  cases r with
  | nil => rfl
  | char d r => exact hm
  | token key r => exact hm
  | fragment x r => cases hs

theorem startsFragment_layer {r : Forest} (hs : r.startsFragment = false) :
    (layer c r).startsFragment = false := by
  cases r with
  | nil => rfl
  | char d r => rfl
  | token key r => rfl
  | fragment x r => cases hs

/-- A layer stands for the same citation in the end. -/
theorem Stands.layer (hv : ∀ key, '{' ∉ c.resolve key) {esc : Bool} {f : Forest}
    (hf : Sound esc f) (df : f.Detached) : Stands c esc f (layer c f) := by
  obtain ⟨wf, mf, uf⟩ := hf
  induction wf with
  | nil => exact .refl ⟨.nil, trivial, trivial⟩
  | char hd hr ih => exact .char hd uf.1 (ih df mf uf.2)
  | token hk hr ih =>
    have hstands := Stands.token hk (ih df.2 mf.2 uf)
    rwa [tokenOf_of_maximal (startsKeyOrJoin_layer mf.1 df.1)] at hstands
  | @fragment x r key hx he hk hr ihx ihr =>
    have hrest := ihr df.2 mf.2 uf.2
    by_cases h : x.size = 0
    · have hclosed := Within.closed_leafText hv ⟨hx, he, hk⟩ (hx.shape hv uf.1)
      rw [collapse_of_size c h] at hclosed
      rw [Forest.layer, if_pos h]
      exact (stands_ofText h hclosed).append hrest
    · rw [Forest.layer, if_neg h]
      exact .fragment hk he (ihx df.1 mf.1 uf.1) hrest

theorem detached_append_ofText (t : Text) {g : Forest} (h : g.Detached) :
    ((ofText t).append g).Detached := by
  induction t with
  | nil => exact h
  | cons d r ih => exact ih

theorem Detached.layer {f : Forest} (h : f.Detached) : (layer c f).Detached := by
  induction f with
  | nil => trivial
  | char d r ih => exact ih h
  | token key r ih => exact ⟨startsFragment_layer h.1, ih h.2⟩
  | fragment x r ihx ihr =>
    by_cases hx : x.size = 0
    · rw [Forest.layer, if_pos hx]
      exact detached_append_ofText _ (ihr h.2)
    · rw [Forest.layer, if_neg hx]
      exact ⟨ihx h.1, ihr h.2⟩

theorem allKeys_append_ofText (t : Text) (g : Forest) :
    ((ofText t).append g).allKeys = g.allKeys := by
  induction t with
  | nil => rfl
  | cons d r ih => exact ih

/-- A layer has no keys but those of the forest, and none more often. -/
theorem allKeys_layer (f : Forest) : List.Sublist (layer c f).allKeys f.allKeys := by
  induction f with
  | nil => exact .refl _
  | char d r ih => exact ih
  | token key r ih => exact .cons_cons key ih
  | fragment x r ihx ihr =>
    by_cases hx : x.size = 0
    · rw [layer, if_pos hx, allKeys_append_ofText]
      exact ihr.trans (List.sublist_append_right _ _)
    · rw [layer, if_neg hx]
      exact ihx.append ihr

theorem Scattered.layer (hv : ∀ key, '{' ∉ c.resolve key) {esc : Bool} {f : Forest}
    (h : Scattered esc f) : Scattered esc (layer c f) :=
  ⟨(Stands.layer hv h.sound h.detached).sound, h.detached.layer, h.keys.sublist (allKeys_layer f)⟩

theorem allKeys_of_mem_fragments {f x : Forest} (hx : x ∈ f.fragments) :
    List.Sublist x.allKeys f.allKeys := by
  induction f with
  | nil => cases hx
  | char _ r ih => exact ih hx
  | token _ r ih => exact .cons _ (ih hx)
  | fragment y r _ ih =>
    rcases List.mem_cons.mp hx with rfl | hx
    · exact List.sublist_append_left _ _
    · exact (ih hx).trans (List.sublist_append_right _ _)

theorem Detached.of_mem_fragments {f x : Forest} (h : f.Detached) (hx : x ∈ f.fragments) :
    x.Detached := by
  induction f with
  | nil => cases hx
  | char _ r ih => exact ih h hx
  | token _ r ih => exact ih h.2 hx
  | fragment y r _ ih =>
    rcases List.mem_cons.mp hx with rfl | hx
    · exact h.1
    · exact ih h.2 hx

theorem Scattered.of_mem_fragments {esc : Bool} {f x : Forest} (h : Scattered esc f)
    (hx : x ∈ f.fragments) : Scattered false x :=
  ⟨(h.sound.of_mem_fragments hx).1, h.detached.of_mem_fragments hx,
    h.keys.sublist (allKeys_of_mem_fragments hx)⟩

/-- Different fragments have different keys. -/
theorem pairwise_disjoint {f : Forest} (h : f.allKeys.Nodup) :
    f.fragments.Pairwise fun x y => x.allKeys.Disjoint y.allKeys := by
  induction f with
  | nil => exact .nil
  | char _ r ih => exact ih h
  | token _ r ih => exact ih (List.nodup_cons.mp h).2
  | fragment x r _ ih =>
    obtain ⟨_, hr, hxr⟩ := List.nodup_append'.mp h
    refine List.pairwise_cons.mpr ⟨?_, ih hr⟩
    intro y hy
    exact fun key hkx hky => hxr hkx ((allKeys_of_mem_fragments hy).subset hky)

theorem mem_allKeys_of_mem_keys {f : Forest} {key : Text} (h : key ∈ f.keys) : key ∈ f.allKeys := by
  induction f with
  | nil => cases h
  | char _ r ih => exact ih h
  | token k r ih =>
    rcases List.mem_cons.mp h with rfl | h
    · exact List.mem_cons_self
    · exact List.mem_cons_of_mem _ (ih h)
  | fragment x r _ ih => exact List.mem_append_right _ (ih h)

theorem Within.mem_allKeys {key : Text} {x : Forest} (h : Within key x) : key ∈ x.allKeys :=
  mem_allKeys_of_mem_keys (by rw [h.keys]; exact List.mem_cons_self)

/-! ## replacements that do not meet -/

section
variable {y : Forest} {key : Text}

/-- A fragment whose key a forest does not have is not in it. -/
theorem exchange_of_not_mem (hy : Within key y) (my : y.Maximal) (new : Forest) {esc : Bool}
    {f : Forest} (hf : Sound esc f) (hk : key ∉ f.allKeys) : exchange y.text new f = f := by
  obtain ⟨wf, mf, uf⟩ := hf
  induction wf with
  | nil => rfl
  | char hd hr ih => rw [exchange, ih hk mf uf.2]
  | token _ hr ih =>
    rw [exchange, ih (fun hm => hk (List.mem_cons_of_mem _ hm)) mf.2 uf, tokenOf_of_maximal mf.1]
  | @fragment z r k hz he _ hr ihz ihr =>
    have hkz : key ∉ z.allKeys := fun hm => hk (List.mem_append_left _ hm)
    have hne : z.text ≠ y.text := by
      intro e
      obtain rfl := hy.eq_of_text my hz mf.1 e
      exact hkz hy.mem_allKeys
    rw [exchange, if_neg hne, ihz hkz mf.1 uf.1,
      ihr (fun hm => hk (List.mem_append_right _ hm)) mf.2 uf.2]

theorem replace_of_not_mem (hy : Within key y) (my : y.Maximal) (new : Forest) {esc : Bool}
    {f : Forest} (hf : Sound esc f) (hk : key ∉ f.allKeys) :
    Text.replace (bracketed y.text) new.text f.text = f.text := by
  have hrep := replace_text hy.isInterior new hf.wf hf.unbraced []
  rw [List.append_nil, Text.replace_nil_right _ (bracketed_ne_nil _), List.append_nil] at hrep
  rw [hrep, exchange_of_not_mem hy my new hf hk]

end

/-- The replacements for some fragments. -/
def layerPairs (c : Context) (xs : List Forest) : List (Text × Text) :=
  xs.map fun x => (bracketed x.text, (layered c x).text)

/-- The replacements for fragments with other keys leave a forest as it is. -/
theorem replaceAll_of_disjoint {xs : List Forest} (hxs : ∀ x ∈ xs, ∃ key, Within key x ∧ x.Maximal)
    {f : Forest} (hf : Sound false f) (hk : ∀ x ∈ xs, x.allKeys.Disjoint f.allKeys) :
    Text.replaceAll (layerPairs c xs) f.text = f.text := by
  induction xs with
  | nil => rfl
  | cons x xs ih =>
    obtain ⟨⟨key, hx, mx⟩, hxs⟩ := List.forall_mem_cons.mp hxs
    obtain ⟨hkx, hks⟩ := List.forall_mem_cons.mp hk
    show Text.replaceAll (layerPairs c xs)
      (Text.replace (bracketed x.text) (layered c x).text f.text) = f.text
    rw [replace_of_not_mem hx mx _ hf (fun hm => hkx hx.mem_allKeys hm), ih hxs hks]

theorem text_fragment_nil (x : Forest) : (fragment x nil).text = bracketed x.text :=
  List.append_nil _

/-- Of fragments with different keys each one becomes what it is to become. -/
theorem replaceAll_layerPairs (hv : ∀ key, '{' ∉ c.resolve key) {f : Forest}
    (hf : Scattered false f) {x : Forest} (hx : x ∈ f.fragments) :
    Text.replaceAll (layerPairs c f.fragments) (bracketed x.text) = (layered c x).text := by
  have hall : ∀ y ∈ f.fragments, ∃ key, Within key y ∧ y.Maximal := by
    intro y hy
    obtain ⟨sy, key, hin⟩ := hf.sound.of_mem_fragments hy
    exact ⟨key, hin, sy.maximal⟩
  have hdisjoint := pairwise_disjoint hf.keys
  have hkx := (hf.of_mem_fragments hx).keys
  obtain ⟨sx, key, hin⟩ := hf.sound.of_mem_fragments hx
  have dx := (hf.of_mem_fragments hx).detached
  obtain ⟨as, bs, hsplit⟩ := List.append_of_mem hx
  rw [hsplit] at hdisjoint hall ⊢
  obtain ⟨_, hb, hab⟩ := List.pairwise_append.mp hdisjoint
  -- before the fragment is met nothing touches it, and behind that nothing touches its layer
  have hone : Scattered false (fragment x nil) := by
    refine ⟨⟨.fragment hin.wf hin.ends hin.keys .nil, ⟨sx.maximal, trivial⟩,
      ⟨sx.unbraced, trivial⟩⟩, ⟨dx, trivial⟩, ?_⟩
    show (x.allKeys ++ []).Nodup
    rwa [List.append_nil]
  have hkeys : (fragment x nil).allKeys = x.allKeys := List.append_nil _
  have hbefore : Text.replaceAll (layerPairs c as) (bracketed x.text) = bracketed x.text := by
    rw [← text_fragment_nil]
    refine replaceAll_of_disjoint (fun y hy => hall y (List.mem_append_left _ hy)) hone.sound ?_
    intro y hy
    rw [hkeys]
    exact hab y hy x List.mem_cons_self
  have hself : Text.replace (bracketed x.text) (layered c x).text (bracketed x.text) =
      (layered c x).text := by
    have := Text.replace_append_self (layered c x).text [] (bracketed_ne_nil x.text)
    rwa [List.append_nil, Text.replace_nil_right _ (bracketed_ne_nil _), List.append_nil] at this
  have hbehind : Text.replaceAll (layerPairs c bs) (layered c x).text = (layered c x).text := by
    refine replaceAll_of_disjoint
      (fun y hy => hall y (List.mem_append_right _ (List.mem_cons_of_mem _ hy)))
      (hone.layer hv).sound ?_
    intro y hy k hky hkl
    have hsub := (allKeys_layer (c := c) (fragment x nil)).subset hkl
    rw [hkeys] at hsub
    exact (List.pairwise_cons.mp hb).1 y hy hsub hky
  rw [layerPairs, List.map_append, List.map_cons, Text.replaceAll_append]
  show Text.replaceAll (layerPairs c bs) (Text.replace _ _
    (Text.replaceAll (layerPairs c as) (bracketed x.text))) = _
  rw [hbefore, hself, hbehind]

/-! ## a pass is a layer -/

/-- Each top-level fragment exchanged for its layer, behind a text without brackets. -/
theorem WellFormed.patch_append {g : Text → Text} {esc : Bool} {f : Forest} (h : WellFormed esc f)
    (hg : ∀ x ∈ f.fragments, g (bracketed x.text) = (layered c x).text) :
    ∀ p, countFrom .opening false p = 0 → WellNested p → endsEscaping false p = esc →
      patch g (p ++ f.text) = p ++ (layer c f).text := by
  induction h with
  | nil =>
    intro p hp _ _
    show patch g (p ++ []) = p ++ []
    rw [List.append_nil, patch_of_no_opening g hp]
  | @char esc d r hd hr ih =>
    intro p hp hn he
    have hstep := ih hg (p ++ [d]) ?_ ?_ (endsEscaping_concat _ _ _)
    · simpa [text, layer] using hstep
    · rw [countFrom_append, hp, he, countFrom_cons, hd]
      rfl
    · rw [WellNested, signs_append, nest_append_of hn, he, signs_cons, hd]
      rfl
  | @token key r hk hr ih =>
    intro p hp hn he
    have hkey := isPlain_key hk.chars ('@' == '\\')
    have hstep := ih hg (p ++ '@' :: key) ?_ ?_ ?_
    · simpa [text, layer] using hstep
    · rw [countFrom_append, hp, he, countFrom_cons, hkey.countFrom (by decide)]
      rfl
    · rw [WellNested, signs_append, nest_append_of hn, he]
      exact hkey.nest 0
    · rw [endsEscaping_append]
      exact endsEscaping_token hk _
  | @fragment x r key hx he hk hr ihx ihr =>
    intro p hp hn hep
    obtain ⟨hfirst, hrest⟩ := List.forall_mem_cons.mp hg
    have hin := hx.isInterior he
    have htail := ihr hrest [] rfl rfl rfl
    rw [List.nil_append, List.nil_append] at htail
    rw [text, text_layer_fragment, Template.patch_append g ⟨hn, hep⟩, patch_of_no_opening g hp,
      Template.patch_append g (isInterior_bracketed hin), patch_bracketed g hin, hfirst, htail]

theorem WellFormed.noEscapedOpening {esc : Bool} {f : Forest} (h : WellFormed esc f)
    (hu : f.Unbraced) : NoEscapedOpening esc f.text := by
  induction h with
  | nil => trivial
  | char _ _ ih => exact ⟨fun e => absurd e hu.1, ih hu.2⟩
  | token hk _ ih =>
    have hnone : '{' ∉ '@' :: _ := List.not_mem_cons_of_ne_of_not_mem (by decide)
      fun hm => absurd (hk.chars _ hm) (by decide)
    refine noEscapedOpening_append.mpr ⟨noEscapedOpening_of_not_mem hnone false, ?_⟩
    rw [endsEscaping_token hk]
    exact ih hu
  | fragment hx he _ _ ihx ihr =>
    have hreg : Regular _ := ⟨hx.isInterior he, ihx hu.1⟩
    refine noEscapedOpening_append.mpr ⟨hreg.bracketed.unescaped, ?_⟩
    rw [endsEscaping_bracketed]
    exact ihr hu.2

theorem size_lt_of_mem_fragments {f x : Forest} (hx : x ∈ f.fragments) : x.size < f.size := by
  induction f with
  | nil => cases hx
  | char _ r ih => exact ih hx
  | token _ r ih => exact ih hx
  | fragment y r _ ih =>
    show x.size < y.size + 1 + r.size
    rcases List.mem_cons.mp hx with rfl | hx
    · omega
    · have := ih hx
      omega

/-- Fragments with different keys have different texts. -/
theorem openTexts_scattered {f : Forest} (h : Scattered false f) :
    openTexts f.text = f.fragments.map fun x => bracketed x.text := by
  refine openTexts_of_nodup h.sound.wf.fragmentTexts ?_ ?_
  · intro t ht
    obtain ⟨x, hx, rfl⟩ := List.mem_map.mp ht
    obtain ⟨key, hin⟩ := h.sound.wf.of_mem_fragments hx
    have hmark : '@' ∈ x.text := mem_text_of_keys (by rw [hin.keys]; simp)
    simp [bracketed, hmark]
  · refine List.pairwise_map.mpr ((pairwise_disjoint h.keys).imp_of_mem ?_)
    intro x y hx hy hdisjoint e
    obtain ⟨sx, key, hin⟩ := h.sound.of_mem_fragments hx
    obtain ⟨sy, _, hin'⟩ := h.sound.of_mem_fragments hy
    obtain rfl := hin.eq_of_text sx.maximal hin'.wf sy.maximal (bracketed_injective e).symm
    exact hdisjoint hin.mem_allKeys hin.mem_allKeys

section
variable (hd : c.options.debug = false) (hv : ∀ key, '{' ∉ c.resolve key)
include hd hv

/-- A pass over keys that stand apart is a layer, and each fragment is exchanged in its place. -/
theorem pass_scattered {f : Forest} (h : Scattered false f) :
    (pass c f.text).outcome = .ok (layer c f).text ∧
      (positional c f.text).outcome = .ok (layer c f).text := by
  induction hs : f.size using Nat.strongRecOn generalizing f with
  | ind n ih =>
    obtain ⟨g, hg⟩ := resolves_exists hd
    have hshow : c.ShowsKeys := by
      intro hd'
      rw [hd] at hd'
      cases hd'
    -- what becomes of each fragment is its layer, by the passes over the interiors
    have hlayer : ∀ x ∈ f.fragments, g (bracketed x.text) = (layered c x).text := by
      intro x hx
      obtain ⟨key, hin⟩ := h.sound.wf.of_mem_fragments hx
      have hmark : '@' ∈ bracketed x.text := by
        have : '@' ∈ x.text := mem_text_of_keys (by rw [hin.keys]; simp)
        simp [bracketed, this]
      have hsolves := hg.solves hmark
      generalize g (bracketed x.text) = new at hsolves
      cases hsolves with
      | nested hn ht =>
        have hsize : x.size ≠ 0 := Nat.pos_iff_ne_zero.mp (hin.isNested_iff.mp hn)
        have hx' := (ih x.size (hs ▸ size_lt_of_mem_fragments hx) (h.of_mem_fragments hx) rfl).1
        rw [interior_bracketed, hx'] at ht
        rw [layered_of_nested hsize, text_fragment_nil, Except.ok.inj ht]
      | leaf hn he =>
        have hsize : x.size = 0 := by
          have := mt hin.isNested_iff.mpr (by rw [hn]; decide)
          omega
        rw [interior_bracketed, expands_iff hshow] at he
        rw [he, layered_of_leaf hsize, text_ofText]
    have hpatch : patch g f.text = (layer c f).text := h.sound.wf.patch_append hlayer [] rfl rfl rfl
    have hpairs : replacements g f.text = layerPairs c f.fragments := by
      rw [replacements, openTexts_scattered h, List.map_map]
      exact List.map_congr_left fun x hx => congrArg (Prod.mk _) (hlayer x hx)
    have hplace : (positional c f.text).outcome = .ok (layer c f).text := by
      rw [hg.positional, hpatch]
    refine ⟨?_, hplace⟩
    have hbare : NoEscapedOpening false f.text := h.sound.wf.noEscapedOpening h.sound.unbraced
    rw [← hplace, hg.pass_eq_positional_iff hd hv (h.sound.wf.nest 0) hbare, hpairs]
    intro t ht
    rw [openTexts_scattered h] at ht
    obtain ⟨x, hx, rfl⟩ := List.mem_map.mp ht
    rw [replaceAll_layerPairs hv h hx, hlayer x hx]

end

end

end Forest

/-! ## the passes of a run -/

namespace Citation
open Template Render Forest

section
variable {c : Citation} (hd : c.options.debug = false) (hv : ∀ key, '{' ∉ c.context.resolve key)
include hd hv

/-- Every text of a run is that of a tree whose keys stand apart, if its template is. -/
theorem Reaches.scattered {f : Forest} (hf : Scattered false f) (ht : f.text = c.template)
    {s : Stage} (h : c.Reaches s) : ∃ g, Scattered false g ∧ g.text = s.text := by
  induction h with
  | start => exact ⟨f, hf, ht⟩
  | next _ hn ih =>
    obtain ⟨g, hg, htext⟩ := ih
    obtain ⟨hpass, _⟩ := next_outcome_some hn
    rw [← htext, (pass_scattered hd hv hg).1] at hpass
    exact ⟨layer c.context g, hg.layer hv, Except.ok.inj hpass⟩

/-- A run over such a tree makes no more passes than the tree has layers. -/
theorem length_textsFrom_le {limit : Nat} {f : Forest} (hf : Scattered false f) {s : Stage}
    (hs : f.text = s.text) {ts : List Text} (h : (c.textsFrom limit s).outcome = .ok ts) :
    ts.length ≤ f.height := by
  induction limit generalizing f s ts with
  | zero => cases h
  | succ limit ih =>
    rcases textsFrom_outcome_ok.mp h with ⟨_, rfl⟩ | ⟨s', ts', hn, hts, rfl⟩
    · exact Nat.zero_le _
    · obtain ⟨hpass, hne, _⟩ := next_outcome_some hn
      rw [← hs, (pass_scattered hd hv hf).1] at hpass
      have htext : (layer c.context f).text = s'.text := Except.ok.inj hpass
      have hle := ih (hf.layer hv) htext hts
      have hpos : f.height ≠ 0 := by
        intro hzero
        rw [layer_of_size (height_eq_zero_iff.mp hzero), hs] at htext
        exact hne htext.symm
      rw [height_layer] at hle
      show ts'.length + 1 ≤ f.height
      omega

end

/-- When a pass exchanges each fragment in its own place.  Over a text with matching brackets, none
of them escaped, it does if and only if the replacements of the pass leave of every fragment text
what becomes of it.  Over a template whose keys are all different, none of them directly before a
fragment, every pass of the run does, and there are no more passes than the brackets go deep. -/
theorem passes_in_place (c : Citation) (hd : c.options.debug = false)
    (hv : ∀ key, '{' ∉ c.context.resolve key) :
    (∃ g, Resolves c.context g ∧ ∀ t, WellNested t → NoEscapedOpening false t →
      ((pass c.context t).outcome = (positional c.context t).outcome ↔
        ∀ f ∈ openTexts t, Text.replaceAll (replacements g t) f = g f)) ∧
    ∀ f : Forest, f.Spells c.template → f.Unbraced → f.Detached → f.allKeys.Nodup →
      (∀ s, c.Reaches s →
        (pass c.context s.text).outcome = (positional c.context s.text).outcome) ∧
      ∃ ts, (∀ limit, countOf .closing c.template < limit → (c.texts limit).outcome = .ok ts) ∧
        ts.length ≤ height c.template := by
  constructor
  · obtain ⟨g, hg⟩ := resolves_exists (c := c.context) hd
    exact ⟨g, hg, fun t hn hu => hg.pass_eq_positional_iff hd hv hn hu⟩
  · intro f hf hu hdet hkeys
    have hscattered : Scattered false f := ⟨⟨hf.wf, hf.maximal, hu⟩, hdet, hkeys⟩
    refine ⟨fun s hs => ?_, ?_⟩
    · obtain ⟨g, hg, htext⟩ := hs.scattered hd hv hscattered hf.text
      obtain ⟨hpass, hplace⟩ := pass_scattered hd hv hg
      rw [← htext, hpass, hplace]
    · obtain ⟨ts, hts⟩ := texts_exist hd
      refine ⟨ts, hts, ?_⟩
      rw [hf.height]
      exact length_textsFrom_le hd hv hscattered hf.text (hts _ (Nat.lt_succ_self _))

/-- A fragment with one in it, and one beside it. -/
def apart : Forest :=
  .fragment (.fragment (.token ['a'] .nil) (.char ',' (.token ['b'] .nil)))
    (.fragment (.token ['c'] .nil) .nil)

def apartly : Citation where
  template := "\x7b\x7b@a\x7d,@b\x7d\x7b@c\x7d".toList
  data := [(.text ['a'], .text ['A']), (.text ['b'], .text ['B']), (.text ['c'], .text ['C'])]
  options := { strict := true }
  accepted := by rfl

/-- The run over `{{@a},@b}{@c}` takes the two layers off in two passes. -/
theorem passes_apart : apartly.options.debug = false ∧
    (∀ key, '{' ∉ apartly.context.resolve key) ∧
    ∃ ts, (apartly.texts 4).outcome = .ok ts ∧ ts.length ≤ 2 := by
  have hsep : '{' ∉ apartly.options.comboSeparator := by decide
  have hdata : ∀ e ∈ apartly.data, '{' ∉ e.2.display := by decide
  have hv : ∀ key, '{' ∉ apartly.context.resolve key := not_mem_resolve hsep (not_mem_lookup hdata)
  have hkey : ∀ k ∈ [['a'], ['b'], ['c']], IsKey k := by decide
  have hspells : apart.Spells apartly.template := by
    have hb : WellFormed false (.char ',' (.token ['b'] .nil)) :=
      .char (by decide) (.token (hkey _ (by decide)) .nil)
    have ha : WellFormed false (.token ['a'] .nil) := .token (hkey _ (by decide)) .nil
    have hc : WellFormed false (.token ['c'] .nil) := .token (hkey _ (by decide)) .nil
    refine ⟨.fragment (.fragment ha rfl rfl hb) rfl rfl (.fragment hc rfl rfl .nil), ?_, rfl, rfl⟩
    exact ⟨⟨⟨by decide, trivial⟩, by decide, trivial⟩, ⟨by decide, trivial⟩, trivial⟩
  have hunbraced : apart.Unbraced := ⟨⟨trivial, by decide, trivial⟩, trivial, trivial⟩
  have hdetached : apart.Detached := ⟨⟨⟨rfl, trivial⟩, rfl, trivial⟩, ⟨rfl, trivial⟩, trivial⟩
  obtain ⟨_, ts, hts, hle⟩ :=
    (passes_in_place apartly rfl hv).2 apart hspells hunbraced hdetached (by decide)
  exact ⟨rfl, hv, ts, hts 4 (by decide), hle⟩

/-- The first fragment stands in the second one as well. -/
def shadowed : Citation where
  template := "\x7b@a\x7d\x7b\x7b@a\x7d\x7b@c\x7d@b\x7d".toList
  data := [(.text ['a'], .text ['A']), (.text ['b'], .text ['B']), (.text ['c'], .text ['C'])]
  options := { strict := true }
  accepted := by rfl

/-- In `{@a}{{@a}{@c}@b}` the replacement for the first fragment changes the text of the second, so
what that becomes is lost, and the run takes three passes where the brackets go two deep. -/
theorem fragment_lost : check true shadowed.template = .ok () ∧
    atMarks startsKey false shadowed.template = true ∧
    NoEscapedOpening false shadowed.template ∧ shadowed.options.debug = false ∧
    (∀ key, '{' ∉ lookup shadowed.data key) ∧
    (pass shadowed.context shadowed.template).outcome = .ok "A\x7bA\x7b@c\x7d@b\x7d".toList ∧
    (positional shadowed.context shadowed.template).outcome = .ok "A\x7bAC@b\x7d".toList ∧
    height shadowed.template = 2 ∧
    (shadowed.texts 5).outcome = .ok
      ["A\x7bA\x7b@c\x7d@b\x7d".toList, "A\x7bAC@b\x7d".toList, "AACB".toList] := by
  have hdata : ∀ e ∈ shadowed.data, '{' ∉ e.2.display := by decide
  refine ⟨shadowed.accepted, by decide, by decide, rfl, not_mem_lookup hdata, ?_, ?_, by decide, ?_⟩
  · decide +kernel
  · decide +kernel
  · decide +kernel

end Citation
end Citations
