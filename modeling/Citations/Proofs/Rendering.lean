import Citations.Proofs.Collapse
import Citations.Proofs.RoundTrip

/-!
# Compositional rendering

What a citation is can be read off the fragment tree of its template: the text outside the
fragments stays, and a fragment is its interior with the value of its key and with its own
fragments rendered, or nothing where its key has no value.

* `Context.shown`       what is shown for a key;
* `Forest.render`       the rendering of a tree;
* `Forest.Detached`     no key stands directly before a fragment;
* `unescape_collapse`   without such a key the collapsed tree is the rendering, but for the escapes;
* `build_eq_render`     a citation is the rendering of its tree.
-/

namespace Citations

namespace Render
open Escaper Template

/-! ## unescaping in parts -/

theorem unescape_append {a : Text} (h : endsEscaping false a = false) (b : Text) :
    syntaxSigns.unescape (a ++ b) = syntaxSigns.unescape a ++ syntaxSigns.unescape b := by
  have hseam : endsEscaping false a = true → startsIn syntaxChars b = false := by
    intro he
    rw [h] at he
    cases he
  exact @unescape_join syntaxChars (by decide) (by decide) a b hseam

theorem unescape_cons {d : Char} (hp : d ≠ parked) (t : Text) :
    syntaxSigns.unescape (d :: t) =
      if d = '\\' ∧ startsIn syntaxChars t = true then syntaxSigns.unescape t
      else d :: syntaxSigns.unescape t := by
  rw [unescape_eq, unescape_eq, dropEscapes]
  by_cases h : d = '\\' ∧ startsIn syntaxChars t = true
  · rw [if_pos h, if_pos h]
  · rw [if_neg h, if_neg h, List.map_cons, unpark, if_neg hp]

theorem unescape_nil : syntaxSigns.unescape [] = [] := rfl

theorem unescape_of_no_backslash {t : Text} (hb : '\\' ∉ t) (hp : parked ∉ t) :
    syntaxSigns.unescape t = t := by
  induction t with
  | nil => rfl
  | cons d r ih =>
    have hd : d ≠ parked := fun e => hp (e ▸ List.mem_cons_self)
    have hne : d ≠ '\\' := fun e => hb (e ▸ List.mem_cons_self)
    rw [unescape_cons hd, if_neg fun h => hne h.1,
      ih (fun h => hb (List.mem_cons_of_mem _ h)) fun h => hp (List.mem_cons_of_mem _ h)]

/-- What is shown for a key: its value, or in debug mode the key itself in square brackets. -/
def Context.shown (c : Context) (key : Text) : Text :=
  if c.resolve key ≠ [] then c.resolve key
  else if c.options.debug then '[' :: key ++ [']']
  else []

end Render

namespace Forest
open Template Render Escaper

/-! ## the rendering of a tree -/

/-- A backslash of the template is dropped directly before a `}` or an `@`; a fragment whose key
shows nothing is left out with all that is in it. -/
def render (c : Context) : Forest → Text
  | nil => []
  | char d r =>
    if d = '\\' ∧ startsIn ['}', '@'] r.text = true then r.render c else d :: r.render c
  | token key r => c.shown key ++ r.render c
  | fragment x r =>
    (if x.keys.all (fun key => c.shown key ≠ []) then x.render c else []) ++ r.render c

def startsFragment : Forest → Bool
  | fragment _ _ => true
  | _ => false

/-- No key stands directly before a fragment. -/
def Detached : Forest → Prop
  | nil => True
  | char _ r => r.Detached
  | token _ r => r.startsFragment = false ∧ r.Detached
  | fragment x r => x.Detached ∧ r.Detached

/-! ## the collapsed tree and the rendering -/

section
variable {c : Context}

/-- Directly behind a backslash stands a character or nothing. -/
theorem WellFormed.startsIn_collapse {r : Forest} (h : WellFormed true r) (hu : r.Unbraced) :
    startsIn syntaxChars (r.collapse c) = startsIn ['}', '@'] r.text := by
  cases h with
  | nil => rfl
  | @char _ d r hd hr =>
    have hne : d ≠ '{' := hu.1
    simp [collapse, text, startsIn, syntaxChars, hne]

/-- With a key that nothing can lengthen, the collapsed forest around its token. -/
theorem startsKeyOrJoin_collapse {r : Forest} (hm : startsKeyOrJoin r.text = false)
    (hs : r.startsFragment = false) : startsKeyOrJoin (r.collapse c) = false := by
  cases r with
  | nil => rfl
  | char d r => exact hm
  | token key r => exact hm
  | fragment x r => cases hs

/-- How a collapsed forest is shown: as its rendering, once its token is replaced by a text that is
shown as the value. -/
structure Renders (c : Context) (esc : Bool) (f : Forest) : Prop where
  whole : f.keys = [] → syntaxSigns.unescape (f.collapse c) = f.render c
  around : ∀ key, f.keys = [key] → ∃ b a, f.collapse c = b ++ '@' :: key ++ a ∧ IsKey key ∧
    IsPlain esc b ∧ endsEscaping esc b = false ∧ startsKeyOrJoin a = false ∧
    ∀ s, endsEscaping false s = false → syntaxSigns.unescape s = c.shown key →
      syntaxSigns.unescape (b ++ s ++ a) = f.render c

theorem mem_text_of_mem_keys {f : Forest} {key : Text} (h : key ∈ f.keys) {d : Char}
    (hd : d ∈ key) : d ∈ f.text := by
  induction f with
  | nil => cases h
  | char e r ih => exact List.mem_cons_of_mem _ (ih h)
  | token k r ih =>
    rcases List.mem_cons.mp h with rfl | h
    · exact List.mem_append_left _ (List.mem_cons_of_mem _ hd)
    · exact List.mem_append_right _ (ih h)
  | fragment x r _ ih => exact List.mem_append_right _ (ih h)

/-- A filled fragment is shown as its rendering. -/
theorem unescape_leafText (hq : ∀ key, parked ∉ c.resolve key) {key : Text} {x : Forest}
    (hx : Within key x) (hp : parked ∉ key) (h : Renders c false x) :
    syntaxSigns.unescape (c.leafText (x.collapse c)) =
      if x.keys.all (fun key => c.shown key ≠ []) then x.render c else [] := by
  obtain ⟨b, a, hsplit, hk, hb, hbe, ha, hfill⟩ := h.around key hx.keys
  have htake : a.takeWhile Text.isKeyChar = [] := @takeWhile_key_append [] a nofun ha
  have hdrop : a.dropWhile Text.isKeyChar = a := @dropWhile_key_append [] a nofun ha
  rw [hsplit, leafText_token hb hbe hk, htake, hdrop, List.append_nil, hx.keys]
  by_cases hv : c.resolve key = []
  · cases hd : c.options.debug with
    | true =>
      have hshown : c.shown key = '[' :: key ++ [']'] := by simp [Context.shown, hv, hd]
      have hplain : syntaxSigns.unescape ('[' :: key ++ [']']) = c.shown key := by
        rw [hshown]
        refine unescape_of_no_backslash (fun hm => ?_) (fun hm => ?_)
        · rcases Placeholder.mem_default.mp hm with hm | hm | hm
          · exact absurd hm (by decide)
          · exact ne_backslash_of_isKeyChar (hk.chars _ hm) rfl
          · exact absurd hm (by decide)
        · rcases Placeholder.mem_default.mp hm with hm | hm | hm
          · exact absurd hm (by decide)
          · exact hp hm
          · exact absurd hm (by decide)
      have := hfill _ (endsEscaping_concat false ('[' :: key) ']') hplain
      simpa [hv, hshown] using this
    | false =>
      have hshown : c.shown key = [] := by simp [Context.shown, hv, hd]
      simp [hv, hshown, unescape_nil]
  · have hshown : c.shown key = c.resolve key := by simp [Context.shown, hv]
    have := hfill _ (endsEscaping_escape _) ((unescape_escape (hq key)).trans hshown.symm)
    simpa [hv, hshown] using this

/-- Where no key stands before a fragment and nothing is parked, the collapsed tree is shown as
the rendering. -/
theorem WellFormed.renders (hv : ∀ key, '{' ∉ c.resolve key) (hq : ∀ key, parked ∉ c.resolve key)
    {esc : Bool} {f : Forest} (hf : WellFormed esc f) (mf : f.Maximal) (uf : f.Unbraced)
    (df : f.Detached) (hp : parked ∉ f.text) : Renders c esc f := by
  induction hf with
  | nil => exact ⟨fun _ => rfl, fun _ h => absurd h.symm (List.cons_ne_nil _ _)⟩
  | @char esc d r hd hr ih =>
    have hne : d ≠ parked := fun e => hp (e ▸ List.mem_cons_self)
    have h := ih mf uf.2 df fun hm => hp (List.mem_cons_of_mem _ hm)
    -- a dropped backslash is followed by a character, which no filling changes
    have hone : ∀ {t : Text},
        (d = '\\' → startsIn syntaxChars t = startsIn syntaxChars (r.collapse c)) →
        syntaxSigns.unescape t = r.render c →
        syntaxSigns.unescape (d :: t) = (Forest.char d r).render c := by
      intro t hstart ht
      rw [unescape_cons hne, ht, render]
      by_cases hb : d = '\\'
      · rw [hb] at hr
        rw [hstart hb, WellFormed.startsIn_collapse hr uf.2]
      · simp [hb]
    refine ⟨fun hk => hone (fun _ => rfl) (h.whole hk), ?_⟩
    intro key hk
    obtain ⟨b, a, hsplit, hkey, hb, hbe, ha, hfill⟩ := h.around key hk
    refine ⟨d :: b, a, by rw [collapse, hsplit]; rfl, hkey, isPlain_cons.mpr ⟨hd, hb⟩, hbe, ha,
      fun s hs hshow => hone (fun hback => ?_) (hfill s hs hshow)⟩
    rw [hsplit]
    cases b with
    | nil =>
      rw [hback] at hbe
      cases hbe
    | cons e b => rfl
  | @token k r hk hr ih =>
    have h := ih mf.2 uf df.2 fun hm => hp (List.mem_append_right _ hm)
    refine ⟨fun hkeys => absurd hkeys (List.cons_ne_nil _ _), ?_⟩
    intro key hkeys
    obtain ⟨hkk, hrest⟩ := List.cons.inj hkeys
    rw [← hkk]
    refine ⟨[], r.collapse c, rfl, hk, isPlain_nil _, rfl, ?_, ?_⟩
    · exact startsKeyOrJoin_collapse mf.1 df.1
    · intro s hs hshow
      rw [List.nil_append, unescape_append hs, hshow, h.whole hrest, render]
  | @fragment x r k hx he hk hr ihx ihr =>
    have hin : Within k x := ⟨hx, he, hk⟩
    have hpx : parked ∉ x.text := fun hm => hp (List.mem_append_left _ (by simp [bracketed, hm]))
    have h := ihr mf.2 uf.2 df.2 fun hm => hp (List.mem_append_right _ hm)
    have hpk : parked ∉ k := fun hm =>
      hpx (mem_text_of_mem_keys (by rw [hk]; exact List.mem_cons_self) hm)
    have hleaf := unescape_leafText hq hin hpk (ihx mf.1 uf.1 df.1 hpx)
    obtain ⟨hflat, hends⟩ := hin.closed_leafText hv (hx.shape hv uf.1)
    constructor
    · intro hkeys
      rw [collapse, unescape_append hends, hleaf, h.whole hkeys, render]
    · intro key hkeys
      obtain ⟨b, a, hsplit, hkey, hb, hbe, ha, hfill⟩ := h.around key hkeys
      refine ⟨c.leafText (x.collapse c) ++ b, a, ?_, hkey, ?_, ?_, ha, ?_⟩
      · rw [collapse, hsplit]
        simp
      · exact isPlain_append.mpr ⟨hflat.plain, by rwa [hends]⟩
      · rw [endsEscaping_append, hends, hbe]
      · intro s hs hshow
        rw [List.append_assoc, List.append_assoc, unescape_append hends, hleaf,
          ← List.append_assoc, hfill s hs hshow, render]

theorem unescape_collapse (hv : ∀ key, '{' ∉ c.resolve key)
    (hq : ∀ key, parked ∉ c.resolve key) {f : Forest} {t : Text} (hf : f.Spells t)
    (uf : f.Unbraced) (df : f.Detached) (hp : parked ∉ t) :
    syntaxSigns.unescape (f.collapse c) = f.render c :=
  (hf.wf.renders hv hq hf.maximal uf df (hf.text ▸ hp)).whole hf.keys

end

/-! ## the template as it is written -/

/-- In a template without a `{` behind a backslash no character of the tree is a `{`. -/
theorem WellFormed.unbraced {esc : Bool} {f : Forest} (hf : WellFormed esc f)
    (h : NoEscapedOpening esc f.text) : f.Unbraced := by
  induction hf with
  | nil => trivial
  | @char esc d r hd hr ih =>
    refine ⟨?_, ih h.2⟩
    rintro rfl
    rw [h.1 rfl] at hd
    cases hd
  | token hk hr ih =>
    rw [text, noEscapedOpening_append, endsEscaping_token hk] at h
    exact ih h.2
  | @fragment x r key hx he hk hr ihx ihr =>
    rw [text, noEscapedOpening_append, endsEscaping_bracketed] at h
    exact ⟨ihx (noEscapedOpening_append.mp h.1.2).1, ihr h.2⟩

/-- Whether the key at the front of a text is followed by something other than a `{`. -/
def keyDetached (t : Text) : Bool := !startsIn ['{'] (t.dropWhile Text.isKeyChar)

theorem WellFormed.detached {esc : Bool} {f : Forest} (hf : WellFormed esc f) (mf : f.Maximal)
    {w : Text} (hw : Closes (endsEscaping esc f.text) w)
    (h : atMarks keyDetached esc (f.text ++ w) = true) : f.Detached := by
  induction hf generalizing w with
  | nil => trivial
  | char hd hr ih => exact ih mf hw ((atMarks_cons _ _ _ _).mp h).2
  | @token key r hk hr ih =>
    rw [text, endsEscaping_append, endsEscaping_token hk] at hw
    rw [text, List.append_assoc] at h
    have hmark : keyDetached (key ++ (r.text ++ w)) = true := ((atMarks_cons _ _ _ _).mp h).1 rfl
    have hrest := atMarks_append_right h
    rw [endsEscaping_token hk] at hrest
    refine ⟨?_, ih mf.2 hw hrest⟩
    rw [keyDetached, dropWhile_key_append hk.chars (startsKeyOrJoin_append_closes mf.1 hw)] at hmark
    cases r with
    | nil | char | token => rfl
    | fragment x s => cases hmark
  | @fragment x r key hx he hk hr ihx ihr =>
    rw [text, endsEscaping_append, endsEscaping_bracketed] at hw
    have hsplit : bracketed x.text ++ r.text ++ w = '{' :: (x.text ++ '}' :: (r.text ++ w)) := by
      simp [bracketed]
    rw [text] at h
    have hrest := h
    rw [List.append_assoc] at hrest
    have hrest := atMarks_append_right hrest
    rw [endsEscaping_bracketed] at hrest
    rw [hsplit] at h
    exact ⟨ihx mf.1 (Or.inr ⟨he, _, rfl⟩) ((atMarks_cons _ _ _ _).mp h).2, ihr mf.2 hw hrest⟩

end Forest

namespace Citation
open Template Render Forest Escaper

/-- Compositional rendering.  Of a strictly checked template without a backslash before a `{`, in
which every `@` starts a key and no key stands directly before a `{`, there is exactly one fragment
tree.  With values that have no `{`, the citation is the rendering of that tree, whatever order the
passes and replacements come in. -/
theorem build_eq_render (c : Citation) (hcheck : check true c.template = .ok ())
    (hesc : ¬ ['\\', '{'] <:+: c.template) (hpark : parked ∉ c.template)
    (hmarks : atMarks startsKey false c.template = true)
    (hkeys : atMarks keyDetached false c.template = true)
    (hdata : ∀ key, '{' ∉ c.context.resolve key ∧ parked ∉ c.context.resolve key)
    (hdebug : c.context.ShowsKeys) (hcap : c.options.maxPasses = none) :
    ∃ f : Forest, f.Spells c.template ∧ (∀ g : Forest, g.Spells c.template → g = f) ∧
      ∀ limit, countOf .closing c.template < limit →
        (c.build limit).outcome = .ok (f.render c.context) := by
  obtain ⟨f, hf⟩ := exists_spells hcheck hmarks
  have hv : ∀ key, '{' ∉ c.context.resolve key := fun key => (hdata key).1
  have hq : ∀ key, parked ∉ c.context.resolve key := fun key => (hdata key).2
  have hbare : NoEscapedOpening false f.text := hf.text ▸ noEscapedOpening_iff.mpr hesc
  have uf := hf.wf.unbraced hbare
  have df : f.Detached := by
    refine hf.wf.detached hf.maximal (w := []) (Or.inl rfl) ?_
    rw [List.append_nil, hf.text]
    exact hkeys
  refine ⟨f, hf, fun g hg => hg.unique hf, ?_⟩
  intro limit hl
  rw [build_collapse hdebug hv hcap hf uf hl, unescape_collapse hv hq hf uf df hpark]

/-- A template with an escaped `@`, an escaped `}` and a fragment in a fragment; two of the values
hold signs of their own. -/
def signed : Citation where
  template := "at \\@\x7b@a, \x7bno. @b\\\x7d\x7d\x7d\x7b; @c\x7d".toList
  data := [(.text "a".toList, .text "x@y\x7d".toList), (.text "b".toList, .text "1\\".toList)]
  options := { debug := true }
  accepted := by rfl

theorem build_signed : ∃ f : Forest, f.Spells signed.template ∧
    (∀ g : Forest, g.Spells signed.template → g = f) ∧
    ∀ limit, countOf .closing signed.template < limit →
      (signed.build limit).outcome = .ok (f.render signed.context) := by
  have hlookup : ∀ d, d = '{' ∨ d = parked → ∀ e ∈ signed.data, d ∉ e.2.display := by
    rintro d (rfl | rfl) <;> decide
  have hsep : ∀ d, d = '{' ∨ d = parked → d ∉ signed.options.comboSeparator := by
    rintro d (rfl | rfl) <;> decide
  refine build_eq_render signed (by rfl) (noEscapedOpening_iff.mp (by decide)) (by decide)
    (by rfl) (by rfl)
    (fun key => ⟨?_, ?_⟩) (fun _ => rfl) rfl
  · exact not_mem_resolve (hsep _ (Or.inl rfl)) (not_mem_lookup (hlookup _ (Or.inl rfl))) key
  · exact not_mem_resolve (hsep _ (Or.inr rfl)) (not_mem_lookup (hlookup _ (Or.inr rfl))) key

end Citation
end Citations
