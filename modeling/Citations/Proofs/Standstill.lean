import Citations.Proofs.Ending
import Citations.Proofs.Innermost
import Citations.Proofs.Notes

/-!
# When a pass changes nothing

Without debug mode a leaf is always rewritten, be it filled or removed, and each rewriting of a
fragment text takes a `{` away that no later one brings back.  So a pass leaves a text as it is
exactly if it comes to no leaf, and then a run gives up.

* `Still t`             the recursion over `t` comes to no leaf;
* `still_iff`           the same for the fragment texts that a pass solves;
* `Pair.same_iff`       which fragment texts become themselves;
* `pass_eq_self_iff`    a pass leaves exactly the still texts alone;
* `next_stuck_iff`      the steps that tell that a pass is stuck;
* `standstill`          when a pass is stuck, and when a run gives up.
-/

namespace Citations

/-! ## still texts -/

namespace Template
open Render

/-- The recursion into nested fragments comes to no leaf. -/
def Still (t : Text) : Prop := ∀ f, Reached t f → f.kind ≠ .leaf

theorem still_iff_innermost {t : Text} : Still t ↔ ∀ p, Innermost t p → '@' ∉ p.inside t := by
  have h := not_congr (leaf_reached_iff t)
  simp only [not_exists, not_and] at h
  exact h

/-- A text is still if each fragment text with an `@` is nested and has a still interior. -/
theorem still_iff {t : Text} :
    Still t ↔ ∀ f ∈ openTexts t, isNested f = true ∧ Still (interior f) := by
  constructor
  · intro h f hf
    obtain ⟨ha, s, hs, rfl⟩ := mem_openTexts_iff.mp hf
    have hmem : fragmentAt t s ∈ fragments t := List.mem_map_of_mem hs
    have hn : isNested (s.slice t) = true := by
      by_contra hleaf
      exact h _ (.top hmem) (kindOf_eq_leaf_iff.mpr ⟨ha, Bool.eq_false_iff.mpr hleaf⟩)
    exact ⟨hn, fun g hg => h g (.within hmem (kindOf_eq_nested_iff.mpr ⟨ha, hn⟩) hg)⟩
  · intro h f hf hl
    cases hf with
    | top hf =>
      obtain ⟨s, hs, rfl⟩ := List.mem_map.mp hf
      obtain ⟨ha, hleaf⟩ := kindOf_eq_leaf_iff.mp hl
      have hn := (h _ (mem_openTexts_iff.mpr ⟨ha, s, hs, rfl⟩)).1
      rw [hleaf] at hn
      cases hn
    | within hg hn hf =>
      obtain ⟨s, hs, rfl⟩ := List.mem_map.mp hg
      obtain ⟨ha, _⟩ := kindOf_eq_nested_iff.mp hn
      exact (h _ (mem_openTexts_iff.mpr ⟨ha, s, hs, rfl⟩)).2 f hf hl

end Template

/-! ## passes -/

namespace Render
open Template

section
variable {c : Context} {motive : Text → Text → Prop} {t f new : Text}

/-- What a pass makes of a fragment text has no more `{` than stand within its brackets. -/
theorem Pair.unopened_of_silent (hd : c.options.debug = false) (h : Pair c motive t f new) :
    Unopened (f, new) := by
  have hc : c.options.NeverShows c.memory '{' := Options.neverShows_of_silent hd '{'
  cases h with
  | nested hf hn h => exact (Pair.nested hf hn h (drops_of_pass hc h)).unopened hc
  | leaf hf hn h => exact (Pair.leaf hf hn h).unopened hc

/-- A leaf never becomes its own fragment text. -/
theorem Expands.ne_bracketed (hd : c.options.debug = false) {x : Text}
    (hx : endsEscaping false x = false) (h : Expands c x new) : new ≠ bracketed x := by
  rintro rfl
  have hopen := countFrom_opening_bracketed false hx
  rcases h.countFrom_le (fun _ _ => sign_eq_opening_iff)
    (Options.neverShows_of_silent hd '{') with heq | hle
  · have hlen := congrArg List.length heq
    simp only [bracketed, List.length_append, List.length_cons] at hlen
    omega
  · simp only [Bool.false_eq_true, if_false] at hopen
    omega

/-- The fragment texts that become themselves. -/
theorem Pair.same_iff (hd : c.options.debug = false)
    (h : Pair c (fun t t' => t' = t ↔ Still t) t f new) :
    new = f ↔ isNested f = true ∧ Still (interior f) := by
  have hf := h.mem_openTexts
  obtain ⟨_, _, _, x, _, hp, rfl⟩ := exists_of_mem_openTexts hf
  rw [interior_bracketed]
  cases h with
  | nested _ hn _ ih =>
    rw [interior_bracketed] at ih
    rw [hn, ← ih, eq_self, true_and]
    constructor
    · intro h
      exact bracketed_injective h
    · rintro rfl
      rfl
  | leaf _ hn hexp =>
    rw [interior_bracketed] at hexp
    refine iff_of_false (hexp.ne_bracketed hd hp.interior.ends) fun h => ?_
    rw [hn] at h
    cases h.1

/-- A pass leaves exactly those texts alone in which it comes to no leaf. -/
theorem pass_eq_self_iff (hd : c.options.debug = false) {t' : Text}
    (h : (pass c t).outcome = .ok t') : t' = t ↔ Still t := by
  refine pass_induction c (motive := fun t t' => t' = t ↔ Still t)
    (fun t solved htexts hpairs => ?_) h
  have hstill : Still t ↔ ∀ p ∈ solved, p.2 = p.1 := by
    rw [still_iff, ← htexts, List.forall_mem_map]
    exact forall₂_congr fun p hp => ((hpairs p hp).same_iff hd).symm
  rw [hstill]
  -- the number of unescaped `{` tells a text from the one before, whatever is replaced later
  have hdrops := drops_replaceAll fun p hp =>
    ⟨(hpairs p hp).unopened_of_silent hd, (hpairs p hp).mem_openTexts⟩
  rcases hdrops with ⟨hall, heq⟩ | ⟨⟨p, hp, hne⟩, hlt⟩
  · exact iff_of_true heq hall
  · refine iff_of_false (fun heq => ?_) fun hall => hne (hall p hp)
    rw [heq] at hlt
    exact Nat.lt_irrefl _ hlt

end

end Render

/-! ## runs -/

namespace Citation
open Template Render

section
variable {c : Citation} {s : Stage}

/-- A step tells that it is stuck exactly where a pass is due and the text is still. -/
theorem next_stuck_iff (hd : c.options.debug = false) :
    c.next s = ⟨[.stuck s.text], .ok none⟩ ↔
      c.atCap s.passes = false ∧ hasTokenSign s.text = true ∧ Still s.text := by
  obtain ⟨t, ht⟩ := pass_exists c.context (expands_exists _ hd) s.text
  rw [← pass_eq_self_iff hd ht]
  cases htoken : hasTokenSign s.text with
  | false =>
    rw [next_of_done htoken]
    simp
  | true =>
    cases hcap : c.atCap s.passes with
    | true =>
      rw [next_of_cap htoken hcap]
      simp
    | false =>
      rw [next_of_pass htoken hcap ht, told_of_silent hd]
      by_cases h : t = s.text <;> simp [h]

end

/-- A pass without debug mode succeeds, and it leaves exactly those texts as they are in which the
recursion into nested fragments comes to no leaf.  So, as long as there is no cap that stops it
before, a run gives up exactly on the texts with an unescaped `@` in which no innermost fragment, at
or within the top level, holds an `@`. -/
theorem standstill :
    (∀ c : Context, c.options.debug = false → ∀ t, ∃ t', (pass c t).outcome = .ok t' ∧
      (t' = t ↔ ∀ f, Reached t f → f.kind ≠ .leaf)) ∧
    ∀ c : Citation, c.options.debug = false → ∀ s : Stage,
      (c.next s = ⟨[.stuck s.text], .ok none⟩ ↔
        c.atCap s.passes = false ∧ hasTokenSign s.text = true ∧
          ∀ p, Innermost s.text p → '@' ∉ p.inside s.text) := by
  refine ⟨fun c hd t => ?_, fun c hd s => ?_⟩
  · obtain ⟨t', ht⟩ := pass_exists c (expands_exists c hd) t
    exact ⟨t', ht, pass_eq_self_iff hd ht⟩
  · rw [next_stuck_iff hd, still_iff_innermost]

/-- A token before the only fragment. -/
def strayed : Citation where
  template := "@a \x7bx\x7d".toList
  data := [(.text ['a'], .text ['A'])]
  options := {}
  accepted := by rfl

theorem standstill_strayed : strayed.options.debug = false ∧
    (pass strayed.context strayed.template).outcome = .ok strayed.template ∧
    strayed.next strayed.start = ⟨[.stuck strayed.template], .ok none⟩ := by
  have hnone : openTexts strayed.template = [] := by decide
  have hstill : Still strayed.template := by
    rw [still_iff, hnone]
    exact fun _ h => nomatch h
  obtain ⟨hpass, hnext⟩ := standstill
  obtain ⟨t', ht, hiff⟩ := hpass strayed.context rfl strayed.template
  rw [hiff.mpr hstill] at ht
  exact ⟨rfl, ht, (hnext strayed rfl strayed.start).mpr
    ⟨rfl, by rfl, still_iff_innermost.mp hstill⟩⟩

end Citation
end Citations
