import Citations.Proofs.Escapes

/-!
# Escaping and back

The specials of an escaper may be any characters but the backslash, in any order, and one may be
among them several times.  Then it gets several backslashes, and each replacement of the way back
takes one of them away again.

* `unreplace_shielded`       one replacement of the way back;
* `unescape_escape_ofChars`  what comes back: the text, with a backslash for a parked one, and
                             `unescape_escape` for an inserted value;
* `backslash_before`         where a special stands in an escaped text;
* `round_trip`               all of it for an escaper.
-/

namespace Citations
namespace Escaper

/-! ## parked backslashes -/

theorem park_ne_backslash (d : Char) : park d ≠ '\\' := by
  unfold park
  by_cases hd : d = '\\'
  · rw [if_pos hd]
    decide
  · rwa [if_neg hd]

theorem not_mem_map_park (s : Text) : '\\' ∉ s.map park := by
  intro h
  obtain ⟨d, _, hd⟩ := List.mem_map.mp h
  exact park_ne_backslash d hd

theorem unpark_park (d : Char) : unpark (park d) = unpark d := by
  unfold park
  by_cases hd : d = '\\'
  · rw [if_pos hd, hd]
    rfl
  · rw [if_neg hd]

theorem park_unpark (d : Char) : park (unpark d) = park d := by
  unfold unpark
  by_cases hd : d = parked
  · rw [if_pos hd, hd]
    rfl
  · rw [if_neg hd]

theorem map_unpark_eq_iff {s : Text} : s.map unpark = s ↔ parked ∉ s := by
  induction s with
  | nil => simp
  | cons d r ih =>
    have hone : unpark d = d ↔ parked ≠ d := by
      unfold unpark
      by_cases hd : d = parked
      · rw [if_pos hd, hd]
        decide
      · simp [hd, Ne.symm hd]
    rw [List.map_cons, List.cons.injEq, ih, hone, List.mem_cons, not_or]

/-! ## the way back -/

/-- From the backslashes before a character one is taken if it is the one looked for. -/
theorem dropEscapes_replicate {c d : Char} (hc : c ≠ '\\') (hd : d ≠ '\\') (n : Nat) (r : Text) :
    dropEscapes [c] (List.replicate n '\\' ++ d :: r) =
      List.replicate (n - if c = d then 1 else 0) '\\' ++ d :: dropEscapes [c] r := by
  induction n with
  | zero =>
    rw [Nat.zero_sub]
    exact dropEscapes_of_ne hd r
  | succ n ih =>
    rw [List.replicate_succ, List.cons_append, dropEscapes_backslash, ih]
    cases n with
    | zero =>
      by_cases he : c = d
      · simp [startsIn, he]
      · simp [startsIn, he, Ne.symm he]
    | succ n =>
      -- behind the first backslash stands another one
      have hs : startsIn [c] (List.replicate (n + 1) '\\' ++ d :: r) = false := by
        simp [List.replicate_succ, startsIn, hc.symm]
      have hn : n + 1 + 1 - (if c = d then 1 else 0) = (n + 1 - if c = d then 1 else 0) + 1 := by
        split <;> omega
      rw [hs, if_neg Bool.false_ne_true, hn, List.replicate_succ]
      rfl

theorem unreplace_shielded {c : Char} (hc : c ≠ '\\') (k : Char → Nat) {t : Text} (ht : '\\' ∉ t) :
    Text.replace ['\\', c] [c] (shielded k t) =
      shielded (fun d => k d - if c = d then 1 else 0) t := by
  rw [replace_escaped hc]
  induction t with
  | nil => rfl
  | cons d r ih =>
    have hd : d ≠ '\\' := fun h => ht (h ▸ List.mem_cons_self)
    have hr : '\\' ∉ r := fun h => ht (List.mem_cons_of_mem _ h)
    rw [shielded_cons, dropEscapes_replicate hc hd, ih hr, shielded_cons]

/-- A character loses a backslash each time it is among the specials. -/
theorem unreplaceAll_shielded {cs : List Char} (hb : '\\' ∉ cs) (k : Char → Nat) {t : Text}
    (ht : '\\' ∉ t) :
    Text.replaceAll (ofChars cs).unescapePairs (shielded k t) =
      shielded (fun d => k d - cs.count d) t := by
  induction cs generalizing k with
  | nil => rfl
  | cons c cs ih =>
    have hc : c ≠ '\\' := fun h => hb (h ▸ List.mem_cons_self)
    have hb' : '\\' ∉ cs := fun h => hb (List.mem_cons_of_mem _ h)
    show Text.replaceAll (ofChars cs).unescapePairs (Text.replace ['\\', c] [c] (shielded k t)) = _
    rw [unreplace_shielded hc k ht, ih hb']
    congr 1
    funext d
    rw [List.count_cons, Nat.sub_sub, Nat.add_comm (cs.count d)]
    simp only [beq_iff_eq]

theorem unescape_escape_ofChars {cs : List Char} (hb : '\\' ∉ cs) (s : Text) :
    (ofChars cs).unescape ((ofChars cs).escape s) = s.map unpark := by
  have hnone : shielded (fun d => cs.count d - cs.count d) (s.map park) = s.map park := by
    simp only [Nat.sub_self, shielded_zero]
  rw [escape_eq_shielded hb, unescape, unreplaceAll_shielded hb _ (not_mem_map_park s), hnone,
    Text.replace_singleton, List.flatMap_map, List.map_eq_flatMap]
  congr 1
  funext d
  rw [← unpark_park, unpark]
  split <;> rfl

/-! ## an escaped text -/

section
variable {k : Char → Nat} {t : Text}

/-- Wherever a character with backslashes stands, one stands directly before it. -/
theorem backslash_before {c : Char} (hc : c ≠ '\\') (hk : 0 < k c) {u w : Text}
    (h : shielded k t = u ++ c :: w) : ['\\'] <:+ u := by
  have hlast : ['\\'] <:+ List.replicate (k c) '\\' := by
    obtain ⟨n, hn⟩ := Nat.exists_eq_succ_of_ne_zero (Nat.pos_iff_ne_zero.mp hk)
    exact ⟨List.replicate n '\\', by rw [hn, List.replicate_succ']⟩
  induction t generalizing u with
  | nil => simp [shielded] at h
  | cons d r ih =>
    rw [shielded_cons] at h
    rcases List.append_eq_append_iff.mp h with ⟨v, rfl, hr⟩ | ⟨v, hv, hr⟩
    · cases v with
      | nil =>
        obtain ⟨rfl, _⟩ := List.cons.inj hr
        rwa [List.append_nil]
      | cons e v =>
        have hsuffix := ih (List.cons.inj hr).2
        exact hsuffix.trans ((List.suffix_cons e v).trans (List.suffix_append _ _))
    · cases v with
      | nil =>
        obtain ⟨rfl, _⟩ := List.cons.inj hr
        rw [List.append_nil] at hv
        rwa [← hv]
      | cons e v =>
        -- it would be one of the backslashes itself
        obtain ⟨rfl, _⟩ := List.cons.inj hr
        have hmem : c ∈ List.replicate (k d) '\\' := by
          rw [hv]
          exact List.mem_append_right _ List.mem_cons_self
        exact absurd (List.eq_of_mem_replicate hmem) hc

theorem not_suffix_shielded (k : Char → Nat) (ht : '\\' ∉ t) : ¬ ['\\'] <:+ shielded k t := by
  rcases List.eq_nil_or_concat t with rfl | ⟨r, d, rfl⟩
  · intro h
    exact List.cons_ne_nil _ _ (List.suffix_nil.mp h)
  · rintro ⟨u, hu⟩
    have hd : d ≠ '\\' := fun h => ht (h ▸ by simp)
    rw [List.concat_eq_append, shielded_concat] at hu
    have hlast := (List.append_inj' hu rfl).2
    exact hd (List.cons.inj hlast).1.symm

end

/-- Unescaping undoes escaping, but for the code point of a parked backslash in the text itself,
which comes back as a backslash.  Escaping again gives the escaped text again, without an exception.
In it every special stands directly behind a backslash, and no backslash stands at its end. -/
theorem round_trip {cs : List Char} (hb : '\\' ∉ cs) (s : Text) :
    (ofChars cs).unescape ((ofChars cs).escape s) = s.map unpark ∧
    ((ofChars cs).unescape ((ofChars cs).escape s) = s ↔ parked ∉ s) ∧
    (ofChars cs).escape ((ofChars cs).unescape ((ofChars cs).escape s)) = (ofChars cs).escape s ∧
    (∀ c ∈ cs, ∀ u w, (ofChars cs).escape s = u ++ c :: w → ['\\'] <:+ u) ∧
    ¬ ['\\'] <:+ (ofChars cs).escape s := by
  have hback := unescape_escape_ofChars hb s
  refine ⟨hback, ?_, ?_, ?_, ?_⟩
  · rw [hback]
    exact map_unpark_eq_iff
  · rw [hback, escape_eq_shielded hb, escape_eq_shielded hb, List.map_map]
    congr 2
    funext d
    exact park_unpark d
  · intro c hc u w h
    have hne : c ≠ '\\' := fun e => hb (e ▸ hc)
    rw [escape_eq_shielded hb] at h
    exact backslash_before hne (List.count_pos_iff.mpr hc) h
  · rw [escape_eq_shielded hb]
    exact not_suffix_shielded _ (not_mem_map_park s)

/-- A special that is given twice gets two backslashes and loses both. -/
theorem round_trip_doubled : '\\' ∉ "@\x7b@".toList ∧
    (ofChars "@\x7b@".toList).escape "\\@\x7b".toList = parked :: "\\\\@\\\x7b".toList ∧
    (ofChars "@\x7b@".toList).unescape (parked :: "\\\\@\\\x7b".toList) = "\\@\x7b".toList := by
  have hb : '\\' ∉ "@\x7b@".toList := by decide
  have hescape : (ofChars "@\x7b@".toList).escape "\\@\x7b".toList =
      parked :: "\\\\@\\\x7b".toList := by decide
  obtain ⟨_, hback, _⟩ := round_trip hb "\\@\x7b".toList
  rw [hescape] at hback
  exact ⟨hb, hescape, hback.mpr (by decide)⟩

end Escaper

namespace Render
open Escaper

/-- An inserted value is shown as it was. -/
theorem unescape_escape {v : Text} (h : parked ∉ v) : syntaxSigns.unescape (escape v) = v :=
  (@unescape_escape_ofChars syntaxChars (by decide) v).trans (map_unpark_eq_iff.mpr h)

end Render
end Citations
