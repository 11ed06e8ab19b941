import Citations.Proofs.Passes

/-!
# Replacing as rewriting

A replacement puts the new text in the place of one occurrence after the other, so whatever each
single exchange keeps, the replacement keeps.

* `Rewrites old new t t'`    `t'` comes from `t` by exchanging occurrences of `old` for `new`;
* `rewrites_replace`         a replacement is such a rewriting;
* `replace_induction`        the cases of a replacement: an occurrence, or a character that is kept;
* `replace_append_of_unbordered`   an occurrence that no other can overlap is met;
* `replaceAll_preserves`     what every single exchange keeps, a list of replacements keeps.
-/

namespace Citations
namespace Text

/-- `t'` comes from `t` by exchanging occurrences of `old` for `new`, one at a time. -/
inductive Rewrites (old new : Text) : Text → Text → Prop where
  | refl (t : Text) : Rewrites old new t t
  | step {u w t : Text} (h : Rewrites old new (u ++ new ++ w) t) :
      Rewrites old new (u ++ old ++ w) t

section
variable {old new : Text}

/-- A replacement meets an occurrence or keeps a character. -/
theorem replace_induction (h : old ≠ []) {motive : Text → Prop} (nil : motive [])
    (hit : ∀ r, motive r → motive (old ++ r))
    (miss : ∀ c r, ¬ old <+: c :: r → motive r → motive (c :: r)) (t : Text) : motive t := by
  induction hl : t.length using Nat.strongRecOn generalizing t with
  | ind n ih =>
    cases t with
    | nil => exact nil
    | cons c r =>
      by_cases hp : old <+: c :: r
      · obtain ⟨w, hw⟩ := hp
        have hpos := List.length_pos_iff.mpr h
        have hlen := congrArg List.length hw
        rw [List.length_append] at hlen
        rw [← hw]
        exact hit w (ih w.length (by omega) w rfl)
      · refine miss c r hp (ih r.length ?_ r rfl)
        rw [← hl, List.length_cons]
        omega

theorem rewrites_replace (h : old ≠ []) (t : Text) :
    Rewrites old new t (replace old new t) := by
  have after : ∀ pre, Rewrites old new (pre ++ t) (pre ++ replace old new t) := by
    induction t using replace_induction h with
    | nil =>
      intro pre
      rw [replace_nil_right new h]
      exact .refl _
    | hit r ih =>
      intro pre
      have := ih (pre ++ new)
      rw [replace_append_self new r h, ← List.append_assoc, ← List.append_assoc]
      exact .step this
    | miss c r hp ih =>
      intro pre
      have := ih (pre ++ [c])
      rw [replace_cons new h hp]
      simpa using this
  exact after []

/-- Where no occurrence can start, nothing is replaced. -/
theorem replace_append_of_not_mem {d : Char} {rest a : Text} (h : d ∉ a) (r : Text) :
    replace (d :: rest) new (a ++ r) = a ++ replace (d :: rest) new r := by
  induction a with
  | nil => rfl
  | cons c a ih =>
    have hp : ¬ d :: rest <+: c :: (a ++ r) := fun hp =>
      h ((List.cons_prefix_cons.mp hp).1 ▸ List.mem_cons_self)
    rw [List.cons_append, replace_cons new (by simp) hp,
      ih fun hm => h (List.mem_cons_of_mem _ hm), List.cons_append]

/-- Two occurrences of the text cannot overlap: it starts with nothing that it ends with. -/
def Unbordered (t : Text) : Prop := ∀ a q b, a ++ q = t → q ++ b = t → a = [] ∨ q = []

/-- An occurrence that no other can overlap is met, whatever stands before it. -/
theorem replace_append_of_unbordered (h : old ≠ []) (hu : Unbordered old) (u w : Text) :
    replace old new (u ++ old ++ w) = replace old new u ++ new ++ replace old new w := by
  induction hl : u.length using Nat.strongRecOn generalizing u with
  | ind n ih =>
    cases u with
    | nil =>
      rw [List.nil_append, replace_append_self new w h, replace_nil_right new h]
      rfl
    | cons c r =>
      rw [List.length_cons] at hl
      by_cases hp : old <+: c :: r
      · obtain ⟨u', hu'⟩ := hp
        have hlen := congrArg List.length hu'
        have hpos := List.length_pos_iff.mpr h
        rw [List.length_append, List.length_cons] at hlen
        rw [← hu', List.append_assoc, List.append_assoc, replace_append_self new _ h,
          replace_append_self new _ h, ← List.append_assoc u', ih u'.length (by omega) u' rfl]
        simp only [List.append_assoc]
      · have hmiss : ¬ old <+: c :: (r ++ old ++ w) := by
          rintro ⟨v, hv⟩
          have hv : old ++ v = (c :: r) ++ (old ++ w) := by simpa using hv
          rcases List.append_eq_append_iff.mp hv with ⟨m, hm, _⟩ | ⟨q, hq, hqv⟩
          · exact hp ⟨m, hm.symm⟩
          · -- the two occurrences would overlap in `q`
            have hlen := congrArg List.length hq
            rw [List.length_append, List.length_cons] at hlen
            have hprefix : q <+: old :=
              List.prefix_of_prefix_length_le ⟨v, hqv.symm⟩ ⟨w, rfl⟩ (by omega)
            obtain ⟨b, hb⟩ := hprefix
            rcases hu (c :: r) q b hq.symm hb with hnil | hnil
            · cases hnil
            · rw [hnil, List.append_nil] at hq
              exact hp ⟨[], by rw [hq, List.append_nil]⟩
        rw [List.cons_append, List.cons_append, replace_cons new h hmiss, replace_cons new h hp,
          ih r.length (by omega) r rfl]
        rfl

theorem Rewrites.preserves {P : Text → Prop} (hstep : ∀ u w, P (u ++ old ++ w) → P (u ++ new ++ w))
    {t t' : Text} (h : Rewrites old new t t') (ht : P t) : P t' := by
  induction h with
  | refl => exact ht
  | step _ ih => exact ih (hstep _ _ ht)

end

/-- What every single exchange keeps, a list of replacements keeps. -/
theorem replaceAll_preserves {P : Text → Prop} {pairs : List (Text × Text)}
    (hne : ∀ p ∈ pairs, p.1 ≠ [])
    (hstep : ∀ p ∈ pairs, ∀ u w, P (u ++ p.1 ++ w) → P (u ++ p.2 ++ w)) {t : Text} (ht : P t) :
    P (replaceAll pairs t) := by
  induction pairs generalizing t with
  | nil => exact ht
  | cons p ps ih =>
    obtain ⟨hp, hps⟩ := List.forall_mem_cons.mp hne
    obtain ⟨hs, hss⟩ := List.forall_mem_cons.mp hstep
    rw [replaceAll_cons]
    exact ih hps hss ((rewrites_replace hp t).preserves hs ht)

end Text
end Citations
