import Citations.Command.Files

/-!
# What a written file leaves

A path leads to a place through directories that are there.  So a file that is put in this place
makes no new directory: the path leads there as before, reading gives what was written, and at every
other place all is as it was.

* `FileTree.Grounded`         all that a place lies in is there;
* `FileTree.grounded_locate`  so it is for the place that a path leads to;
* `FileTree.node_put_of_ne`, `FileTree.locate_put`   a put file leaves the other places and the way;
* `FileTree.Takes`, `FileTree.takes_of_write`        what a write leaves.
-/

namespace Citations
namespace FileTree

variable {t : FileTree} {place q : Place} {bytes : List UInt8}

/-! ## places with ground -/

/-- All that the place lies in is there. -/
def Grounded (t : FileTree) (place : Place) : Prop :=
  ∀ r, r <+: place → r ≠ place → t.node r ≠ .nothing

theorem node_ne_nothing {r : Place} (h : r <+: t.home) : t.node r ≠ .nothing := by
  have hstarts : r.isPrefixOf t.home = true := List.isPrefixOf_iff_prefix.mpr h
  unfold node
  split
  · exact nofun
  · split
    · exact nofun
    · rw [hstarts, Bool.true_or, Bool.true_or, if_pos rfl]
      exact nofun

theorem grounded_home (t : FileTree) : t.Grounded t.home := fun _ hr _ => node_ne_nothing hr

theorem grounded_nil (t : FileTree) : t.Grounded [] := by
  intro r hr hne
  exact absurd (List.prefix_nil.mp hr) hne

theorem Grounded.dropLast (h : t.Grounded place) : t.Grounded place.dropLast := by
  intro r hr hne
  refine h r (hr.trans (List.dropLast_prefix place)) ?_
  rintro rfl
  exact hne (hr.eq_of_length_le (List.dropLast_prefix r).length_le)

theorem Grounded.concat (h : t.Grounded place) (hn : t.node place = .directory) (p : Text) :
    t.Grounded (place ++ [p]) := by
  intro r hr hne
  have hr := (List.prefix_concat_iff.mp hr).resolve_left hne
  by_cases heq : r = place
  · rw [heq, hn]
    exact nofun
  · exact h r hr heq

theorem grounded_follow {ps : List Text} (h : t.Grounded place) (hf : t.follow place ps = .ok q) :
    t.Grounded q := by
  induction ps generalizing place with
  | nil =>
    obtain rfl := Except.ok.inj hf
    exact h
  | cons p ps ih =>
    rw [follow] at hf
    cases hn : t.node place with
    | directory =>
      rw [hn] at hf
      dsimp only at hf
      split at hf
      · exact ih h.dropLast hf
      · split at hf
        · cases hf
        · exact ih (h.concat hn p) hf
    | nothing | file | device =>
      rw [hn] at hf
      cases hf

theorem grounded_locate {p : Path} (h : t.locate p = .ok place) : t.Grounded place := by
  unfold locate at h
  split at h
  · cases h
  · refine grounded_follow ?_ h
    split
    · exact t.grounded_home
    · exact t.grounded_nil

/-! ## what stays -/

section
variable {other : Place}

theorem find?_put (h : other ≠ place) :
    (t.put place bytes).files.find? (fun f => f.1 == other) =
      t.files.find? (fun f => f.1 == other) := by
  have hlast : [(place, bytes)].find? (fun f => f.1 == other) = none := by
    simpa using Ne.symm h
  show (t.files.filter (·.1 != place) ++ [(place, bytes)]).find? _ = _
  rw [List.find?_append, hlast, Option.or_none, List.find?_filter]
  congr 1
  funext f
  by_cases hf : f.1 = other
  · simp [hf, h]
  · simp [hf]

/-- What lies in a place is what lay there, and the put file. -/
theorem any_put (t : FileTree) (place other : Place) (bytes : List UInt8) :
    (t.put place bytes).files.any (fun f => other.isPrefixOf f.1) =
      (t.files.any (fun f => other.isPrefixOf f.1) || other.isPrefixOf place) := by
  rw [Bool.eq_iff_iff, Bool.or_eq_true, List.any_eq_true, List.any_eq_true]
  constructor
  · rintro ⟨f, hf, hp⟩
    rcases List.mem_append.mp hf with hf | hf
    · exact Or.inl ⟨f, (List.mem_filter.mp hf).1, hp⟩
    · obtain rfl := List.mem_singleton.mp hf
      exact Or.inr hp
  · rintro (⟨f, hf, hp⟩ | hp)
    · by_cases hplace : f.1 = place
      · exact ⟨(place, bytes), List.mem_append_right _ (List.mem_singleton_self _), hplace ▸ hp⟩
      · exact ⟨f, List.mem_append_left _ (List.mem_filter.mpr ⟨hf, bne_iff_ne.mpr hplace⟩), hp⟩
    · exact ⟨(place, bytes), List.mem_append_right _ (List.mem_singleton_self _), hp⟩

/-- No other place holds anything else than before; what the file lies in was there already. -/
theorem node_put_of_ne (hg : t.Grounded place) (h : other ≠ place) :
    (t.put place bytes).node other = t.node other := by
  unfold node
  rw [find?_put h, any_put]
  cases hfile : t.files.find? (fun f => f.1 == other) with
  | some f => rfl
  | none =>
    cases hdevice : devices.find? (fun d => d.1 == other) with
    | some d => rfl
    | none =>
      show (if _ || _ || (_ || _) then _ else _) = _
      cases hp : other.isPrefixOf place with
      | false =>
        rw [Bool.or_false]
        rfl
      | true =>
        have hthere := hg other (List.isPrefixOf_iff_prefix.mp hp) h
        unfold node at hthere
        rw [hfile, hdevice] at hthere
        dsimp only at hthere ⊢
        rw [Bool.or_true, Bool.or_true, if_pos rfl]
        split at hthere
        · next hdirectory => rw [if_pos hdirectory]
        · exact absurd rfl hthere

end

/-- The names still lead to the place; no directory on the way is the place itself. -/
theorem follow_put {ps : List Text} {start : Place} (hg : t.Grounded place)
    (hn : t.node place ≠ .directory) (h : t.follow start ps = .ok place) :
    (t.put place bytes).follow start ps = .ok place := by
  induction ps generalizing start with
  | nil => exact h
  | cons p ps ih =>
    rw [follow] at h ⊢
    cases hs : t.node start with
    | directory =>
      have hne : start ≠ place := fun e => hn (e ▸ hs)
      rw [node_put_of_ne hg hne, hs]
      rw [hs] at h
      dsimp only at h ⊢
      split at h
      · next hup => rw [if_pos hup, ih h]
      · next hup =>
        rw [if_neg hup]
        split at h
        · cases h
        · next hlong => rw [if_neg hlong, ih h]
    | nothing | file | device =>
      rw [hs] at h
      cases h

theorem locate_put {p : Path} (h : t.locate p = .ok place) (hn : t.node place ≠ .directory) :
    (t.put place bytes).locate p = .ok place := by
  have hg := grounded_locate h
  unfold locate at h ⊢
  split at h
  · cases h
  · next hlong =>
    rw [if_neg hlong]
    exact follow_put hg hn h

/-! ## what a write leaves -/

/-- `t'` is `t` with the bytes in the file that the path leads to, and nothing else has changed.  What
the null device takes is gone. -/
def Takes (t : FileTree) (p : Path) (bytes : List UInt8) (t' : FileTree) : Prop :=
  ∃ place, t.locate p = .ok place ∧
    (t.node place = .device .null ∧ t' = t ∨
      t.node place ≠ .directory ∧ t'.read p = .ok bytes ∧ t'.node place = .file bytes ∧
        t'.home = t.home ∧ ∀ other, other ≠ place → t'.node other = t.node other)

theorem takes_put {p : Path} (h : t.locate p = .ok place) (hn : t.node place ≠ .directory) :
    t.Takes p bytes (t.put place bytes) := by
  have hnode := t.node_put_self place bytes
  refine ⟨place, h, Or.inr ⟨hn, ?_, hnode, rfl, fun _ => node_put_of_ne (grounded_locate h)⟩⟩
  rw [read, locate_put h hn]
  dsimp only
  rw [hnode]

theorem takes_of_write {p : Path} {t' : FileTree} (h : t.write p bytes = .ok t')
    (hbytes : bytes ≠ []) : t.Takes p bytes t' := by
  unfold write at h
  cases hp : t.locate p with
  | error e =>
    rw [hp] at h
    cases h
  | ok place =>
    rw [hp] at h
    dsimp only at h
    cases hn : t.node place with
    | directory =>
      rw [hn] at h
      cases h
    | device d =>
      rw [hn] at h
      cases d with
      | null =>
        obtain rfl := Except.ok.inj h
        exact ⟨place, hp, Or.inl ⟨hn, rfl⟩⟩
      | full =>
        dsimp only at h
        rw [if_neg hbytes] at h
        cases h
    | file | nothing =>
      rw [hn] at h
      obtain rfl := Except.ok.inj h
      exact takes_put hp (by rw [hn]; exact nofun)

end FileTree
end Citations
