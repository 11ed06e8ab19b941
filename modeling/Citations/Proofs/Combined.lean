import Citations.Render.Resolve

/-!
# Combined keys

A key with a `+` in it stands for the texts of its members, with the separator between them.  It does
not matter how a key is put together: two keys with a `+` between them stand for what the first and
what the second stand for, be they combined keys themselves or not.

* `isMissing data key`   the data have nothing to show at a key;
* `members_plus`         the members of two keys put together;
* `resolve_eq_joined`    combined or not, a key stands for the texts of its members;
* `beside sep s t`       two texts, and a separator only where both are there;
* `resolve_composes`     what two keys put together stand for, and when that is nothing.
-/

namespace Citations

/-! ## values that are shown -/

theorem Text.ofInt_ne_nil (i : Int) : Text.ofInt i ≠ [] := by
  unfold Text.ofInt Text.ofNat
  split
  · exact List.cons_ne_nil _ _
  · exact Nat.toDigits_ne_nil

namespace Number.Digits

theorem positional_ne_nil (d : Digits) : d.positional ≠ [] :=
  List.append_ne_nil_of_right_ne_nil _ (List.cons_ne_nil _ _)

theorem scientific_ne_nil (d : Digits) : d.scientific ≠ [] :=
  List.append_ne_nil_of_right_ne_nil _ (List.cons_ne_nil _ _)

end Number.Digits

theorem Binary64.text_ne_nil (x : Binary64) : x.text ≠ [] := by
  have hfinite : ∀ m e, finiteText m e ≠ [] := by
    intro m e
    unfold finiteText
    split
    · exact List.cons_ne_nil _ _
    · dsimp only
      split
      · exact Number.Digits.positional_ne_nil _
      · exact Number.Digits.scientific_ne_nil _
  cases x with
  | nan => exact List.cons_ne_nil _ _
  | infinite s => exact List.append_ne_nil_of_right_ne_nil _ (List.cons_ne_nil _ _)
  | finite s m e => exact List.append_ne_nil_of_right_ne_nil _ (hfinite m e)

/-- A value that does not leave its fragment out is never shown as the empty text. -/
theorem Value.display_ne_nil {v : Value} (h : v.isEmpty = false) : v.display ≠ [] := by
  cases v with
  | null => cases h
  | bool b =>
    cases b with
    | false => cases h
    | true => exact List.cons_ne_nil _ _
  | int i => exact Text.ofInt_ne_nil i.val
  | float x => exact x.text_ne_nil
  | text t =>
    rintro rfl
    cases h
  | unpaired ps =>
    intro hnil
    obtain rfl := List.map_eq_nil_iff.mp hnil
    cases h
  | bytes bs => exact List.cons_ne_nil _ _
  | list vs => exact List.cons_ne_nil _ _
  | tuple vs =>
    show tupleText _ ≠ []
    unfold tupleText
    split <;> exact List.cons_ne_nil _ _
  | dict es => exact List.cons_ne_nil _ _

namespace Render

/-- Whether the data have nothing to show at a key: no value, or one that leaves its fragment out. -/
def isMissing (data : Entries) (key : Text) : Bool := (data.get? key).all Value.isEmpty

theorem lookup_eq_nil_iff {data : Entries} {key : Text} :
    lookup data key = [] ↔ isMissing data key = true := by
  unfold lookup isMissing
  cases data.get? key with
  | none => exact iff_of_true rfl rfl
  | some v =>
    show (if v.isEmpty = true then [] else v.display) = [] ↔ v.isEmpty = true
    cases hv : v.isEmpty with
    | true => exact iff_of_true rfl rfl
    | false => exact iff_of_false (Value.display_ne_nil hv) Bool.false_ne_true

/-! ## members -/

theorem members_of_not_mem {key : Text} (hne : key ≠ []) (h : '+' ∉ key) : members key = [key] := by
  rw [members, Text.splitAt_of_not_mem h]
  simp [hne]

theorem members_plus (a b : Text) : members (a ++ '+' :: b) = members a ++ members b := by
  rw [members, Text.splitAt_append, List.filter_append]
  rfl

section
variable (data : Entries)

theorem memberTexts_plus (a b : Text) :
    memberTexts data (a ++ '+' :: b) = memberTexts data a ++ memberTexts data b := by
  rw [memberTexts, members_plus, List.map_append, List.filter_append]
  rfl

theorem ne_nil_of_mem_memberTexts {key : Text} : ∀ p ∈ memberTexts data key, p ≠ [] := by
  intro p hp
  simpa using (List.mem_filter.mp hp).2

/-- The members that the data have something for, in the order of the key. -/
theorem memberTexts_eq (key : Text) :
    memberTexts data key = ((members key).filter fun m => !isMissing data m).map (lookup data) := by
  have hkeep : ∀ m, decide (lookup data m ≠ []) = !isMissing data m := by
    intro m
    rw [decide_not, Bool.not_inj_iff, Bool.eq_iff_iff, decide_eq_true_iff]
    exact lookup_eq_nil_iff
  rw [memberTexts, List.filter_map]
  congr 2
  exact funext hkeep

variable (separator : Text)

/-- A key that is not combined is its only member. -/
theorem resolve_eq_joined {key : Text} (hne : key ≠ []) :
    resolve data separator key = Text.joined separator (memberTexts data key) := by
  unfold resolve
  split
  · rfl
  · next hplus =>
    rw [memberTexts, members_of_not_mem hne hplus]
    by_cases hv : lookup data key = []
    · simp [hv, Text.joined]
    · simp [hv, Text.joined]

theorem resolve_eq_nil_iff {key : Text} (hne : key ≠ []) :
    resolve data separator key = [] ↔ ∀ m ∈ members key, isMissing data m = true := by
  rw [resolve_eq_joined data separator hne,
    Text.joined_eq_nil_iff separator (ne_nil_of_mem_memberTexts data), memberTexts_eq,
    List.map_eq_nil_iff, List.filter_eq_nil_iff]
  simp

end

/-! ## two keys -/

/-- Two texts with a separator between them; where one is empty, the other alone. -/
def beside (separator s t : Text) : Text :=
  if s = [] then t else if t = [] then s else s ++ separator ++ t

theorem joined_beside (separator : Text) {ps qs : List Text} (hp : ∀ p ∈ ps, p ≠ [])
    (hq : ∀ q ∈ qs, q ≠ []) :
    Text.joined separator (ps ++ qs) =
      beside separator (Text.joined separator ps) (Text.joined separator qs) := by
  unfold beside
  simp only [Text.joined_eq_nil_iff separator hp, Text.joined_eq_nil_iff separator hq]
  split
  · next hps => rw [hps, List.nil_append]
  · next hps =>
    split
    · next hqs => rw [hqs, List.append_nil]
    · next hqs => exact Text.joined_append separator hps hqs

/-- Two keys with a `+` between them stand for what they stand for alone, with the separator between
the two texts where neither is empty.  So a combined key stands for nothing exactly if the data have
nothing to show at any of its members; otherwise it stands for the texts of those that they have
something for, in the order of the key, with one separator between neighbours and none besides. -/
theorem resolve_composes (data : Entries) (separator : Text) :
    (∀ a b : Text, a ≠ [] → b ≠ [] →
      resolve data separator (a ++ '+' :: b) =
        beside separator (resolve data separator a) (resolve data separator b)) ∧
    ∀ key : Text, '+' ∈ key →
      (resolve data separator key = [] ↔ ∀ m ∈ members key, isMissing data m = true) ∧
      resolve data separator key =
        Text.joined separator
          (((members key).filter fun m => !isMissing data m).map (lookup data)) := by
  refine ⟨fun a b ha hb => ?_, fun key hplus => ?_⟩
  · rw [resolve_eq_joined data separator ha, resolve_eq_joined data separator hb,
      ← joined_beside separator (ne_nil_of_mem_memberTexts data) (ne_nil_of_mem_memberTexts data),
      ← memberTexts_plus]
    exact resolve_eq_joined data separator (List.append_ne_nil_of_left_ne_nil ha _)
  · have hne : key ≠ [] := List.ne_nil_of_mem hplus
    refine ⟨resolve_eq_nil_iff data separator hne, ?_⟩
    rw [resolve_eq_joined data separator hne, memberTexts_eq]

/-- A leading and a repeated `+`, a value that leaves its fragment out, and no separator at all. -/
theorem resolve_composes_missing :
    let data : Entries :=
      [(.text ['x'], .text ['X']), (.text ['y'], .bool false), (.text ['z'], .text ['Z'])]
    resolve data [] "+x++y+z".toList = "XZ".toList ∧ resolve data [] "y+w".toList = [] := by
  intro data
  obtain ⟨hparts, hkeys⟩ := resolve_composes data []
  have hxyz := hparts "+x+".toList "y+z".toList (by decide) (by decide)
  exact ⟨hxyz.trans (by decide), (hkeys "y+w".toList (by decide)).1.mpr (by decide)⟩

end Render
end Citations
