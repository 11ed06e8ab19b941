import Citations.Proofs.Passes
import Citations.Proofs.Placeholders
import Citations.Render.Citation
import Citations.Results

/-!
# Where things lie

A placeholder that reaches a function of the key shows where the key lies, and that is no part of
what a citation is made from.  Only such a placeholder depends on it: indices pick characters of a
text, and a text is shown without its place.

* `fill_eq_of_no_point`      a placeholder without a point reaches nothing but texts;
* `Options.Unplaced o`       what the options show for a key is the same wherever things lie;
* `Render.pass_eq_of_unplaced`   then so is what a pass makes of a text.
-/

namespace Citations

/-! ## placeholders -/

namespace Placeholder

section
variable (m m' : Memory) {t : Text}

theorem item_text (t : Text) : Thing.item m (.text t) = Thing.item m' (.text t) := by
  funext name number
  cases number <;> rfl

theorem exists_text_of_item {name : Text} {number : Option Nat} {x : Thing}
    (h : Thing.item m (.text t) name number = .ok x) : ∃ u, x = .text u := by
  cases number with
  | none => cases h
  | some i =>
    simp only [Thing.item] at h
    split at h
    · next c _ =>
      cases h
      exact ⟨[c], rfl⟩
    · cases h

theorem access_text {c : Char} (hc : c ≠ '.') (t r : Text) :
    access m (.text t) c r = access m' (.text t) c r := by
  unfold access
  rw [if_neg hc, if_neg hc, item_text m m' t]

theorem exists_text_of_access {c : Char} (hc : c ≠ '.') {r r' : Text} {x : Thing}
    (h : access m (.text t) c r = .ok (x, r')) : ∃ u, x = .text u := by
  unfold access at h
  rw [if_neg hc] at h
  split at h
  · split at h
    · cases h
    · obtain ⟨n, _, h⟩ := bind_eq_ok.mp h
      split at h
      · cases h
      · obtain ⟨y, hy, h⟩ := bind_eq_ok.mp h
        cases h
        exact exists_text_of_item m hy
  · cases h

theorem accesses_cons (x : Thing) (c : Char) (r : Text) :
    accesses m x (c :: r) = (do
      let (y, r') ← access m x c r
      accesses m y r') := by
  rw [accesses]
  split
  · next h => rw [h]; rfl
  · next h => rw [h]; rfl

/-- Without a point texts are reached, by induction on what is left of the accesses. -/
theorem accesses_text {rest : Text} (h : '.' ∉ rest) (t : Text) :
    accesses m (.text t) rest = accesses m' (.text t) rest ∧
      ∀ x, accesses m (.text t) rest = .ok x → ∃ u, x = .text u := by
  induction hl : rest.length using Nat.strongRecOn generalizing rest t with
  | ind n ih =>
    cases rest with
    | nil =>
      rw [accesses, accesses]
      exact ⟨rfl, fun x hx => ⟨t, (Except.ok.inj hx).symm⟩⟩
    | cons c r =>
      rw [List.mem_cons, not_or] at h
      rw [accesses_cons, accesses_cons, ← access_text m m' (Ne.symm h.1)]
      have hrest : ∀ y r', access m (.text t) c r = .ok (y, r') →
          accesses m y r' = accesses m' y r' ∧
            ∀ x, accesses m y r' = .ok x → ∃ u, x = .text u := by
        intro y r' ha
        obtain ⟨u, rfl⟩ := exists_text_of_access m (Ne.symm h.1) ha
        have hsuffix := suffix_of_access m ha
        have hlt : r'.length < n := hl ▸ Nat.lt_succ_of_le hsuffix.length_le
        exact ih _ hlt (fun hm => h.2 (hsuffix.subset hm)) u rfl
      refine ⟨bind_congr_ok fun a ha => (hrest _ _ ha).1, fun x hx => ?_⟩
      obtain ⟨a, ha, hx⟩ := bind_eq_ok.mp hx
      exact (hrest _ _ ha).2 x hx

theorem subject_text {name : Text} (h : '.' ∉ name) (key : Text) :
    subject m key name = subject m' key name ∧
      ∀ x, subject m key name = .ok x → ∃ u, x = .text u := by
  have hrest : '.' ∉ name.dropWhile inName := fun hm => h ((List.dropWhile_suffix _).subset hm)
  unfold subject
  dsimp only
  rw [(accesses_text m m' hrest key).1]
  refine ⟨rfl, fun x hx => ?_⟩
  obtain ⟨n, _, hx⟩ := bind_eq_ok.mp hx
  cases n with
  | some n => cases hx
  | none =>
    dsimp only at hx
    split at hx
    · cases hx
    · split at hx
      · cases hx
      · exact (accesses_text m' m hrest key).2 x hx

theorem convert_text (t : Text) (c : Option Char) :
    convert m (.text t) c = convert m' (.text t) c ∧
      ∀ x, convert m (.text t) c = .ok x → ∃ u, x = .text u := by
  unfold convert
  split
  · exact ⟨rfl, fun x hx => ⟨t, (Except.ok.inj hx).symm⟩⟩
  · exact ⟨rfl, fun x hx => ⟨_, (Except.ok.inj hx).symm⟩⟩
  · exact ⟨rfl, fun x hx => ⟨_, (Except.ok.inj hx).symm⟩⟩
  · exact ⟨rfl, fun x hx => ⟨_, (Except.ok.inj hx).symm⟩⟩
  · exact ⟨rfl, nofun⟩

theorem laidOut_text (layout t : Text) :
    laidOut m layout (.text t) = laidOut m' layout (.text t) := rfl

/-- By induction on what is left of the placeholder. -/
theorem fillWith_eq_of_no_point {inner inner' : Text → Except PlaceholderError Text}
    (hinner : ∀ p, '.' ∉ p → inner p = inner' p) (key : Text) {pattern : Text}
    (h : '.' ∉ pattern) : fillWith m inner key pattern = fillWith m' inner' key pattern := by
  induction hl : pattern.length using Nat.strongRecOn generalizing pattern with
  | ind n ih =>
    cases hlit : literal pattern with
    | error e => rw [fillWith_error hlit, fillWith_error hlit]
    | ok a =>
      obtain ⟨before, _ | r⟩ := a
      · rw [fillWith_end hlit, fillWith_end hlit]
      · cases hfield : field r with
        | error e => rw [fillWith_field_error hlit hfield, fillWith_field_error hlit hfield]
        | ok b =>
          obtain ⟨f, r'⟩ := b
          obtain ⟨p, rfl⟩ := eq_of_literal hlit
          obtain ⟨q, rfl⟩ := eq_of_field hfield
          simp only [List.mem_append, List.mem_cons, not_or] at h
          obtain ⟨-, -, ⟨⟨hname, -⟩, hlayout⟩, -, hrest⟩ := h
          have hlt : r'.length < n := by
            simp only [List.length_append, List.length_cons] at hl
            omega
          rw [fillWith_field hlit hfield, fillWith_field hlit hfield,
            ← (subject_text m m' hname key).1, hinner _ hlayout, ih _ hlt hrest rfl]
          refine bind_congr_ok fun x hx => ?_
          obtain ⟨u, rfl⟩ := (subject_text m m' hname key).2 x hx
          rw [← (convert_text m m' u f.conversion).1]
          refine bind_congr_ok fun y hy => ?_
          obtain ⟨v, rfl⟩ := (convert_text m m' u f.conversion).2 y hy
          simp only [laidOut_text m m']

theorem fill_eq_of_no_point {pattern : Text} (h : '.' ∉ pattern) (key : Text) :
    fill m pattern key = fill m' pattern key :=
  fillWith_eq_of_no_point m m' (fun _ hp => fillWith_eq_of_no_point m m' (fun _ _ => rfl) key hp)
    key h

end

end Placeholder

namespace Options
variable {o : Options}

/-- What the options show for a key is the same wherever things lie. -/
def Unplaced (o : Options) : Prop :=
  o.debug = true → ∀ key, key ≠ [] → (∀ e ∈ key, Text.isKeyChar e = true) →
    ∀ m m', Placeholder.fill m o.placeholder key = Placeholder.fill m' o.placeholder key

theorem unplaced_of_no_point (h : '.' ∉ o.placeholder) : o.Unplaced :=
  fun _ key _ _ m m' => Placeholder.fill_eq_of_no_point m m' h key

/-- A method of the key is shown with its place. -/
example : ¬ ({ debug := true, placeholder := "\x7bkey.upper\x7d".toList } : Options).Unplaced := by
  intro h
  have hkey : ∀ e ∈ ['a'], Text.isKeyChar e = true := List.forall_mem_singleton.mpr (by decide)
  have hshown := h rfl ['a'] (List.cons_ne_nil 'a' []) hkey (fun _ => 1) (fun _ => 2)
  have hne : (Placeholder.fill (fun _ => 1) "\x7bkey.upper\x7d".toList ['a']).toOption ≠
      (Placeholder.fill (fun _ => 2) "\x7bkey.upper\x7d".toList ['a']).toOption := by
    decide +kernel
  exact hne (congrArg Except.toOption hshown)

end Options

/-! ## passes -/

namespace Render
open Template
variable (c c' : Context)

/-- Data and options are all that a leaf reads otherwise. -/
theorem expand_eq_of_unplaced (ho : c.options.Unplaced) (hdata : c.data = c'.data)
    (hoptions : c.options = c'.options) : expand c = expand c' := by
  have hnote : ∀ n, (noteIf c n : Noted PlaceholderError Unit) = noteIf c' n := by
    intro n
    rw [noteIf, noteIf, hoptions]
  have hresolve : ∀ key, c.resolve key = c'.resolve key := by
    intro key
    rw [Context.resolve, Context.resolve, hdata, hoptions]
  funext segment
  unfold expand
  rw [hnote]
  cases hk : firstToken? segment with
  | none => rfl
  | some k =>
    dsimp only
    rw [hresolve, hnote, ← hoptions]
    cases hd : c.options.debug with
    | false => simp only [Bool.false_eq_true, if_false]
    | true =>
      have hcut := firstToken?_spec hk
      rw [ho hd k.key hcut.key_ne_nil hcut.key_chars c.memory c'.memory]

theorem pass_eq_of_unplaced (ho : c.options.Unplaced) (hdata : c.data = c'.data)
    (hoptions : c.options = c'.options) : pass c = pass c' := by
  funext t
  rw [pass, pass, expand_eq_of_unplaced c c' ho hdata hoptions]

end Render
end Citations
