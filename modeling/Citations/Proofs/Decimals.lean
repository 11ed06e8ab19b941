import Mathlib.Data.List.TakeWhile
import Citations.Json.Reader

/-!
# Written numbers

A whole number is written without a zero in front.  So is a binary number, with a point or a power of
ten or both behind its whole part: its shortest digits start with no zero, whether they are found on
a grid or are as many as there can be.  Both are read back from any text that they stand in front of.

* `Text.IsPositive ds`     digits of which the first is no zero;
* `Text.natOfDigits_ofNat` a numeral is read as its number;
* `Binary64.isPositive_shortest`   the shortest digits of a number that is not zero;
* `Decimal`, `Decimal.WellFormed`   the parts of a written number;
* `exists_decimal`         every finite number is written in such parts;
* `Decimal.number_text`, `Decimal.number_ofInt`   binary and whole numbers read back by a JSON reader;
* `Decimal.ofText?_text`   a binary number read back from a text of its own.
-/

namespace Citations

/-! ## whole numbers -/

namespace Text

/-- Digits of which the first is no zero. -/
structure IsPositive (ds : Text) : Prop where
  ne_nil : ds ≠ []
  digits : ∀ c ∈ ds, c.isDigit = true
  head : ds.head? ≠ some '0'

theorem natOfDigits_ofNat (n : Nat) : natOfDigits (ofNat n) = n := Nat.ofDigitChars_ten_toDigits

theorem ofNat_ne_nil (n : Nat) : ofNat n ≠ [] := Nat.toDigits_ne_nil

theorem isDigit_of_mem_ofNat {n : Nat} : ∀ c ∈ ofNat n, c.isDigit = true :=
  fun _ h => Nat.isDigit_of_mem_toDigits (by decide) (by decide) h

theorem exists_length_ofNat (n : Nat) : ∃ k, (ofNat n).length = k + 1 :=
  Nat.exists_eq_succ_of_ne_zero (Nat.ne_of_gt (List.length_pos_iff.mpr (ofNat_ne_nil n)))

theorem length_ofNat_le_iff {n k : Nat} (hk : 0 < k) : (ofNat n).length ≤ k ↔ n < Number.tenTo k :=
  Nat.length_toDigits_le_iff (by decide) hk

theorem head?_ofNat {n : Nat} (h : n ≠ 0) : (ofNat n).head? ≠ some '0' := by
  induction n using Nat.strongRecOn with
  | ind n ih =>
    unfold ofNat
    rw [Nat.toDigits_eq_if (by decide)]
    split
    · intro heq
      exact h (Nat.digitChar_eq_zero.mp (Option.some.inj heq))
    · have hfront := ih (n / 10) (by omega) (by omega)
      obtain ⟨d, r, hds⟩ := List.exists_cons_of_ne_nil (ofNat_ne_nil (n / 10))
      rw [hds] at hfront
      rw [show Nat.toDigits 10 (n / 10) = d :: r from hds]
      exact hfront

theorem isPositive_ofNat {n : Nat} (h : n ≠ 0) : IsPositive (ofNat n) :=
  ⟨ofNat_ne_nil n, isDigit_of_mem_ofNat, head?_ofNat h⟩

theorem IsPositive.exists_cons {ds : Text} (h : IsPositive ds) :
    ∃ d r, ds = d :: r ∧ d ≠ '0' ∧ d.isDigit = true ∧ ∀ c ∈ r, c.isDigit = true := by
  obtain ⟨d, r, rfl⟩ := List.exists_cons_of_ne_nil h.ne_nil
  obtain ⟨hd, hr⟩ := List.forall_mem_cons.mp h.digits
  exact ⟨d, r, rfl, fun heq => h.head (congrArg some heq), hd, hr⟩

theorem IsPositive.of_isPrefix {ds es : Text} (h : IsPositive ds) (hne : es ≠ []) (hp : es <+: ds) :
    IsPositive es := by
  obtain ⟨r, rfl⟩ := hp
  obtain ⟨d, es, rfl⟩ := List.exists_cons_of_ne_nil hne
  exact ⟨hne, fun c hc => h.digits c (List.mem_append_left r hc), h.head⟩

end Text

/-! ## the digits of a binary number -/

namespace Number
open Text

theorem dropZeros_isPrefix (ds : Text) : dropZeros ds <+: ds := by
  have h := List.reverse_prefix.mpr (List.dropWhile_suffix (· == '0') (l := ds.reverse))
  rwa [List.reverse_reverse] at h

/-- Digits lose only zeros at their end. -/
theorem isPositive_dropZeros {ds : Text} (h : IsPositive ds) : IsPositive (dropZeros ds) := by
  refine h.of_isPrefix (fun hnil => ?_) (dropZeros_isPrefix ds)
  obtain ⟨d, r, rfl, hd, _⟩ := h.exists_cons
  have hall := List.dropWhile_eq_nil_iff.mp (List.reverse_eq_nil_iff.mp hnil)
  have hzero := hall d (List.mem_reverse.mpr List.mem_cons_self)
  exact hd (beq_iff_eq.mp hzero)

theorem tenTo_le_tenTo {j k : Nat} (h : j ≤ k) : tenTo j ≤ tenTo k :=
  Nat.pow_le_pow_right (by decide) h

/-- A positive quotient has at least as many digits before the point as `pointOf` says. -/
theorem pointOf_spec {num den : Nat} (hnum : 0 < num) (hden : 0 < den) :
    (∃ k, pointOf num den = (k + 1 : Nat) ∧ den * tenTo k ≤ num) ∨
    ∃ k : Nat, pointOf num den = -k ∧ den ≤ num * tenTo (k + 1) := by
  unfold pointOf
  split
  · next hle =>
    have hq : 0 < num / den := Nat.div_pos hle hden
    obtain ⟨k, hk⟩ := exists_length_ofNat (num / den)
    refine Or.inl ⟨k, by rw [hk], ?_⟩
    have hpow : tenTo k ≤ num / den := by
      rcases Nat.eq_zero_or_pos k with rfl | hpos
      · exact hq
      · exact Nat.not_lt.mp fun hlt => by
          have := (length_ofNat_le_iff hpos).mpr hlt
          omega
    calc den * tenTo k ≤ den * (num / den) := Nat.mul_le_mul_left den hpow
      _ ≤ num := Nat.mul_div_le num den
  · next hlt =>
    obtain ⟨k, hk⟩ := exists_length_ofNat ((den + num - 1) / num - 1)
    refine Or.inr ⟨k, by rw [hk]; omega, ?_⟩
    have hceil : (den + num - 1) / num - 1 < tenTo (k + 1) :=
      (length_ofNat_le_iff (Nat.succ_pos k)).mp (Nat.le_of_eq hk)
    have hup : den ≤ num * ((den + num - 1) / num) := by
      have hdiv := Nat.div_add_mod (den + num - 1) num
      have hmod := Nat.mod_lt (den + num - 1) hnum
      omega
    exact Nat.le_trans hup (Nat.mul_le_mul_left num (by omega))

/-- With `n` digits before the point a positive quotient is at least one. -/
theorem shifted_point_le {num den : Nat} (hnum : 0 < num) (hden : 0 < den) {n : Nat} (hn : 0 < n) :
    (shifted num den (n - pointOf num den)).2 ≤ (shifted num den (n - pointOf num den)).1 := by
  unfold shifted
  rcases pointOf_spec hnum hden with ⟨k, hp, hk⟩ | ⟨k, hp, hk⟩
  · rw [hp]
    split
    · next hneg =>
      have hle : ((n : Int) - (k + 1 : Nat)).natAbs ≤ k := by omega
      exact Nat.le_trans (Nat.mul_le_mul_left den (tenTo_le_tenTo hle)) hk
    · have hden : den ≤ num := Nat.le_trans (Nat.le_mul_of_pos_right den (tenTo_pos k)) hk
      exact Nat.le_trans hden (Nat.le_mul_of_pos_right num (tenTo_pos _))
  · rw [hp, if_neg (by omega)]
    have hle : k + 1 ≤ ((n : Int) - -(k : Int)).natAbs := by omega
    exact Nat.le_trans hk (Nat.mul_le_mul_left num (tenTo_le_tenTo hle))

theorem shifted_snd_pos (num : Nat) {den : Nat} (hden : 0 < den) (k : Int) :
    0 < (shifted num den k).2 := by
  unfold shifted
  split
  · exact Nat.mul_pos hden (tenTo_pos _)
  · exact hden

theorem roundDiv_pos {a b : Nat} (hb : 0 < b) (h : b ≤ a) : 0 < roundDiv a b := by
  have hq : 0 < a / b := Nat.div_pos h hb
  unfold roundDiv
  dsimp only
  split
  · exact hq
  · split
    · exact Nat.succ_pos _
    · split
      · exact hq
      · exact Nat.succ_pos _

theorem isPositive_significant {num den : Nat} (hnum : 0 < num) (hden : 0 < den) {n : Nat}
    (hn : 0 < n) : IsPositive (significant n num den).digits := by
  have hround := roundDiv_pos (shifted_snd_pos num hden _) (shifted_point_le hnum hden hn)
  unfold significant
  dsimp only
  split
  · next hten =>
    -- the digits rounded up to a one and zeros
    obtain ⟨k, rfl⟩ := Nat.exists_eq_succ_of_ne_zero (Nat.ne_of_gt hn)
    rw [hten, tenTo_succ, Nat.mul_div_cancel _ (by decide)]
    exact isPositive_ofNat (Nat.ne_of_gt (tenTo_pos k))
  · exact isPositive_ofNat (Nat.ne_of_gt hround)

end Number

namespace Binary64
open Number Text

/-- No digits of zero are read as a number that is not zero. -/
theorem ne_zero_of_readsBack {m n c : Nat} {e p : Int} (hm : m ≠ 0)
    (h : readsBack m e n p c = true) : c ≠ 0 := by
  rintro rfl
  have hfst : (shifted 0 1 (p - n)).1 = 0 := by
    unfold shifted
    split
    · rfl
    · exact Nat.zero_mul _
  unfold readsBack at h
  dsimp only at h
  rw [hfst, nearest_zero] at h
  injection beq_iff_eq.mp h with _ hzero
  exact hm hzero.symm

theorem isPositive_onGrid {m n : Nat} {e p : Int} (hm : m ≠ 0) {d : Digits}
    (h : onGrid m e p n = some d) : IsPositive d.digits := by
  -- whichever neighbour is taken, it reads back
  have hpick : ∀ c, readsBack m e n p c = true → IsPositive
      (if c = tenTo n then (⟨['1'], p + 1⟩ : Digits) else ⟨dropZeros (Text.ofNat c), p⟩).digits := by
    intro c hc
    split
    · exact isPositive_ofNat (n := 1) Nat.one_ne_zero
    · exact isPositive_dropZeros (isPositive_ofNat (ne_zero_of_readsBack hm hc))
  unfold onGrid at h
  dsimp only at h
  split at h
  · next hboth =>
    obtain ⟨hlow, hhigh⟩ := Bool.and_eq_true_iff.mp hboth
    rw [← Option.some.inj h]
    apply hpick
    split
    · exact hlow
    · split
      · exact hhigh
      · split
        · exact hlow
        · exact hhigh
  · split at h
    · next hlow =>
      rw [← Option.some.inj h]
      exact hpick _ hlow
    · split at h
      · next hhigh =>
        rw [← Option.some.inj h]
        exact hpick _ hhigh
      · cases h

theorem isPositive_firstGrid {m : Nat} {e p : Int} (hm : m ≠ 0) {k n : Nat} {d : Digits}
    (h : firstGrid m e p k n = some d) : IsPositive d.digits := by
  induction k generalizing n with
  | zero => cases h
  | succ k ih =>
    rw [firstGrid] at h
    cases hgrid : onGrid m e p n with
    | none =>
      rw [hgrid] at h
      exact ih h
    | some d' =>
      rw [hgrid] at h
      cases h
      exact isPositive_onGrid hm hgrid

theorem ratio_fst_pos {m : Nat} (hm : m ≠ 0) (e : Int) : 0 < (ratio m e).1 := by
  unfold ratio
  split
  · exact Nat.pos_of_ne_zero hm
  · exact Nat.mul_pos (Nat.pos_of_ne_zero hm) (twoTo_pos _)

theorem isPositive_shortest {m : Nat} (hm : m ≠ 0) (e : Int) : IsPositive (shortest m e).digits := by
  unfold shortest
  dsimp only
  cases h : firstGrid m e (pointOf (ratio m e).1 (ratio m e).2) 17 1 with
  | none => exact isPositive_significant (ratio_fst_pos hm e) (ratio_snd_pos m e) (by decide)
  | some d => exact isPositive_firstGrid hm h

end Binary64

/-! ## the parts of a written number -/

/-- A written number: whole digits, digits behind the point, and the digits of a power of ten with
its sign, if there is one. -/
structure Decimal where
  whole : Text
  rest : Text
  power : Option (Bool × Text)

namespace Decimal
open Number Text

def fractionText (d : Decimal) : Text := if d.rest = [] then [] else '.' :: d.rest

def powerText (d : Decimal) : Text :=
  match d.power with
  | none => []
  | some (negative, ds) => 'e' :: (if negative then '-' else '+') :: ds

def text (d : Decimal) : Text := d.whole ++ (d.fractionText ++ d.powerText)

def exponent (d : Decimal) : Int :=
  match d.power with
  | none => 0
  | some (negative, ds) => if negative then -(natOfDigits ds : Int) else natOfDigits ds

/-- The number that is read. -/
def number (negative : Bool) (d : Decimal) : Binary64 :=
  .ofParts negative d.whole d.rest d.exponent

/-- Digits throughout, and the whole part is a zero or starts with none. -/
structure WellFormed (d : Decimal) : Prop where
  whole : d.whole = ['0'] ∨ IsPositive d.whole
  rest : ∀ c ∈ d.rest, c.isDigit = true
  power : ∀ negative ds, d.power = some (negative, ds) → ds ≠ [] ∧ ∀ c ∈ ds, c.isDigit = true

/-- A point, a power of ten or both follow the whole part. -/
def IsMarked (d : Decimal) : Prop := d.rest ≠ [] ∨ d.power ≠ none

theorem isPositive_take_append {ds z : Text} (h : IsPositive ds) {k : Nat} (hk : 0 < k)
    (hz : ∀ c ∈ z, c.isDigit = true) : IsPositive (ds.take k ++ z) := by
  obtain ⟨k, rfl⟩ := Nat.exists_eq_succ_of_ne_zero (Nat.ne_of_gt hk)
  obtain ⟨d, r, rfl, hd, hdigit, hr⟩ := h.exists_cons
  rw [List.take_succ_cons, List.cons_append]
  refine ⟨List.cons_ne_nil _ _, ?_, fun heq => hd (Option.some.inj heq)⟩
  rw [List.forall_mem_cons, List.forall_mem_append]
  exact ⟨hdigit, fun c hc => hr c (List.mem_of_mem_take hc), hz⟩

theorem isDigit_of_mem_zeros {n : Nat} : ∀ c ∈ List.replicate n '0', c.isDigit = true :=
  fun _ hc => List.eq_of_mem_replicate hc ▸ rfl

theorem split_wellFormed {ds : Digits} (h : IsPositive ds.digits) :
    (ds.split.1 = ['0'] ∨ IsPositive ds.split.1) ∧ ∀ c ∈ ds.split.2, c.isDigit = true := by
  unfold Digits.split
  split
  · refine ⟨.inl rfl, List.forall_mem_append.mpr ⟨isDigit_of_mem_zeros, h.digits⟩⟩
  · next hpoint =>
    have hk : 0 < ds.point.natAbs := by omega
    exact ⟨.inr (isPositive_take_append h hk isDigit_of_mem_zeros),
      fun c hc => h.digits c (List.mem_of_mem_drop hc)⟩

/-- With a point the parts are the two sides of it. -/
theorem exists_positional {ds : Digits} (h : IsPositive ds.digits) :
    ∃ d : Decimal, d.WellFormed ∧ d.IsMarked ∧ ds.positional = d.text := by
  obtain ⟨hwhole, hrest⟩ := split_wellFormed h
  by_cases hnil : ds.split.2 = []
  · refine ⟨⟨ds.split.1, ['0'], none⟩, ⟨hwhole, List.forall_mem_singleton.mpr rfl, nofun⟩,
      .inl (List.cons_ne_nil _ _), ?_⟩
    simp [Digits.positional, text, fractionText, powerText, hnil]
  · refine ⟨⟨ds.split.1, ds.split.2, none⟩, ⟨hwhole, hrest, nofun⟩, .inl hnil, ?_⟩
    simp [Digits.positional, text, fractionText, powerText, hnil]

theorem isDigit_of_mem_padded {n : Nat} {ds : Text} (h : ∀ c ∈ ds, c.isDigit = true) :
    ∀ c ∈ padded '0' n ds, c.isDigit = true :=
  List.forall_mem_append.mpr ⟨isDigit_of_mem_zeros, h⟩

theorem exists_scientific {ds : Digits} (h : IsPositive ds.digits) :
    ∃ d : Decimal, d.WellFormed ∧ d.IsMarked ∧ ds.scientific = d.text := by
  let e := ds.point - 1
  let power : Bool × Text := (decide (e < 0), padded '0' 2 (ofNat e.natAbs))
  have hpower : ∀ negative es, some power = some (negative, es) →
      es ≠ [] ∧ ∀ c ∈ es, c.isDigit = true := by
    intro _ _ heq
    rw [← (Prod.mk.inj (Option.some.inj heq)).2]
    exact ⟨List.append_ne_nil_of_right_ne_nil _ (ofNat_ne_nil _),
      isDigit_of_mem_padded isDigit_of_mem_ofNat⟩
  have hwhole : IsPositive (ds.digits.take 1) := by
    simpa using isPositive_take_append (z := []) h Nat.one_pos nofun
  refine ⟨⟨ds.digits.take 1, ds.digits.drop 1, some power⟩,
    ⟨.inr hwhole, fun c hc => h.digits c (List.mem_of_mem_drop hc), hpower⟩, .inr nofun, ?_⟩
  simp [Digits.scientific, Digits.exponent, text, fractionText, powerText, power, e]

end Decimal

/-- A finite number is written in such parts. -/
theorem exists_decimal (m : Nat) (e : Int) :
    ∃ d : Decimal, d.WellFormed ∧ d.IsMarked ∧ Binary64.finiteText m e = d.text := by
  unfold Binary64.finiteText
  split
  · exact ⟨⟨['0'], ['0'], none⟩, ⟨.inl rfl, List.forall_mem_singleton.mpr rfl, nofun⟩,
      .inl (List.cons_ne_nil _ _), rfl⟩
  · next hm =>
    have hdigits := Binary64.isPositive_shortest hm e
    dsimp only
    split
    · exact Decimal.exists_positional hdigits
    · exact Decimal.exists_scientific hdigits

/-! ## reading them -/

/-- No character of a number stands in front. -/
def NumberEnds (r : Text) : Prop := ∀ c ∈ r.head?, c.isDigit = false ∧ c ∉ ['.', 'e', 'E']

theorem numberEnds_nil : NumberEnds [] := nofun

/-- No digit stands in front. -/
def DigitsEnd (r : Text) : Prop := ∀ c ∈ r.head?, c.isDigit = false

theorem digitsEnd_cons {c : Char} {r : Text} (h : c.isDigit = false) : DigitsEnd (c :: r) := by
  rintro _ ⟨⟩
  exact h

theorem NumberEnds.digitsEnd {r : Text} (h : NumberEnds r) : DigitsEnd r := fun c hc => (h c hc).1

namespace Decimal
open Text

def signed (negative : Bool) (t : Text) : Text := (if negative then ['-'] else []) ++ t

variable {d : Decimal} {r : Text}

theorem digitsEnd_powerText (hr : NumberEnds r) : DigitsEnd (d.powerText ++ r) := by
  unfold powerText
  split
  · exact hr.digitsEnd
  · exact digitsEnd_cons rfl

theorem digitsEnd_fractionText (hr : NumberEnds r) :
    DigitsEnd (d.fractionText ++ (d.powerText ++ r)) := by
  unfold fractionText
  split
  · exact digitsEnd_powerText hr
  · exact digitsEnd_cons rfl

theorem WellFormed.exists_whole_cons (h : d.WellFormed) :
    ∃ c w, d.whole = c :: w ∧ c.isDigit = true ∧ ∀ c ∈ w, c.isDigit = true := by
  rcases h.whole with hw | hw
  · exact ⟨'0', [], hw, rfl, nofun⟩
  · obtain ⟨c, w, hcw, _, hc, hrest⟩ := hw.exists_cons
    exact ⟨c, w, hcw, hc, hrest⟩

theorem WellFormed.whole_digits (h : d.WellFormed) : ∀ c ∈ d.whole, c.isDigit = true := by
  obtain ⟨c, w, hcw, hc, hw⟩ := h.exists_whole_cons
  rw [hcw]
  exact List.forall_mem_cons.mpr ⟨hc, hw⟩

theorem ne_of_isDigit {c d : Char} (h : c.isDigit = true) (h' : d.isDigit = false) : c ≠ d :=
  fun heq => absurd (heq ▸ h) (h' ▸ Bool.false_ne_true)

theorem wholePart?_append {whole : Text} (h : whole = ['0'] ∨ IsPositive whole)
    (hr : DigitsEnd r) : Json.wholePart? (whole ++ r) = some (whole, r) := by
  rcases h with rfl | h
  · rfl
  · obtain ⟨c, w, rfl, hzero, hc, hw⟩ := h.exists_cons
    rw [List.cons_append, Json.wholePart?, if_neg hzero, if_pos hc, takeWhile_append_of_ends hw hr,
      dropWhile_append_of_ends hw hr]

theorem powerText_eq_point_cons (hr : NumberEnds r) (u : Text) : d.powerText ++ r ≠ '.' :: u := by
  unfold powerText
  split
  · rintro rfl
    exact (hr _ rfl).2 List.mem_cons_self
  · exact fun heq => absurd (List.cons.inj heq).1 (by decide)

theorem fraction?_text (h : d.WellFormed) (hr : NumberEnds r) :
    Json.fraction? (d.fractionText ++ (d.powerText ++ r)) =
      if d.rest = [] then none else some (d.rest, d.powerText ++ r) := by
  unfold fractionText
  split
  · unfold Json.fraction?
    split
    · next u heq => exact absurd heq (powerText_eq_point_cons hr u)
    · rfl
  · next hrest =>
    have hends := digitsEnd_powerText (d := d) hr
    simp only [List.cons_append, Json.fraction?, takeWhile_append_of_ends h.rest hends,
      dropWhile_append_of_ends h.rest hends, if_neg hrest]

theorem splitSign_append (negative : Bool) (ds : Text) :
    Binary64.splitSign ((if negative then '-' else '+') :: ds) = (negative, ds) := by
  cases negative <;> rfl

theorem power?_text (h : d.WellFormed) (hr : NumberEnds r) :
    Json.power? (d.powerText ++ r) = d.power.map fun _ => (d.exponent, r) := by
  unfold powerText exponent
  cases hp : d.power with
  | none =>
    cases r with
    | nil => rfl
    | cons c r =>
      have hc := (hr c rfl).2
      have hmark : ¬ (c = 'e' ∨ c = 'E') := by
        rintro (rfl | rfl) <;> exact hc (by decide)
      simp [Json.power?, hmark]
  | some p =>
    obtain ⟨negative, ds⟩ := p
    obtain ⟨hne, hds⟩ := h.power negative ds hp
    simp only [List.cons_append, Json.power?, true_or, if_true, splitSign_append,
      takeWhile_append_of_ends hds hr.digitsEnd, dropWhile_append_of_ends hds hr.digitsEnd, if_neg hne,
      Option.map_some]

theorem splitMinus_signed {u : Text} (hu : u.head? ≠ some '-') (negative : Bool) :
    Json.splitMinus (signed negative u) = (negative, u) := by
  cases negative with
  | true => rfl
  | false =>
    cases u with
    | nil => rfl
    | cons c u =>
      have hc : c ≠ '-' := fun heq => hu (congrArg some heq)
      simp [signed, Json.splitMinus, hc]

theorem WellFormed.head?_ne (h : d.WellFormed) {c : Char} (hc : c.isDigit = false) (r : Text) :
    (d.whole ++ r).head? ≠ some c := by
  obtain ⟨c', w, hw, hdigit, _⟩ := h.exists_whole_cons
  rw [hw]
  exact fun heq => ne_of_isDigit hdigit hc (Option.some.inj heq)

theorem number_text (h : d.WellFormed) (hmarked : d.IsMarked) (hr : NumberEnds r) (negative : Bool) :
    Json.number (signed negative d.text ++ r) = .ok (.float (d.number negative), r) := by
  have htext : signed negative d.text ++ r =
      signed negative (d.whole ++ (d.fractionText ++ (d.powerText ++ r))) := by
    simp only [signed, text, List.append_assoc]
  rw [htext, Json.number, splitMinus_signed (h.head?_ne rfl _)]
  dsimp only
  rw [wholePart?_append h.whole (digitsEnd_fractionText hr)]
  dsimp only
  rw [fraction?_text h hr]
  by_cases hrest : d.rest = []
  · -- a power of ten stands right behind the whole part
    obtain ⟨p, hp⟩ := Option.ne_none_iff_exists'.mp (hmarked.resolve_left (not_not_intro hrest))
    simp only [hrest, fractionText, if_true, List.nil_append, power?_text h hr, hp, Option.map_some,
      number]
  · have hpower : (d.power.map fun _ => (d.exponent, r)).getD (0, d.powerText ++ r) =
        (d.exponent, r) := by
      unfold exponent powerText
      cases d.power <;> rfl
    rw [if_neg hrest]
    dsimp only
    rw [power?_text h hr, hpower]
    rfl

/-- With no more than the whole part it is a whole number. -/
theorem number_whole {whole : Text} (h : whole = ['0'] ∨ IsPositive whole) (hr : NumberEnds r)
    {negative : Bool} {i : Whole}
    (hi : (if negative then -(natOfDigits whole : Int) else natOfDigits whole) = i.val) :
    Json.number (signed negative whole ++ r) = .ok (.int i, r) := by
  let d : Decimal := ⟨whole, [], none⟩
  have hd : d.WellFormed := ⟨h, nofun, nofun⟩
  have hfraction : Json.fraction? r = none := fraction?_text hd hr
  have hpower : Json.power? r = none := power?_text hd hr
  rw [signed, List.append_assoc, ← signed, Json.number, splitMinus_signed (hd.head?_ne rfl _)]
  dsimp only
  rw [wholePart?_append h hr.digitsEnd]
  dsimp only
  rw [hfraction]
  dsimp only
  rw [hpower]
  dsimp only
  rw [hi, Whole.ofInt?_val]

theorem ofInt_eq_signed (i : Int) : ofInt i = signed (decide (i < 0)) (ofNat i.natAbs) := by
  by_cases hi : i < 0 <;> simp [ofInt, signed, hi]

theorem number_ofInt (i : Whole) (hr : NumberEnds r) :
    Json.number (ofInt i.val ++ r) = .ok (.int i, r) := by
  have hwhole : ofNat i.val.natAbs = ['0'] ∨ IsPositive (ofNat i.val.natAbs) := by
    rcases Nat.eq_zero_or_pos i.val.natAbs with hzero | hpos
    · exact .inl (hzero ▸ ofNat_zero)
    · exact .inr (isPositive_ofNat (Nat.ne_of_gt hpos))
  rw [ofInt_eq_signed]
  refine number_whole hwhole hr ?_
  rw [natOfDigits_ofNat]
  split <;> next hi => simp only [decide_eq_true_eq] at hi; omega

theorem splitFraction_text (h : d.WellFormed) (hr : NumberEnds r) :
    Binary64.splitFraction (d.fractionText ++ (d.powerText ++ r)) = (d.rest, d.powerText ++ r) := by
  unfold fractionText
  split
  · next hrest =>
    unfold Binary64.splitFraction
    split
    · next u heq => exact absurd heq (powerText_eq_point_cons hr u)
    · rw [hrest, List.nil_append]
  · have hends := digitsEnd_powerText (d := d) hr
    rw [List.cons_append, Binary64.splitFraction, takeWhile_append_of_ends h.rest hends,
      dropWhile_append_of_ends h.rest hends]

theorem power?_powerText (h : d.WellFormed) : Binary64.power? d.powerText = some d.exponent := by
  unfold powerText exponent
  cases hp : d.power with
  | none => rfl
  | some p =>
    obtain ⟨negative, ds⟩ := p
    obtain ⟨hne, hds⟩ := h.power negative ds hp
    have hall : ds.all Char.isDigit = true := List.all_eq_true.mpr hds
    simp only [Binary64.power?, true_or, if_true, splitSign_append, hne, hall, ne_eq,
      not_false_eq_true, and_self]

theorem toLower_of_isDigit {c : Char} (h : c.isDigit = true) : c.toLower = c := by
  have hnine : c.val ≤ '9'.val := of_decide_eq_true (Bool.and_eq_true_iff.mp h).2
  exact dif_neg fun hupper => absurd (UInt32.le_trans hupper.1 hnine) (by decide)

theorem ofText?_text (h : d.WellFormed) (negative : Bool) :
    Binary64.ofText? (signed negative d.text) = some (d.number negative) := by
  obtain ⟨c, w, hw, hc, _⟩ := h.exists_whole_cons
  have htext : d.text = c :: (w ++ (d.fractionText ++ d.powerText)) := by
    rw [text, hw, List.cons_append]
  have hsign : Binary64.splitSign (signed negative d.text) = (negative, d.text) := by
    cases negative with
    | true => rfl
    | false =>
      simp [signed, Binary64.splitSign, htext, ne_of_isDigit hc (d := '-') rfl,
        ne_of_isDigit hc (d := '+') rfl]
  have hword : ∀ t : Text, t.head?.all Char.isDigit = false → d.text.map Char.toLower ≠ t := by
    rintro _ ht rfl
    rw [htext, List.map_cons, toLower_of_isDigit hc] at ht
    exact absurd ht (by simp [hc])
  have hends := digitsEnd_fractionText (d := d) numberEnds_nil
  have hfraction := splitFraction_text h numberEnds_nil
  simp only [List.append_nil] at hends hfraction
  have hwhole : d.whole ≠ [] := hw ▸ List.cons_ne_nil c w
  simp only [Binary64.ofText?, hsign]
  rw [if_neg (not_or.mpr ⟨hword _ rfl, hword _ rfl⟩), if_neg (hword _ rfl), text,
    takeWhile_append_of_ends h.whole_digits hends, dropWhile_append_of_ends h.whole_digits hends, hfraction,
    if_neg (fun hnil => hwhole hnil.1), power?_powerText h]
  rfl

end Decimal

end Citations
