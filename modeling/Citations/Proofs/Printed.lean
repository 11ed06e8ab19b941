import Mathlib.Data.List.Forall2
import Citations.Proofs.Decimals
import Citations.Proofs.Quoting
import Citations.Results

/-!
# Values written and read back

A value that can be written in the JSON format is read back from its text, whatever stands behind
it.  Not all of it returns: a tuple is read as a list, a key as the text that it is written as, and
of keys written alike the last counts; a number with digits is read as the one nearest to its text,
and a half of a pair as the character that stands in for it.

* `Json.image`          what is read of a written value;
* `Json.nesting`        how many lists and mappings stand around each other in it;
* `Json.noControl_print`   no line is broken within it;
* `Json.reads_print`    it is read back at the front of a text;
* `Json.readWithin_print`  and as a whole text.
-/

namespace Citations
namespace Json
open Text Decimal

/-! ## what is read -/

/-- The text that a key is written as. -/
def keyName (k : Value) : Text := (keyText k).toOption.getD []

/-- The number that the text of a number is read as. -/
def readFloat (x : Binary64) : Binary64 := (Binary64.ofText? x.text).getD x

mutual

/-- What is read of a written value. -/
def image : Value → Value
  | .float x => .float (readFloat x)
  | .unpaired ps => .text (Value.unpaired ps).display
  | .list vs => .list (imageAll vs)
  | .tuple vs => .list (imageAll vs)
  | .dict es => .dict (Entries.ofList (imageEntries es))
  | v => v

def imageAll : List Value → List Value
  | [] => []
  | v :: vs => image v :: imageAll vs

def imageEntries : List (Value × Value) → Entries
  | [] => []
  | (k, v) :: r => (.text (keyName k), image v) :: imageEntries r

end

mutual

/-- How many lists, tuples and mappings stand around each other in a value. -/
def nesting : Value → Nat
  | .list vs => nestingAll vs + 1
  | .tuple vs => nestingAll vs + 1
  | .dict es => nestingEntries es + 1
  | _ => 0

def nestingAll : List Value → Nat
  | [] => 0
  | v :: vs => max (nesting v) (nestingAll vs)

def nestingEntries : List (Value × Value) → Nat
  | [] => 0
  | (_, v) :: r => max (nesting v) (nestingEntries r)

end

/-! ## the values without parts -/

section
variable {depth : Nat} {r : Text}

theorem word?_of_head {c : Char} (h : c ∉ ['n', 't', 'f', 'N', 'I', '-']) :
    word? (c :: r) = none := by
  simp only [List.mem_cons, List.not_mem_nil, or_false, not_or] at h
  simp [word?, words, List.isPrefixOf, Ne.symm h.1, Ne.symm h.2.1, Ne.symm h.2.2.1,
    Ne.symm h.2.2.2.1, Ne.symm h.2.2.2.2.1, Ne.symm h.2.2.2.2.2]

theorem word?_minus {c : Char} (h : c ≠ 'I') : word? ('-' :: c :: r) = none := by
  simp [word?, words, List.isPrefixOf, Ne.symm h]

theorem value_scalar {c : Char} (h : c ∉ ['"', '{', '[']) : value depth (c :: r) =
    match word? (c :: r) with
    | some x => .ok x
    | none => number (c :: r) := by
  simp only [List.mem_cons, List.not_mem_nil, or_false, not_or] at h
  rw [value.eq_def]
  dsimp only
  rw [if_neg h.1, if_neg h.2.1]
  exact if_neg h.2.2

theorem not_mem_of_isDigit {c : Char} {cs : List Char} (hc : c.isDigit = true)
    (hcs : cs.any Char.isDigit = false) : c ∉ cs :=
  fun hmem => List.any_eq_false.mp hcs c hmem hc

/-- A sign and a digit begin a number. -/
theorem value_signed {c : Char} (hc : c.isDigit = true) (negative : Bool) :
    value depth (signed negative (c :: r)) = number (signed negative (c :: r)) := by
  cases negative with
  | true =>
    show value depth ('-' :: c :: r) = number ('-' :: c :: r)
    rw [value_scalar (by decide), word?_minus (ne_of_isDigit hc rfl)]
  | false =>
    show value depth (c :: r) = number (c :: r)
    rw [value_scalar (not_mem_of_isDigit hc rfl), word?_of_head (not_mem_of_isDigit hc rfl)]

theorem exists_text_finite (s : Bool) (m : Nat) (e : Int) : ∃ d : Decimal, d.WellFormed ∧
    d.IsMarked ∧ (Binary64.finite s m e).text = signed s d.text := by
  obtain ⟨d, hd, hmarked, htext⟩ := exists_decimal m e
  exact ⟨d, hd, hmarked, by rw [Binary64.text, htext, signed]⟩

theorem value_int (i : Whole) (hr : NumberEnds r) :
    value depth (ofInt i.val ++ r) = .ok (.int i, r) := by
  obtain ⟨c, w, hw⟩ := List.exists_cons_of_ne_nil (ofNat_ne_nil i.val.natAbs)
  have hc : c.isDigit = true := isDigit_of_mem_ofNat c (hw ▸ List.mem_cons_self)
  rw [← number_ofInt i hr, ofInt_eq_signed, hw, signed, List.append_assoc, List.cons_append,
    ← signed, value_signed hc]

theorem readFloat_nan : readFloat .nan = .nan := by decide

theorem readFloat_infinite (s : Bool) : readFloat (.infinite s) = .infinite s := by
  cases s <;> decide

theorem value_float (x : Binary64) (hr : NumberEnds r) :
    value depth (numberText x ++ r) = .ok (.float (readFloat x), r) := by
  match x with
  | .nan =>
    rw [readFloat_nan]
    exact value_scalar (by decide)
  | .infinite true =>
    rw [readFloat_infinite]
    exact value_scalar (by decide)
  | .infinite false =>
    rw [readFloat_infinite]
    exact value_scalar (by decide)
  | .finite s m e =>
    obtain ⟨d, hd, hmarked, htext⟩ := exists_text_finite s m e
    have hread : readFloat (.finite s m e) = d.number s := by
      rw [readFloat, htext, ofText?_text hd]
      rfl
    obtain ⟨c, w, hw, hc, _⟩ := hd.exists_whole_cons
    show value depth ((Binary64.finite s m e).text ++ r) = _
    rw [htext, hread, ← number_text hd hmarked hr s, signed, text, hw, List.append_assoc,
      List.cons_append, List.cons_append, ← signed, value_signed hc]

theorem value_quoted (t : Text) : value depth (quoted t ++ r) = .ok (.text t, r) := by
  rw [quoted, List.append_assoc, List.cons_append, List.singleton_append, value.eq_def]
  dsimp only
  rw [if_pos rfl, stringBody_escaped, ← Value.ofCodePoints_map_char]
  rfl

/-- The mark of an encoding, blanks and the end of an array begin no value. -/
def beginsNone : List Char := [Char.ofNat 0xfeff, ' ', '\t', '\n', '\r', ']']

theorem value_fails {c : Char} (hc : c ∈ beginsNone) :
    value depth (c :: r) = fail .value (c :: r) := by
  simp only [beginsNone, List.mem_cons, List.not_mem_nil, or_false] at hc
  rcases hc with rfl | rfl | rfl | rfl | rfl | rfl
  all_goals
    rw [value_scalar (by decide), word?_of_head (by decide)]
    rfl

end

/-! ## arrays and objects -/

/-- The text is read as the value, whatever stands behind it. -/
def Reads (depth : Nat) (t : Text) (v : Value) : Prop :=
  ∀ r, NumberEnds r → value depth (t ++ r) = .ok (v, r)

/-- The text is read as a member of an object. -/
def ReadsMember (depth : Nat) (m : Text) (e : Value × Value) : Prop :=
  ∃ k t, e.1 = .text k ∧ m = quoted k ++ ':' :: ' ' :: t ∧ Reads depth t e.2

namespace Reads
variable {depth : Nat} {t : Text} {v : Value}

theorem ne_nil (h : Reads depth t v) : t ≠ [] := by
  rintro rfl
  have hread := h [] numberEnds_nil
  rw [List.append_nil, value.eq_def] at hread
  cases hread

theorem not_mem_head (h : Reads depth t v) {c : Char} {w : Text} (ht : t = c :: w) :
    c ∉ beginsNone := by
  intro hc
  have hread := h [] numberEnds_nil
  rw [ht, List.cons_append, value_fails hc] at hread
  cases hread

theorem skip_append (h : Reads depth t v) (r : Text) : skip (t ++ r) = t ++ r := by
  obtain ⟨c, w, rfl⟩ := List.exists_cons_of_ne_nil h.ne_nil
  have hc := h.not_mem_head rfl
  simp only [beginsNone, List.mem_cons, List.not_mem_nil, or_false, not_or] at hc
  exact List.dropWhile_cons_of_neg (by simp [isSpace, hc])

end Reads

theorem numberEnds_cons {c : Char} {r : Text} (h : c.isDigit = false ∧ c ∉ ['.', 'e', 'E']) :
    NumberEnds (c :: r) := by
  rintro _ ⟨⟩
  exact h

variable {depth : Nat}

theorem skip_blank (r : Text) : skip (' ' :: r) = skip r := List.dropWhile_cons_of_pos rfl

theorem joined_comma (t t' : Text) (ts : List Text) (u : Text) :
    joined [',', ' '] (t :: t' :: ts) ++ u = t ++ ',' :: ' ' :: (joined [',', ' '] (t' :: ts) ++ u) := by
  simp only [joined_cons_cons, List.append_assoc, List.cons_append, List.nil_append]

theorem joined_cons_eq (t : Text) (ts : List Text) :
    ∃ u, joined [',', ' '] (t :: ts) = t ++ u := by
  cases ts with
  | nil => exact ⟨[], (List.append_nil t).symm⟩
  | cons t' ts => exact ⟨_, List.append_assoc ..⟩

theorem skip_joined {t : Text} (h : ∀ u, skip (t ++ u) = t ++ u) (ts : List Text) (u : Text) :
    skip (joined [',', ' '] (t :: ts) ++ u) = joined [',', ' '] (t :: ts) ++ u := by
  obtain ⟨w, hw⟩ := joined_cons_eq t ts
  rw [hw, List.append_assoc, h]

theorem elements_joined {ts : List Text} {vs : List Value} (h : List.Forall₂ (Reads depth) ts vs)
    (hne : ts ≠ []) {n : Nat} (hn : ts.length ≤ n) (r : Text) :
    elements (value depth) n (joined [',', ' '] ts ++ ']' :: r) = .ok (vs, r) := by
  induction h generalizing n with
  | nil => exact absurd rfl hne
  | @cons t v ts vs ht hts ih =>
    obtain ⟨n, rfl⟩ : ∃ k, n = k + 1 := ⟨n - 1, by rw [List.length_cons] at hn; omega⟩
    cases hts with
    | nil =>
      rw [joined_singleton, elements, ht _ (numberEnds_cons (by decide))]
      rfl
    | @cons t' v' ts vs ht' hts =>
      have ih := ih (List.cons_ne_nil _ _) (Nat.le_of_succ_le_succ hn)
      have hskip := skip_joined ht'.skip_append ts (']' :: r)
      rw [joined_comma, elements, ht _ (numberEnds_cons (by decide))]
      show (elements (value depth) n (skip (joined [',', ' '] (t' :: ts) ++ ']' :: r))).map _ = _
      rw [hskip, ih]
      rfl

theorem ReadsMember.skip_append {m : Text} {e : Value × Value} (h : ReadsMember depth m e)
    (u : Text) : skip (m ++ u) = m ++ u := by
  obtain ⟨k, t, _, rfl, _⟩ := h
  rfl

/-- One member, and the comma or the end behind it. -/
theorem members_member {m : Text} {e : Value × Value} (h : ReadsMember depth m e) (n : Nat)
    (acc : Entries) {u : Text} (hu : NumberEnds u) :
    members (value depth) (n + 1) acc (m ++ u) =
      match skip u with
      | '}' :: r => .ok (acc.insert e.1 e.2, r)
      | ',' :: r => members (value depth) n (acc.insert e.1 e.2) (skip r)
      | r => fail .comma r := by
  obtain ⟨k, t, hk, rfl, ht⟩ := h
  have htext : quoted k ++ ':' :: ' ' :: t ++ u = '"' :: (escaped k ++ '"' :: ':' :: ' ' :: (t ++ u)) := by
    simp only [quoted, List.append_assoc, List.cons_append, List.nil_append]
  have hvalue : value depth (skip (' ' :: (t ++ u))) = .ok (e.2, u) := by
    rw [skip_blank, ht.skip_append, ht u hu]
  rw [htext, members, stringBody_escaped]
  show (value depth (skip (' ' :: (t ++ u))) >>= _) = _
  rw [hvalue, hk, ← Value.ofCodePoints_map_char]
  rfl

theorem members_joined {ms : List Text} {es : Entries} (h : List.Forall₂ (ReadsMember depth) ms es)
    (hne : ms ≠ []) {n : Nat} (hn : ms.length ≤ n) (acc : Entries) (r : Text) :
    members (value depth) n acc (joined [',', ' '] ms ++ '}' :: r) = .ok (acc.overlay es, r) := by
  induction h generalizing n acc with
  | nil => exact absurd rfl hne
  | @cons m e ms es hm hms ih =>
    obtain ⟨n, rfl⟩ : ∃ k, n = k + 1 := ⟨n - 1, by rw [List.length_cons] at hn; omega⟩
    cases hms with
    | nil =>
      rw [joined_singleton, members_member hm n acc (numberEnds_cons (by decide))]
      rfl
    | @cons m' e' ms es hm' hms =>
      have ih := ih (List.cons_ne_nil _ _) (Nat.le_of_succ_le_succ hn) (acc.insert e.1 e.2)
      have hskip := skip_joined hm'.skip_append ms ('}' :: r)
      rw [joined_comma, members_member hm n acc (numberEnds_cons (by decide))]
      show members (value depth) n _ (skip (joined [',', ' '] (m' :: ms) ++ '}' :: r)) = _
      rw [hskip, ih]
      rfl

theorem length_le_joined {α : Type} {R : Text → α → Prop} (hR : ∀ t a, R t a → t ≠ [])
    {ts : List Text} {as : List α} (h : List.Forall₂ R ts as) :
    ts.length ≤ (joined [',', ' '] ts).length := by
  induction h with
  | nil => exact Nat.le_refl _
  | @cons t a ts as ht hts ih =>
    have hpos := List.length_pos_iff.mpr (hR t a ht)
    cases hts with
    | nil => exact hpos
    | cons =>
      rw [joined_cons_cons, List.length_append, List.length_append, List.length_cons]
      omega

theorem length_le_joined_append {α : Type} {R : Text → α → Prop} (hR : ∀ t a, R t a → t ≠ [])
    {ts : List Text} {as : List α} (h : List.Forall₂ R ts as) (u : Text) :
    ts.length ≤ (joined [',', ' '] ts ++ u).length + 1 := by
  have hlength := length_le_joined hR h
  rw [List.length_append]
  omega

theorem Reads.joined_ne {t : Text} {v : Value} (h : Reads depth t v) (ts : List Text) (u w : Text) :
    joined [',', ' '] (t :: ts) ++ u ≠ ']' :: w := by
  obtain ⟨c, t', rfl⟩ := List.exists_cons_of_ne_nil h.ne_nil
  obtain ⟨u', hu⟩ := joined_cons_eq (c :: t') ts
  rw [hu]
  exact fun heq => h.not_mem_head rfl (by rw [(List.cons.inj heq).1]; decide)

theorem ReadsMember.joined_ne {m : Text} {e : Value × Value} (h : ReadsMember depth m e)
    (ms : List Text) (u w : Text) : joined [',', ' '] (m :: ms) ++ u ≠ '}' :: w := by
  obtain ⟨k, t, _, rfl, _⟩ := h
  obtain ⟨u', hu⟩ := joined_cons_eq (quoted k ++ ':' :: ' ' :: t) ms
  rw [hu]
  exact fun heq => absurd (List.cons.inj heq).1 (by decide)

theorem ReadsMember.ne_nil {m : Text} {e : Value × Value} (h : ReadsMember depth m e) : m ≠ [] := by
  obtain ⟨k, t, _, rfl, _⟩ := h
  exact List.cons_ne_nil _ _

theorem reads_array {ts : List Text} {vs : List Value} (h : List.Forall₂ (Reads depth) ts vs) :
    Reads (depth + 1) ('[' :: joined [',', ' '] ts ++ [']']) (.list vs) := by
  intro r _
  rw [List.append_assoc, List.cons_append, List.singleton_append, value.eq_def]
  dsimp only
  rw [if_neg (by decide), if_neg (by decide), if_pos rfl]
  have hlength := length_le_joined_append (fun _ _ => Reads.ne_nil) h (']' :: r)
  cases h with
  | nil => rfl
  | @cons t v ts vs ht hts =>
    rw [skip_joined ht.skip_append]
    -- what begins a value does not end the array
    split
    · next heq => exact absurd heq (ht.joined_ne ts _ _)
    · rw [elements_joined (.cons ht hts) (List.cons_ne_nil _ _) hlength]
      rfl

theorem reads_object {ms : List Text} {es : Entries} (h : List.Forall₂ (ReadsMember depth) ms es) :
    Reads (depth + 1) ('{' :: joined [',', ' '] ms ++ ['}']) (.dict (Entries.ofList es)) := by
  intro r _
  rw [List.append_assoc, List.cons_append, List.singleton_append, value.eq_def]
  dsimp only
  rw [if_neg (by decide), if_pos rfl]
  have hlength := length_le_joined_append (fun _ _ => ReadsMember.ne_nil) h ('}' :: r)
  cases h with
  | nil => rfl
  | @cons m e ms es hm hms =>
    rw [skip_joined hm.skip_append]
    split
    · next heq => exact absurd heq (hm.joined_ne ms _ _)
    · rw [members_joined (.cons hm hms) (List.cons_ne_nil _ _) hlength]
      rfl

/-! ## one line -/

theorem noControl_of_digits {ds : Text} (h : ∀ c ∈ ds, c.isDigit = true) : NoControl ds := by
  intro c hc
  have hzero : '0'.toNat ≤ c.toNat := of_decide_eq_true (Bool.and_eq_true_iff.mp (h c hc)).1
  exact Nat.le_trans (by decide) hzero

theorem noControl_signed {negative : Bool} {t : Text} (h : NoControl t) :
    NoControl (signed negative t) := by
  cases negative with
  | true => exact List.forall_mem_cons.mpr ⟨by decide, h⟩
  | false => exact h

theorem noControl_ofInt (i : Int) : NoControl (ofInt i) := by
  rw [ofInt_eq_signed]
  exact noControl_signed (noControl_of_digits isDigit_of_mem_ofNat)

theorem noControl_text {d : Decimal} (h : d.WellFormed) : NoControl d.text := by
  refine List.forall_mem_append.mpr ⟨noControl_of_digits h.whole_digits,
    List.forall_mem_append.mpr ⟨?_, ?_⟩⟩
  · unfold fractionText
    split
    · nofun
    · exact List.forall_mem_cons.mpr ⟨by decide, noControl_of_digits h.rest⟩
  · unfold powerText
    split
    · nofun
    · next negative ds hp =>
      refine List.forall_mem_cons.mpr ⟨by decide, List.forall_mem_cons.mpr ⟨?_, ?_⟩⟩
      · cases negative <;> decide
      · exact noControl_of_digits (h.power negative ds hp).2

theorem noControl_numberText (x : Binary64) : NoControl (numberText x) := by
  match x with
  | .nan => decide
  | .infinite true => decide
  | .infinite false => decide
  | .finite s m e =>
    obtain ⟨d, hd, _, htext⟩ := exists_text_finite s m e
    show NoControl (Binary64.finite s m e).text
    rw [htext]
    exact noControl_signed (noControl_text hd)

theorem noControl_joined {ts : List Text} (h : ∀ t ∈ ts, NoControl t) :
    NoControl (joined [',', ' '] ts) := by
  have hcomma : NoControl [',', ' '] := by decide
  induction ts with
  | nil => nofun
  | cons t ts ih =>
    obtain ⟨ht, hts⟩ := List.forall_mem_cons.mp h
    cases ts with
    | nil => exact ht
    | cons t' ts =>
      rw [joined_cons_cons]
      exact List.forall_mem_append.mpr ⟨List.forall_mem_append.mpr ⟨ht, hcomma⟩, ih hts⟩

theorem noControl_enclosed {a b : Char} (ha : 32 ≤ a.toNat) (hb : 32 ≤ b.toNat) {ts : List Text}
    (h : ∀ t ∈ ts, NoControl t) : NoControl (a :: joined [',', ' '] ts ++ [b]) :=
  List.forall_mem_append.mpr ⟨List.forall_mem_cons.mpr ⟨ha, noControl_joined h⟩,
    List.forall_mem_singleton.mpr hb⟩

/-! ## values -/

theorem print_tuple (vs : List Value) : print (.tuple vs) = print (.list vs) := by
  simp only [print]

theorem print_list_eq_ok {vs : List Value} {t : Text} (h : print (.list vs) = .ok t) :
    ∃ ts, printAll vs = .ok ts ∧ t = '[' :: joined [',', ' '] ts ++ [']'] := by
  rw [print] at h
  obtain ⟨ts, hts, h⟩ := bind_eq_ok.mp h
  exact ⟨ts, hts, (Except.ok.inj h).symm⟩

theorem print_dict_eq_ok {es : List (Value × Value)} {t : Text} (h : print (.dict es) = .ok t) :
    ∃ ms, printEntries es = .ok ms ∧ t = '{' :: joined [',', ' '] ms ++ ['}'] := by
  rw [print] at h
  obtain ⟨ms, hms, h⟩ := bind_eq_ok.mp h
  exact ⟨ms, hms, (Except.ok.inj h).symm⟩

theorem printAll_cons_eq_ok {v : Value} {vs : List Value} {ts : List Text}
    (h : printAll (v :: vs) = .ok ts) :
    ∃ t us, print v = .ok t ∧ printAll vs = .ok us ∧ ts = t :: us := by
  rw [printAll] at h
  obtain ⟨t, ht, h⟩ := bind_eq_ok.mp h
  obtain ⟨us, hus, h⟩ := bind_eq_ok.mp h
  exact ⟨t, us, ht, hus, (Except.ok.inj h).symm⟩

theorem printEntries_cons_eq_ok {k v : Value} {es : List (Value × Value)} {ms : List Text}
    (h : printEntries ((k, v) :: es) = .ok ms) :
    ∃ name t us, keyText k = .ok name ∧ print v = .ok t ∧ printEntries es = .ok us ∧
      ms = (quoted name ++ ':' :: ' ' :: t) :: us := by
  rw [printEntries] at h
  obtain ⟨name, hk, h⟩ := bind_eq_ok.mp h
  obtain ⟨t, ht, h⟩ := bind_eq_ok.mp h
  obtain ⟨us, hus, h⟩ := bind_eq_ok.mp h
  exact ⟨name, t, us, hk, ht, hus, (Except.ok.inj h).symm⟩

theorem keyName_of_eq_ok {k : Value} {name : Text} (h : keyText k = .ok name) :
    keyName k = name := by
  rw [keyName, h]
  rfl

theorem exists_of_succ_le {m n : Nat} (h : m + 1 ≤ n) : ∃ k, n = k + 1 ∧ m ≤ k :=
  ⟨n - 1, by omega, by omega⟩

mutual

/-- A written value is read back where as many lists and mappings may stand around each other as
there are in it. -/
theorem reads_print (v : Value) {t : Text} (h : print v = .ok t) {depth : Nat}
    (hd : nesting v ≤ depth) : Reads depth t (image v) := by
  match v with
  | .null | .bool true | .bool false =>
    rw [print] at h
    cases h
    exact fun r _ => value_scalar (by decide)
  | .int i =>
    rw [print] at h
    cases h
    rw [image]
    · exact fun r hr => value_int i hr
    all_goals nofun
  | .float x =>
    rw [print] at h
    cases h
    rw [image]
    exact fun r hr => value_float x hr
  | .text s =>
    rw [print] at h
    cases h
    rw [image]
    · exact fun r _ => value_quoted s
    all_goals nofun
  | .unpaired ps =>
    rw [print] at h
    cases h
    rw [image]
    exact fun r _ => value_quoted _
  | .bytes bs =>
    rw [print] at h
    cases h
  | .list vs =>
    obtain ⟨ts, hts, rfl⟩ := print_list_eq_ok h
    rw [nesting] at hd
    obtain ⟨d, rfl, hd'⟩ := exists_of_succ_le hd
    rw [image]
    exact reads_array (reads_printAll vs hts hd')
  | .tuple vs =>
    rw [print_tuple] at h
    obtain ⟨ts, hts, rfl⟩ := print_list_eq_ok h
    rw [nesting] at hd
    obtain ⟨d, rfl, hd'⟩ := exists_of_succ_le hd
    rw [image]
    exact reads_array (reads_printAll vs hts hd')
  | .dict es =>
    obtain ⟨ms, hms, rfl⟩ := print_dict_eq_ok h
    rw [nesting] at hd
    obtain ⟨d, rfl, hd'⟩ := exists_of_succ_le hd
    rw [image]
    exact reads_object (reads_printEntries es hms hd')

theorem reads_printAll (vs : List Value) {ts : List Text} (h : printAll vs = .ok ts) {depth : Nat}
    (hd : nestingAll vs ≤ depth) : List.Forall₂ (Reads depth) ts (imageAll vs) := by
  match vs with
  | [] =>
    rw [printAll] at h
    cases h
    exact .nil
  | v :: vs =>
    obtain ⟨t, us, ht, hus, rfl⟩ := printAll_cons_eq_ok h
    rw [nestingAll, Nat.max_le] at hd
    rw [imageAll]
    exact .cons (reads_print v ht hd.1) (reads_printAll vs hus hd.2)

theorem reads_printEntries (es : List (Value × Value)) {ms : List Text}
    (h : printEntries es = .ok ms) {depth : Nat} (hd : nestingEntries es ≤ depth) :
    List.Forall₂ (ReadsMember depth) ms (imageEntries es) := by
  match es with
  | [] =>
    rw [printEntries] at h
    cases h
    exact .nil
  | (k, v) :: es =>
    obtain ⟨name, t, us, hk, ht, hus, rfl⟩ := printEntries_cons_eq_ok h
    rw [nestingEntries, Nat.max_le] at hd
    rw [imageEntries, keyName_of_eq_ok hk]
    exact .cons ⟨name, t, rfl, rfl, reads_print v ht hd.1⟩ (reads_printEntries es hus hd.2)

end

mutual

/-- No line is broken in the text of a value. -/
theorem noControl_print (v : Value) {t : Text} (h : print v = .ok t) : NoControl t := by
  match v with
  | .null | .bool true | .bool false =>
    rw [print] at h
    cases h
    decide
  | .int i =>
    rw [print] at h
    cases h
    exact noControl_ofInt i.val
  | .float x =>
    rw [print] at h
    cases h
    exact noControl_numberText x
  | .text s =>
    rw [print] at h
    cases h
    exact noControl_quoted s
  | .unpaired ps =>
    rw [print] at h
    cases h
    exact noControl_quoted _
  | .bytes bs =>
    rw [print] at h
    cases h
  | .list vs =>
    obtain ⟨ts, hts, rfl⟩ := print_list_eq_ok h
    exact noControl_enclosed (by decide) (by decide) (noControl_printAll vs hts)
  | .tuple vs =>
    rw [print_tuple] at h
    obtain ⟨ts, hts, rfl⟩ := print_list_eq_ok h
    exact noControl_enclosed (by decide) (by decide) (noControl_printAll vs hts)
  | .dict es =>
    obtain ⟨ms, hms, rfl⟩ := print_dict_eq_ok h
    exact noControl_enclosed (by decide) (by decide) (noControl_printEntries es hms)

theorem noControl_printAll (vs : List Value) {ts : List Text} (h : printAll vs = .ok ts) :
    ∀ t ∈ ts, NoControl t := by
  match vs with
  | [] =>
    rw [printAll] at h
    cases h
    nofun
  | v :: vs =>
    obtain ⟨t, us, ht, hus, rfl⟩ := printAll_cons_eq_ok h
    exact List.forall_mem_cons.mpr ⟨noControl_print v ht, noControl_printAll vs hus⟩

theorem noControl_printEntries (es : List (Value × Value)) {ms : List Text}
    (h : printEntries es = .ok ms) : ∀ m ∈ ms, NoControl m := by
  match es with
  | [] =>
    rw [printEntries] at h
    cases h
    nofun
  | (k, v) :: es =>
    obtain ⟨name, t, us, _, ht, hus, rfl⟩ := printEntries_cons_eq_ok h
    refine List.forall_mem_cons.mpr ⟨?_, noControl_printEntries es hus⟩
    exact List.forall_mem_append.mpr ⟨noControl_quoted name, List.forall_mem_cons.mpr ⟨by decide,
      List.forall_mem_cons.mpr ⟨by decide, noControl_print v ht⟩⟩⟩

end

/-- A written value is read back as a whole text. -/
theorem readWithin_print {v : Value} {t : Text} (h : print v = .ok t) {depth : Nat}
    (hd : nesting v ≤ depth) : readWithin depth t = .ok (image v) := by
  have hreads := reads_print v h hd
  have hmark : t.head? ≠ some (Char.ofNat 0xfeff) := by
    intro heq
    obtain ⟨w, rfl⟩ := List.head?_eq_some_iff.mp heq
    exact hreads.not_mem_head rfl List.mem_cons_self
  have hskip := hreads.skip_append []
  have hvalue := hreads [] numberEnds_nil
  rw [List.append_nil] at hskip hvalue
  rw [readWithin, if_neg hmark, hskip, hvalue]
  rfl

end Json
end Citations
