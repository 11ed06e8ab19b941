import Citations.Proofs.RoundTrip

/-!
# All specials at once

The escaper goes through the text once for each special, and every time it reads what the time
before has left.  If the specials are all different, no time makes or takes away a place where a
later one would replace something: what comes out can be told from the places of the text as it was.
So it depends neither on the order of the specials nor on where a text is cut.

* `EscapesAt cs t i`   a backslash of `t` directly before one of the characters;
* `Text.dropAt p t`    `t` without the characters at the places `p`;
* `dropEscapes_eq_dropAt`   the scan leaves out exactly such backslashes;
* `escape_perm`, `unescape_perm`   the order of the specials;
* `unescape_escaped`   an escaped special anywhere in a text, also behind further backslashes;
* `scanned_at_once`    all of it for an escaper.
-/

namespace Citations

/-! ## characters left out by their places -/

namespace Text

/-- The text without the characters at some places. -/
def dropAt (p : Nat → Prop) [DecidablePred p] (t : Text) : Text :=
  (t.zipIdx.filter fun q => ¬ p q.2).map Prod.fst

/-- Behind the first character every place is one less. -/
theorem dropAt_cons (p : Nat → Prop) [DecidablePred p] (d : Char) (r : Text) :
    dropAt p (d :: r) = (if p 0 then [] else [d]) ++ dropAt (fun i => p (i + 1)) r := by
  have hrest : ((r.zipIdx.map (Prod.map id (· + 1))).filter fun q => ¬ p q.2).map Prod.fst =
      dropAt (fun i => p (i + 1)) r := by
    rw [List.filter_map, List.map_map]
    rfl
  rw [← hrest]
  unfold dropAt
  rw [List.zipIdx_cons', List.filter_cons]
  by_cases h : p 0
  · rw [if_neg (by simpa using h), if_pos h]
    rfl
  · rw [if_pos (by simpa using h), if_neg h]
    rfl

end Text

namespace Escaper

/-- A backslash stands at the place `i`, and one of the characters directly behind it. -/
def EscapesAt (cs : List Char) (t : Text) (i : Nat) : Prop :=
  t[i]? = some '\\' ∧ ∃ c ∈ cs, t[i + 1]? = some c

instance (cs : List Char) (t : Text) : DecidablePred (EscapesAt cs t) := fun i =>
  inferInstanceAs (Decidable (t[i]? = some '\\' ∧ ∃ c ∈ cs, t[i + 1]? = some c))

theorem startsIn_iff {cs : List Char} {t : Text} :
    startsIn cs t = true ↔ ∃ c ∈ cs, t[0]? = some c := by
  cases t with
  | nil => simp [startsIn]
  | cons d r => simp [startsIn]

theorem escapesAt_zero {cs : List Char} {d : Char} {r : Text} :
    EscapesAt cs (d :: r) 0 ↔ d = '\\' ∧ startsIn cs r = true := by
  rw [EscapesAt, startsIn_iff]
  simp

theorem dropEscapes_eq_dropAt (cs : List Char) (t : Text) :
    dropEscapes cs t = t.dropAt (EscapesAt cs t) := by
  induction t with
  | nil => rfl
  | cons d r ih =>
    have hrest : (fun i => EscapesAt cs (d :: r) (i + 1)) = EscapesAt cs r := rfl
    rw [Text.dropAt_cons, dropEscapes, ih]
    by_cases h : d = '\\' ∧ startsIn cs r = true
    · rw [if_pos h, if_pos (escapesAt_zero.mpr h)]
      rfl
    · rw [if_neg h, if_neg fun h0 => h (escapesAt_zero.mp h0)]
      rfl

/-! ## the order of the specials -/

section
variable {cs cs' : List Char}

theorem escapeChar_congr (h : ∀ c, c ∈ cs' ↔ c ∈ cs) : escapeChar cs' = escapeChar cs := by
  funext d
  unfold escapeChar escapeSpecial
  simp only [h]

theorem startsIn_congr (h : ∀ c, c ∈ cs' ↔ c ∈ cs) (t : Text) : startsIn cs' t = startsIn cs t := by
  rw [Bool.eq_iff_iff, startsIn_iff, startsIn_iff]
  simp only [h]

theorem dropEscapes_congr (h : ∀ c, c ∈ cs' ↔ c ∈ cs) (t : Text) :
    dropEscapes cs' t = dropEscapes cs t := by
  induction t with
  | nil => rfl
  | cons d r ih => rw [dropEscapes, dropEscapes, startsIn_congr h, ih]

theorem escape_perm (h : cs'.Perm cs) (hn : cs.Nodup) (hb : '\\' ∉ cs) (hp : parked ∉ cs) :
    (ofChars cs').escape = (ofChars cs).escape := by
  have hb' : '\\' ∉ cs' := fun hm => hb (h.mem_iff.mp hm)
  have hp' : parked ∉ cs' := fun hm => hp (h.mem_iff.mp hm)
  funext t
  rw [escape_eq_flatMap (h.nodup_iff.mpr hn) hb' hp', escape_eq_flatMap hn hb hp,
    escapeChar_congr fun c => h.mem_iff]

theorem unescape_perm (h : cs'.Perm cs) (hn : cs.Nodup) (hb : '\\' ∉ cs) :
    (ofChars cs').unescape = (ofChars cs).unescape := by
  have hb' : '\\' ∉ cs' := fun hm => hb (h.mem_iff.mp hm)
  funext t
  rw [unescape_eq_dropEscapes (h.nodup_iff.mpr hn) hb', unescape_eq_dropEscapes hn hb,
    dropEscapes_congr fun c => h.mem_iff]

end

/-! ## an escaped special -/

/-- An escaped special loses the one backslash directly before it, whatever stands around it. -/
theorem unescape_escaped {cs : List Char} (hn : cs.Nodup) (hb : '\\' ∉ cs) (hp : parked ∉ cs)
    {c : Char} (hc : c ∈ cs) (s t : Text) : (ofChars cs).unescape (s ++ '\\' :: c :: t) =
      (ofChars cs).unescape s ++ c :: (ofChars cs).unescape t := by
  have hne : c ≠ '\\' := fun e => hb (e ▸ hc)
  have hkeep : unpark c = c := if_neg fun e : c = parked => hp (e ▸ hc)
  have hseam : startsIn cs ('\\' :: c :: t) = false := by simpa [startsIn] using hb
  have hdrop : startsIn cs (c :: t) = true := by simpa [startsIn] using hc
  rw [unescape_join hn hb fun _ => hseam]
  congr 1
  rw [unescape_eq_dropEscapes hn hb, unescape_eq_dropEscapes hn hb, dropEscapes_backslash,
    if_pos hdrop, dropEscapes_of_ne hne, List.map_cons, hkeep]

/-- One special after the other is the same as one scan of the text.  Escaping exchanges each
character by itself.  Unescaping leaves out the backslashes that stand directly before a special in
the text as it was, one for each special, and then a parked backslash comes back.  The order of the
specials makes no difference.  Escaping goes part by part, and so does unescaping where the first
part ends in no backslash; an escaped special comes back alone wherever it stands. -/
theorem scanned_at_once {cs : List Char} (hn : cs.Nodup) (hb : '\\' ∉ cs) (hp : parked ∉ cs) :
    (∀ t, (ofChars cs).escape t =
      t.flatMap fun d => if d = '\\' then [parked] else if d ∈ cs then ['\\', d] else [d]) ∧
    (∀ t, (ofChars cs).unescape t = (t.dropAt (EscapesAt cs t)).map unpark) ∧
    (∀ cs', cs'.Perm cs → (ofChars cs').escape = (ofChars cs).escape ∧
      (ofChars cs').unescape = (ofChars cs).unescape) ∧
    (∀ s t, (ofChars cs).escape (s ++ t) = (ofChars cs).escape s ++ (ofChars cs).escape t) ∧
    (∀ s t, ¬ ['\\'] <:+ s →
      (ofChars cs).unescape (s ++ t) = (ofChars cs).unescape s ++ (ofChars cs).unescape t) ∧
    ∀ s t, ∀ c ∈ cs, (ofChars cs).unescape (s ++ '\\' :: c :: t) =
      (ofChars cs).unescape s ++ c :: (ofChars cs).unescape t := by
  refine ⟨escape_eq_flatMap hn hb hp, ?_, ?_, ?_, ?_, ?_⟩
  · intro t
    rw [unescape_eq_dropEscapes hn hb, dropEscapes_eq_dropAt]
  · intro cs' h
    exact ⟨escape_perm h hn hb hp, unescape_perm h hn hb⟩
  · intro s t
    rw [escape_eq_flatMap hn hb hp, escape_eq_flatMap hn hb hp, escape_eq_flatMap hn hb hp,
      List.flatMap_append]
  · intro s t hs
    apply unescape_join hn hb
    intro he
    exact absurd (Template.endsEscaping_iff.mp he) hs
  · intro s t c hc
    exact unescape_escaped hn hb hp hc s t

/-- A parked backslash, a run of backslashes before a special, and one at the end. -/
def backslashes : Text := parked :: "\\\\\x7b\\@\\".toList

theorem scanned_at_once_run :
    "@\x7b".toList.Nodup ∧ '\\' ∉ "@\x7b".toList ∧ parked ∉ "@\x7b".toList ∧
    (ofChars "@\x7b".toList).unescape backslashes = "\\\\\x7b@\\".toList ∧
    (ofChars "\x7b@".toList).unescape backslashes = "\\\\\x7b@\\".toList ∧
    ¬ ['\\'] <:+ "a".toList ∧
    (ofChars "@\x7b".toList).unescape ("a".toList ++ backslashes) = "a\\\\\x7b@\\".toList := by
  have hn : "@\x7b".toList.Nodup := by decide
  have hb : '\\' ∉ "@\x7b".toList := by decide
  have hp : parked ∉ "@\x7b".toList := by decide
  have hs : ¬ ['\\'] <:+ "a".toList := by decide
  have hperm : "\x7b@".toList.Perm "@\x7b".toList := by decide
  obtain ⟨_, hscan, horder, _, hjoin, _⟩ := scanned_at_once hn hb hp
  have hrun : (ofChars "@\x7b".toList).unescape backslashes = "\\\\\x7b@\\".toList := by
    rw [hscan, ← dropEscapes_eq_dropAt]
    rfl
  refine ⟨hn, hb, hp, hrun, ?_, hs, ?_⟩
  · rw [(horder _ hperm).2, hrun]
  · rw [hjoin _ _ hs, hrun, hscan, ← dropEscapes_eq_dropAt]
    rfl

end Escaper
end Citations
