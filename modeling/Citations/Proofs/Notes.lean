import Mathlib.Control.Monad.Basic
import Citations.Proofs.Progress

/-!
# What a run tells

A run makes its notes in the order of its passes.  In debug mode each pass is told with its number and
its text, before it and behind it, and the leaves tell in between.  A run that ends with a token left
warns, and in no other case.

* `pass_notes`           only leaves make notes of their own, and only in debug mode;
* `next_of_done`, `next_of_cap`, `next_of_pass`   a step of a run with its notes;
* `passNotes n t ts`     the notes of passes from the text `t` on, with the texts `ts` after them;
* `ending n t`           the warning of a run that ends after `n` passes with the text `t`;
* `textsFrom_notes`      all notes of a run;
* `told_ending`          what the log of a citation tells.
-/

namespace Citations

/-! ## notes of several steps -/

namespace Noted
variable {ε α β : Type} {P : Note → Prop}

theorem forall_notes_bind {x : Noted ε α} {f : α → Noted ε β} (hx : ∀ n ∈ x.notes, P n)
    (hf : ∀ a, ∀ n ∈ (f a).notes, P n) : ∀ n ∈ (x >>= f).notes, P n := by
  obtain ⟨ns, o⟩ := x
  cases o with
  | error e => exact hx
  | ok a => exact List.forall_mem_append.mpr ⟨hx, hf a⟩

theorem forall_notes_map {x : Noted ε α} (f : α → β) (hx : ∀ n ∈ x.notes, P n) :
    ∀ n ∈ (f <$> x).notes, P n := by
  rw [map_eq_pure_bind]
  exact forall_notes_bind hx fun _ _ h => nomatch h

theorem forall_notes_mapM {f : α → Noted ε β} {as : List α}
    (h : ∀ a ∈ as, ∀ n ∈ (f a).notes, P n) : ∀ n ∈ (as.mapM f).notes, P n := by
  induction as with
  | nil =>
    rw [List.mapM_nil]
    exact fun _ h => nomatch h
  | cons a as ih =>
    obtain ⟨ha, has⟩ := List.forall_mem_cons.mp h
    rw [List.mapM_cons]
    refine forall_notes_bind ha fun _ => ?_
    exact forall_notes_bind (ih has) fun _ _ h => nomatch h

theorem notes_bind_of_ok {x : Noted ε α} {a : α} (h : x.outcome = .ok a) (f : α → Noted ε β) :
    (x >>= f).notes = x.notes ++ (f a).notes := by
  obtain ⟨ns, o⟩ := x
  cases h
  rfl

end Noted

/-! ## notes of a pass -/

/-- The notes that a leaf makes. -/
inductive Note.OfLeaf : Note → Prop where
  | segment (t : Text) : OfLeaf (.segment t)
  | unresolved (key : Text) : OfLeaf (.unresolved key)

def Note.isWarning (n : Note) : Bool := n.level == Level.warning

theorem Note.OfLeaf.isWarning {n : Note} (h : n.OfLeaf) : n.isWarning = false := by
  cases h <;> rfl

namespace Render
open Template

section
variable {c : Context}

theorem noteIf_eq {ε : Type} (c : Context) (n : Note) :
    (noteIf c n : Noted ε Unit) = ⟨if c.options.debug then [n] else [], .ok ()⟩ := rfl

theorem forall_noteIf {ε : Type} {n : Note} (hn : n.OfLeaf) :
    ∀ m ∈ (noteIf c n : Noted ε Unit).notes, c.options.debug = true ∧ m.OfLeaf := by
  rw [noteIf_eq]
  cases hd : c.options.debug with
  | false => exact fun _ h => nomatch h
  | true =>
    intro m hm
    rw [List.mem_singleton.mp hm]
    exact ⟨rfl, hn⟩

theorem expand_notes (segment : Text) :
    ∀ n ∈ (expand c segment).notes, c.options.debug = true ∧ n.OfLeaf := by
  unfold expand
  refine Noted.forall_notes_bind (forall_noteIf (.segment segment)) fun _ => ?_
  cases firstToken? segment with
  | none => exact fun _ h => nomatch h
  | some k =>
    dsimp only
    split
    · exact fun _ h => nomatch h
    · split
      · refine Noted.forall_notes_bind (forall_noteIf (.unresolved k.key)) fun _ => ?_
        exact Noted.forall_notes_bind (fun _ h => nomatch h) fun _ _ h => nomatch h
      · exact fun _ h => nomatch h

/-- A pass makes the notes of its leaves, and no others; without debug mode it makes none. -/
theorem pass_notes (t : Text) : ∀ n ∈ (pass c t).notes, c.options.debug = true ∧ n.OfLeaf := by
  induction h : t.length using Nat.strongRecOn generalizing t with
  | ind n ih =>
    rw [pass_eq]
    refine Noted.forall_notes_bind (Noted.forall_notes_mapM fun f hf => ?_) fun _ _ hn => nomatch hn
    rw [solve_eq]
    dsimp only
    split
    · have hinner := ih _ (h ▸ length_interior_lt hf) (interior f) rfl
      exact Noted.forall_notes_bind (Noted.forall_notes_map _ hinner) fun _ _ hn => nomatch hn
    · exact Noted.forall_notes_bind (expand_notes (interior f)) fun _ _ hn => nomatch hn

theorem pass_notes_of_silent (hd : c.options.debug = false) (t : Text) : (pass c t).notes = [] := by
  refine List.eq_nil_iff_forall_not_mem.mpr fun n hn => ?_
  have hdebug := (pass_notes t n hn).1
  rw [hd] at hdebug
  cases hdebug

end

end Render

/-! ## notes of a run -/

namespace Citation
open Template Render

section
variable (c : Citation)

/-- What is told in debug mode. -/
def told (ns : List Note) : List Note := if c.options.debug then ns else []

/-- The notes of a pass from `t` to `t'` behind `n` others: the leaves tell between the two. -/
def onePass (n : Nat) (t t' : Text) : List Note :=
  .parsing (n + 1) t :: (pass c.context t).notes ++ [.parsed (n + 1) t']

/-- The notes of passes from `t` on, behind `n` others, with these texts after them. -/
def passNotes : Nat → Text → List Text → List Note
  | _, _, [] => []
  | n, t, t' :: ts => c.onePass n t t' ++ passNotes (n + 1) t' ts

/-- Whether a run that ends after `n` passes with the text `t` ends because a pass leaves the text as
it is. -/
def isStuck (n : Nat) (t : Text) : Bool := hasTokenSign t && !c.atCap n

/-- The warning of a run that ends after `n` passes with the text `t`. -/
def ending (n : Nat) (t : Text) : List Note :=
  if hasTokenSign t then [if c.atCap n then .capped n t else .stuck t] else []

end

section
variable {c : Citation} {s : Stage} {n : Nat} {t t' : Text} {ts : List Text} {limit : Nat}

theorem passNotes_nil (n : Nat) (t : Text) : c.passNotes n t [] = [] := rfl
theorem passNotes_cons (n : Nat) (t t' : Text) (ts : List Text) :
    c.passNotes n t (t' :: ts) = c.onePass n t t' ++ c.passNotes (n + 1) t' ts := rfl

theorem told_nil : c.told [] = [] := ite_self _

theorem told_of_debug (hd : c.options.debug = true) (ns : List Note) : c.told ns = ns :=
  if_pos hd

theorem told_of_silent (hd : c.options.debug = false) (ns : List Note) : c.told ns = [] :=
  if_neg (by rw [hd]; exact Bool.false_ne_true)

theorem told_append (ns ns' : List Note) : c.told (ns ++ ns') = c.told ns ++ c.told ns' := by
  unfold told
  split <;> rfl

/-! ### a step -/

theorem next_of_done (h : hasTokenSign s.text = false) : c.next s = ⟨[], .ok none⟩ := by
  unfold next nextBy
  rw [h]
  rfl

theorem next_of_cap (h : hasTokenSign s.text = true) (hcap : c.atCap s.passes = true) :
    c.next s = ⟨[.capped s.passes s.text], .ok none⟩ := by
  unfold next nextBy
  rw [h, hcap]
  rfl

/-- A pass that changes nothing ends the run. -/
theorem next_of_pass (h : hasTokenSign s.text = true) (hcap : c.atCap s.passes = false)
    (ht : (pass c.context s.text).outcome = .ok t) :
    c.next s =
      if t = s.text then ⟨c.told (c.onePass s.passes s.text t) ++ [.stuck s.text], .ok none⟩
      else ⟨c.told (c.onePass s.passes s.text t), .ok (some ⟨s.passes + 1, t⟩)⟩ := by
  -- the notes of the pass stand between two notes that are made in debug mode only
  have hnotes : c.told (c.onePass s.passes s.text t) =
      (if c.context.options.debug then [.parsing (s.passes + 1) s.text] else []) ++
        ((pass c.context s.text).notes ++
          if c.context.options.debug then [.parsed (s.passes + 1) t] else []) := by
    cases hd : c.options.debug with
    | false =>
      rw [told_of_silent hd, pass_notes_of_silent hd, context, hd]
      rfl
    | true =>
      rw [told_of_debug hd, context, hd]
      rfl
  unfold next nextBy
  generalize pass c.context s.text = x at ht hnotes ⊢
  obtain ⟨ns, o⟩ := x
  obtain rfl : o = .ok t := ht
  rw [if_pos h, if_neg (by rw [hcap]; exact Bool.false_ne_true), hnotes]
  simp only [noteIf_eq, Noted.bind_ok]
  by_cases hsame : t = s.text
  · simp only [if_pos hsame, Noted.tell, Noted.bind_ok, Noted.pure_def]
    simp
  · simp only [if_neg hsame, Noted.pure_def, List.append_nil]

theorem pass_ok_of_next {o : Option Stage} (h : (c.next s).outcome = .ok o)
    (htoken : hasTokenSign s.text = true) (hcap : c.atCap s.passes = false) :
    ∃ t, (pass c.context s.text).outcome = .ok t := by
  rw [next_outcome, if_pos ⟨htoken, hcap⟩] at h
  cases hp : (pass c.context s.text).outcome with
  | error e =>
    rw [hp] at h
    cases h
  | ok t => exact ⟨t, rfl⟩

theorem next_notes_of_none (h : (c.next ⟨n, t⟩).outcome = .ok none) :
    (c.next ⟨n, t⟩).notes =
        c.told (c.passNotes n t (if c.isStuck n t then [t] else [])) ++ c.ending n t ∧
      (c.isStuck n t = true → (pass c.context t).outcome = .ok t) := by
  unfold isStuck ending
  cases htoken : hasTokenSign t with
  | false =>
    rw [next_of_done htoken]
    exact ⟨by simp [passNotes_nil, told_nil], nofun⟩
  | true =>
    cases hcap : c.atCap n with
    | true =>
      rw [next_of_cap htoken hcap]
      exact ⟨by simp [passNotes_nil, told_nil], nofun⟩
    | false =>
      obtain ⟨t', ht'⟩ := pass_ok_of_next h htoken hcap
      rw [next_of_pass htoken hcap ht'] at h ⊢
      by_cases hsame : t' = t
      · obtain rfl := hsame
        exact ⟨by simp [passNotes_cons, passNotes_nil], fun _ => ht'⟩
      · rw [if_neg hsame] at h
        cases h

theorem next_notes_of_some {s' : Stage} (h : (c.next s).outcome = .ok (some s')) :
    (c.next s).notes = c.told (c.onePass s.passes s.text s'.text) := by
  obtain ⟨hpass, hne, _⟩ := next_outcome_some h
  rw [next_outcome] at h
  split at h
  · next hdue => rw [next_of_pass hdue.1 hdue.2 hpass, if_neg hne]
  · cases h

/-! ### all steps -/

/-- A run tells its passes, the one that leaves the last text as it is included, and then warns, if it
ends with a token left. -/
theorem textsFrom_notes (h : (c.textsFrom limit ⟨n, t⟩).outcome = .ok ts) :
    let last := ts.getLastD t
    (c.textsFrom limit ⟨n, t⟩).notes =
        c.told (c.passNotes n t (ts ++ if c.isStuck (n + ts.length) last then [last] else [])) ++
          c.ending (n + ts.length) last ∧
      (c.isStuck (n + ts.length) last = true → (pass c.context last).outcome = .ok last) := by
  induction limit generalizing n t ts with
  | zero => cases h
  | succ limit ih =>
    rcases textsFrom_outcome_ok.mp h with ⟨hn, rfl⟩ | ⟨⟨n', t'⟩, ts', hn, hts, rfl⟩
    · have hnotes := next_notes_of_none hn
      rw [textsFrom_succ, Noted.notes_bind_of_ok (Noted.outcome_mapError_eq_ok.mpr hn)]
      simpa [Noted.pure_def, Noted.mapError] using hnotes
    · obtain rfl : n' = n + 1 := (next_outcome_some hn).2.2
      obtain ⟨hrest, hstuck⟩ := ih hts
      have hlast : (t' :: ts').getLastD t = ts'.getLastD t' := List.getLastD_cons
      have hlength : n + (t' :: ts').length = n + 1 + ts'.length := by
        rw [List.length_cons]
        omega
      rw [textsFrom_succ, Noted.notes_bind_of_ok (Noted.outcome_mapError_eq_ok.mpr hn)]
      dsimp only
      rw [Noted.notes_bind_of_ok hts, hrest, hlast, hlength]
      refine ⟨?_, hstuck⟩
      show (c.next ⟨n, t⟩).notes ++ (_ ++ []) = _
      rw [next_notes_of_some hn, List.append_nil, List.cons_append, passNotes_cons, told_append,
        List.append_assoc]

/-- A run makes no more passes than its cap allows. -/
theorem textsFrom_le_cap {cap : Nat} (hcap : c.options.maxPasses = some cap) (hn : n ≤ cap)
    (h : (c.textsFrom limit ⟨n, t⟩).outcome = .ok ts) : n + ts.length ≤ cap := by
  induction limit generalizing n t ts with
  | zero => cases h
  | succ limit ih =>
    rcases textsFrom_outcome_ok.mp h with ⟨_, rfl⟩ | ⟨⟨n', t'⟩, ts', hnext, hts, rfl⟩
    · exact hn
    · obtain rfl : n' = n + 1 := (next_outcome_some hnext).2.2
      have hlt : n < cap := by
        rw [next_outcome] at hnext
        split at hnext
        · next hdue =>
          have hdue : c.atCap n = false := hdue.2
          rw [atCap, hcap] at hdue
          exact Nat.lt_of_not_le (of_decide_eq_false hdue)
        · cases hnext
      have hrest := ih hlt hts
      rw [List.length_cons]
      omega

/-! ### warnings -/

theorem isWarning_of_mem_passNotes {m : Note} (h : m ∈ c.passNotes n t ts) : m.isWarning = false := by
  induction ts generalizing n t with
  | nil => cases h
  | cons t' ts ih =>
    rw [passNotes_cons, onePass, List.cons_append, List.cons_append, List.append_assoc] at h
    rcases List.mem_cons.mp h with rfl | h
    · rfl
    rcases List.mem_append.mp h with h | h
    · exact (pass_notes t m h).2.isWarning
    rcases List.mem_cons.mp h with rfl | h
    · rfl
    · exact ih h

theorem filter_isWarning (n' : Nat) (t' : Text) :
    (c.told (c.passNotes n t ts) ++ c.ending n' t').filter Note.isWarning = c.ending n' t' := by
  have hpasses : (c.told (c.passNotes n t ts)).filter Note.isWarning = [] := by
    refine List.filter_eq_nil_iff.mpr fun m hm => ?_
    unfold told at hm
    split at hm
    · rw [isWarning_of_mem_passNotes hm]
      exact Bool.false_ne_true
    · cases hm
  have hending : (c.ending n' t').filter Note.isWarning = c.ending n' t' := by
    unfold ending
    split
    · split <;> rfl
    · rfl
  rw [List.filter_append, hpasses, hending, List.nil_append]

end

/-- A citation that is built warns at most once, and it warns exactly if the text before the escapes
are taken away still holds a token: of the cap, if that many passes have been made, and otherwise of
the last text, which a pass has left as it is.  Without debug mode that is all that is told.  In debug
mode the passes are told one after the other, each with its number and text before it and with the next
text behind it, from the template through all texts, and the last text once more if a pass has left it
as it is; between the two notes of a pass stand only notes of its leaves. -/
theorem told_ending (c : Citation) {limit : Nat} {s : Text}
    (h : (c.build limit).outcome = .ok s) :
    ∃ ts, (c.texts limit).outcome = .ok ts ∧
      s = Escaper.syntaxSigns.unescape (ts.getLastD c.template) ∧
      let last := ts.getLastD c.template
      let stuck := c.isStuck ts.length last
      (((c.build limit).notes.filter Note.isWarning).map Note.message =
        if hasTokenSign last then
          [if c.atCap ts.length then
              "stopped after ".toList ++ Text.ofNat ts.length ++
                " passes with tokens left: ".toList ++ Text.quoted last
            else "tokens outside any resolvable fragment left as-is: ".toList ++ Text.quoted last]
        else []) ∧
      (c.atCap ts.length = true → c.options.maxPasses = some ts.length) ∧
      (stuck = true → (Render.pass c.context last).outcome = .ok last) ∧
      (c.options.debug = false → (c.build limit).notes = c.ending ts.length last) ∧
      (c.options.debug = true →
        (c.build limit).notes =
          c.passNotes 0 c.template (ts ++ if stuck then [last] else []) ++
            c.ending ts.length last) ∧
      ∀ t, ∀ n ∈ (Render.pass c.context t).notes, n.OfLeaf := by
  obtain ⟨ts, hts, hs⟩ := Noted.outcome_bind_eq_ok.mp h
  obtain ⟨hnotes, hstuck⟩ := textsFrom_notes hts
  rw [Nat.zero_add] at hnotes hstuck
  have hbuild : (c.build limit).notes = (c.textsFrom limit ⟨0, c.template⟩).notes := by
    unfold build
    rw [Noted.notes_bind_of_ok hts]
    exact List.append_nil _
  refine ⟨ts, hts, (Noted.outcome_pure_eq_ok.mp hs).symm, ?_, ?_, hstuck, fun hd => ?_, fun hd => ?_,
    fun t n hn => (pass_notes t n hn).2⟩
  · rw [hbuild, hnotes, filter_isWarning, ending]
    split
    · split <;> rfl
    · rfl
  · intro hcap
    cases hmax : c.options.maxPasses with
    | none =>
      rw [atCap, hmax] at hcap
      cases hcap
    | some cap =>
      rw [atCap, hmax] at hcap
      have hle := textsFrom_le_cap hmax (Nat.zero_le cap) hts
      have hge : cap ≤ ts.length := of_decide_eq_true hcap
      rw [show cap = ts.length by omega]
  · rw [hbuild, hnotes, told_of_silent hd, List.nil_append]
  · rw [hbuild, hnotes, told_of_debug hd]

/-- A token between the only fragments, in debug mode. -/
def leftOver : Citation where
  template := "\x7b@a\x7d @b\x7bx\x7d".toList
  data := [(.text ['a'], .text ['A'])]
  options := { debug := true }
  accepted := by rfl

/-- A first pass fills the one fragment, and a second one leaves the text as it is. -/
theorem told_ending_leftOver :
    (leftOver.build 3).outcome = .ok "A @b\x7bx\x7d".toList ∧
    ((leftOver.build 3).notes.filter Note.isWarning).map Note.message =
      ["tokens outside any resolvable fragment left as-is: 'A @b\x7bx\x7d'".toList] := by
  have hbuild : (leftOver.build 3).outcome = .ok "A @b\x7bx\x7d".toList := by decide +kernel
  have htexts : (leftOver.texts 3).outcome = .ok ["A @b\x7bx\x7d".toList] := by decide +kernel
  obtain ⟨ts, hts, _, hwarning, _⟩ := told_ending leftOver hbuild
  obtain rfl := Except.ok.inj (htexts.symm.trans hts)
  exact ⟨hbuild, hwarning.trans (by decide +kernel)⟩

end Citation
end Citations
