import Citations.Proofs.Suspension

/-!
# Capped runs

A cap is looked at before each pass and nowhere else, and a pass does not see it.  So the pass list of
a capped citation is that of the citation without the cap, broken off at the cap.  Things lie elsewhere
in each of two runs; this does not count, if they show no place.

* `Citation.capped`, `Citation.uncapped`   the citation with a cap in the place of its own, and with
                          none;
* `Citation.yielded k`    the texts that the first `k` questions to a run are answered with;
* `passList_capped`       the pass list under a cap;
* `passList_congr_places`   the pass list of two runs of one citation;
* `texts_congr`, `build_congr`   citations with one pass list are built alike;
* `cap_cuts_short`        texts and citation under a cap, and how those of two caps compare.
-/

namespace Citations
namespace Citation
open Render

/-! ## caps -/

/-- The citation with a cap in the place of its own. -/
def capped (c : Citation) (n : Nat) (hn : 0 < n) : Citation :=
  { c with
    options := { c.options with
      maxPasses := some n
      maxPasses_pos := fun _ h => Option.some.inj h ▸ hn } }

def uncapped (c : Citation) : Citation :=
  { c with options := { c.options with maxPasses := none, maxPasses_pos := Options.noCap_pos } }

section
variable {c : Citation} {n k : Nat} {hn : 0 < n}

theorem atCap_capped : (c.capped n hn).atCap k = decide (n ≤ k) := rfl
theorem atCap_uncapped : c.uncapped.atCap k = false := rfl

/-- A pass does not see the cap. -/
theorem pass_capped (t : Text) :
    Render.pass (c.capped n hn).context t = Render.pass c.uncapped.context t := rfl

theorem behind_capped (t : Text) :
    (c.capped n hn).behind k t = if k < n then c.uncapped.behind k t else .ended := by
  unfold behind
  rw [atCap_capped, atCap_uncapped, pass_capped]
  by_cases hk : k < n
  · simp [hk, Nat.not_le.mpr hk]
  · simp [hk, Nat.not_lt.mp hk]

theorem textAfter_capped (hk : k ≤ n) : (c.capped n hn).textAfter k = c.uncapped.textAfter k := by
  induction k with
  | zero => rfl
  | succ k ih =>
    have hbehind : (c.capped n hn).behind k = c.uncapped.behind k :=
      funext fun t => (behind_capped t).trans (if_pos hk)
    rw [textAfter, textAfter, ih (Nat.le_of_succ_le hk), hbehind]

/-- The cap breaks the list off. -/
theorem passList_capped (c : Citation) (hn : 0 < n) (k : Nat) :
    (c.capped n hn).passList k = if k < n then c.uncapped.passList k else .ended := by
  split
  · next hk =>
    have hbehind : (c.capped n hn).behind k = c.uncapped.behind k :=
      funext fun t => (behind_capped t).trans (if_pos hk)
    rw [passList, textAfter_capped (Nat.le_of_lt hk), hbehind, passList]
  · next hk =>
    rw [passList]
    cases (c.capped n hn).textAfter k with
    | none => rfl
    | some t => exact (behind_capped t).trans (if_neg hk)

end

/-! ## yielded texts -/

/-- The texts that the first `k` questions to a run are answered with. -/
def yielded (c : Citation) (k : Nat) : List Text :=
  (List.range k).filterMap fun i => (c.passList i).text?

section
variable {c c' : Citation} {m n k : Nat}

theorem yielded_succ (c : Citation) (k : Nat) :
    c.yielded (k + 1) = c.yielded k ++ (c.passList k).text?.toList := by
  rw [yielded, List.range_succ, List.filterMap_append]
  rfl

theorem yielded_add (c : Citation) (k j : Nat) : c.yielded k <+: c.yielded (k + j) := by
  induction j with
  | zero => exact List.prefix_refl _
  | succ j ih =>
    rw [← Nat.add_assoc, yielded_succ]
    exact ih.trans (List.prefix_append _ _)

theorem yielded_mono (c : Citation) (h : m ≤ n) : c.yielded m <+: c.yielded n := by
  obtain ⟨j, rfl⟩ := Nat.exists_eq_add_of_le h
  exact c.yielded_add m j

theorem length_yielded_le (c : Citation) (k : Nat) : (c.yielded k).length ≤ k := by
  have h := List.length_filterMap_le (fun i => (c.passList i).text?) (List.range k)
  rwa [List.length_range] at h

theorem yielded_capped (c : Citation) (hn : 0 < n) (k : Nat) :
    (c.capped n hn).yielded k = c.uncapped.yielded (min n k) := by
  induction k with
  | zero => rw [Nat.min_zero]; rfl
  | succ k ih =>
    rw [yielded_succ, ih, passList_capped]
    by_cases hk : k < n
    · rw [if_pos hk, Nat.min_eq_right (Nat.le_of_lt hk), Nat.min_eq_right hk, yielded_succ]
    · have hnk : n ≤ k := Nat.not_lt.mp hk
      rw [if_neg hk, Nat.min_eq_left hnk, Nat.min_eq_left (Nat.le_succ_of_le hnk)]
      exact List.append_nil _

/-! ## whole lists -/

theorem passList_ended_of_le (h : c.passList m = .ended) (hmn : m ≤ n) : c.passList n = .ended := by
  rcases Nat.lt_or_eq_of_le hmn with hlt | rfl
  · refine passList_eq_ended (fun t => ?_) hlt
    rw [h]
    exact nofun
  · exact h

/-- A list that ends, and without an error, holds the texts up to its end. -/
theorem listsFrom_range (hok : ∀ i e, c.passList i ≠ .failed e) (h : c.passList (m + k) = .ended) :
    c.ListsFrom m ((List.range' m k).filterMap fun i => (c.passList i).text?) := by
  induction k generalizing m with
  | zero => exact h
  | succ k ih =>
    have hrest := ih (m := m + 1) (by rwa [Nat.add_right_comm])
    rw [List.range'_succ]
    cases hp : c.passList m with
    | text t =>
      rw [List.filterMap_cons_some (b := t) (by rw [hp]; rfl)]
      exact ⟨hp, hrest⟩
    | failed e => exact absurd hp (hok m e)
    | ended =>
      have hnil : (List.range' (m + 1) k).filterMap (fun i => (c.passList i).text?) = [] := by
        refine List.filterMap_eq_nil_iff.mpr fun i hi => ?_
        have hmi : m ≤ i := Nat.le_of_succ_le (List.mem_range'_1.mp hi).1
        rw [passList_ended_of_le hp hmi]
        rfl
      rw [List.filterMap_cons_none (by rw [hp]; rfl), hnil]
      exact hp

theorem lists_yielded (hok : ∀ i e, c.passList i ≠ .failed e) (h : c.passList k = .ended) :
    c.Lists (c.yielded k) := by
  rw [yielded, List.range_eq_range']
  exact listsFrom_range hok (by rwa [Nat.zero_add])

/-- What a run leaves is known from its list. -/
theorem textsFrom_congr (hlist : ∀ i, c.passList i = c'.passList i) (limit : Nat) {t : Text}
    (ht : c.textAfter n = some t) (ht' : c'.textAfter n = some t) :
    (c.textsFrom limit ⟨n, t⟩).outcome = (c'.textsFrom limit ⟨n, t⟩).outcome := by
  induction limit generalizing n t with
  | zero => rw [textsFrom_zero, textsFrom_zero]
  | succ limit ih =>
    have hnext : (c.next ⟨n, t⟩).outcome = (c'.next ⟨n, t⟩).outcome := by
      rw [next_outcome_behind, next_outcome_behind, ← passList_of_textAfter ht,
        ← passList_of_textAfter ht', hlist]
    rw [textsFrom_succ, textsFrom_succ]
    refine Noted.outcome_bind_congr (by rw [Noted.mapError, Noted.mapError, hnext]) fun o ho => ?_
    cases o with
    | none => rfl
    | some s =>
      have hn := Noted.outcome_mapError_eq_ok.mp ho
      rw [next_outcome_behind, ← passList_of_textAfter ht] at hn
      cases hp : c.passList n with
      | text t' =>
        rw [hp] at hn
        obtain rfl := Option.some.inj (Except.ok.inj hn)
        have hrest := ih (n := n + 1) (t := t') (by rw [textAfter_succ, hp]; rfl)
          (by rw [textAfter_succ, ← hlist, hp]; rfl)
        exact Noted.outcome_bind_congr hrest fun _ _ => rfl
      | failed e => rw [hp] at hn; cases hn
      | ended => rw [hp] at hn; cases hn

theorem texts_congr (ht : c.template = c'.template) (hlist : ∀ i, c.passList i = c'.passList i)
    (limit : Nat) : (c.texts limit).outcome = (c'.texts limit).outcome := by
  have hstart : c'.start = c.start := by rw [start, start, ht]
  rw [texts, texts, hstart]
  exact textsFrom_congr hlist limit rfl (congrArg some ht.symm)

theorem build_congr (ht : c.template = c'.template) (hlist : ∀ i, c.passList i = c'.passList i)
    (limit : Nat) : (c.build limit).outcome = (c'.build limit).outcome :=
  build_outcome_congr ht (texts_congr ht hlist limit)

end

/-! ## runs under a cap -/

section
variable {c : Citation} {n : Nat}

theorem passList_congr_places {memory memory' : Memory}
    (h : memory = memory' ∨ c.options.Unplaced) :
    (c.inMemory memory).passList = (c.inMemory memory').passList := by
  rcases h with rfl | ho
  · rfl
  · rw [passList_inMemory ho, passList_inMemory ho]

theorem texts_capped (hn : 0 < n) (hok : ∀ k < n, ∀ e, c.uncapped.passList k ≠ .failed e)
    {limit : Nat} (hl : n < limit) :
    ((c.capped n hn).texts limit).outcome = .ok (c.uncapped.yielded n) := by
  have hok' : ∀ k e, (c.capped n hn).passList k ≠ .failed e := by
    intro k e
    rw [passList_capped]
    split
    · next hk => exact hok k hk e
    · exact nofun
  have hlists : (c.capped n hn).Lists ((c.capped n hn).yielded n) :=
    lists_yielded hok' ((passList_capped c hn n).trans (if_neg (Nat.lt_irrefl n)))
  rw [yielded_capped, Nat.min_self] at hlists
  exact texts_outcome_ok_iff.mpr ⟨hlists, Nat.lt_of_le_of_lt (length_yielded_le _ n) hl⟩

/-- With a cap `n` the pass list is that without a cap up to place `n`, and then has ended; so a run
yields the first `n` texts.  If none of these passes fails, the citation is the last of the texts, or
the template if there is none, without the escapes.  A lower cap yields a prefix of that, and where
the list without a cap has ended by place `n`, the cap changes neither list nor citation.  One run may
have things in other places than the other, if the options show none. -/
theorem cap_cuts_short (c : Citation) (hn : 0 < n) (memory memory' : Memory)
    (hplace : memory = memory' ∨ c.options.Unplaced) :
    let cut := fun m hm => (c.capped m hm).inMemory memory
    let whole := c.uncapped.inMemory memory'
    (∀ k, (cut n hn).passList k = if k < n then whole.passList k else .ended) ∧
    (∀ k, (cut n hn).yielded k = whole.yielded (min n k)) ∧
    ((∀ k < n, ∀ e, whole.passList k ≠ .failed e) → ∀ limit, n < limit →
      ((cut n hn).texts limit).outcome = .ok (whole.yielded n) ∧
      ((cut n hn).build limit).outcome =
        .ok (Escaper.syntaxSigns.unescape ((whole.yielded n).getLastD c.template))) ∧
    (∀ m (hm : 0 < m), m ≤ n → ∀ k,
      (cut m hm).yielded k <+: ((c.capped n hn).inMemory memory').yielded k) ∧
    ∀ m ≤ n, whole.passList m = .ended →
      (∀ k, (cut n hn).passList k = whole.passList k) ∧
      ∀ limit, ((cut n hn).build limit).outcome = (whole.build limit).outcome := by
  intro cut whole
  -- a capped run has the list that it would have in the places of the other
  have hcut : ∀ m hm, (cut m hm).passList = ((c.inMemory memory').capped m hm).passList :=
    fun m hm => passList_congr_places (c := c.capped m hm) hplace
  have hlist := passList_capped (c.inMemory memory') hn
  have hyielded : ∀ m hm k, (cut m hm).yielded k = whole.yielded (min m k) := by
    intro m hm k
    rw [yielded, hcut]
    exact yielded_capped (c.inMemory memory') hm k
  refine ⟨fun k => (congrFun (hcut n hn) k).trans (hlist k), hyielded n hn, fun hok limit hl => ?_,
    fun m hm hmn k => ?_, fun m hmn hend => ?_⟩
  · have hrun : (((c.inMemory memory').capped n hn).texts limit).outcome =
        .ok (whole.yielded n) := texts_capped (c := c.inMemory memory') hn hok hl
    have hsame : ((cut n hn).texts limit).outcome =
        (((c.inMemory memory').capped n hn).texts limit).outcome :=
      texts_congr (by rfl) (congrFun (hcut n hn)) limit
    have htexts := hsame.trans hrun
    exact ⟨htexts, build_outcome_ok htexts⟩
  · rw [hyielded, show ((c.capped n hn).inMemory memory').yielded k = whole.yielded (min n k) from
      yielded_capped (c.inMemory memory') hn k]
    exact yielded_mono _ (by omega)
  · have hsame : ∀ k, (cut n hn).passList k = whole.passList k := by
      intro k
      rw [hcut, hlist]
      split
      · rfl
      · next hk => exact (passList_ended_of_le hend (by omega)).symm
    exact ⟨hsame, build_congr rfl hsame⟩

/-- Of two passes the first cap allows one, and the second both. -/
theorem cap_cuts_short_nested :
    (Session.nested.capped 1 Nat.one_pos).yielded 5 = ["\x7bA@b\x7d".toList] ∧
    ((Session.nested.capped 2 Nat.two_pos).build 5).outcome =
      (Session.nested.uncapped.build 5).outcome := by
  have hplace : Session.nested.options.Unplaced := Options.unplaced_of_no_point (by decide)
  have hfirst : Session.nested.uncapped.yielded 1 = ["\x7bA@b\x7d".toList] := by decide +kernel
  have hend : Session.nested.uncapped.passList 2 = .ended := by decide +kernel
  obtain ⟨_, hyielded, _⟩ :=
    cap_cuts_short Session.nested Nat.one_pos .blank .blank (Or.inr hplace)
  obtain ⟨_, _, _, _, huncapped⟩ :=
    cap_cuts_short Session.nested Nat.two_pos .blank .blank (Or.inr hplace)
  exact ⟨(hyielded 5).trans hfirst, (huncapped 2 (Nat.le_refl 2) hend).2 5⟩

end

end Citation
end Citations
