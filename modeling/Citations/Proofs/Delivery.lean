import Citations.Proofs.Endings
import Citations.Proofs.Verbatim

/-!
# What a run delivers

A run that succeeds has written one citation: that of an engine with the options that arguments and
environment ask for, over the template and the data that the arguments give.

* `Entries.get?_insert`, `Entries.get?_overlay`   what keys stand for after changes;
* `Command.Assigned`     an assignment among the arguments that no later one takes back;
* `Command.TurnedOn`     a variable that turns a flag on;
* `Command.Asked`        the options that are asked for;
* `World.Overlaid`       what keys stand for in the data of a run;
* `World.run_delivers`   what is written, and when.
-/

namespace Citations

/-! ## keys -/

namespace Value

theorem sameKey_text_iff {k : Value} {key : Text} :
    k.sameKey (.text key) = true ↔ k = .text key := by
  cases k <;> simp [sameKey, sameNumber, whole?]

theorem text_sameKey_iff {k : Value} {key : Text} :
    (Value.text key).sameKey k = true ↔ k = .text key := by
  cases k with
  | text t =>
    rw [sameKey_text, beq_iff_eq, Value.text.injEq]
    exact eq_comm
  | _ => simp [sameKey, sameNumber, whole?]

/-- Whether a value is a given text shows in any value that is the same key. -/
theorem sameKey_text_congr {k k' : Value} (h : k'.sameKey k = true) (key : Text) :
    k'.sameKey (.text key) = k.sameKey (.text key) := by
  rw [Bool.eq_iff_iff, sameKey_text_iff, sameKey_text_iff]
  constructor
  · intro hk
    rw [hk] at h
    exact text_sameKey_iff.mp h
  · intro hk
    rw [hk] at h
    exact sameKey_text_iff.mp h

end Value

namespace Entries

theorem get?_cons (key : Text) (e : Value × Value) (es : Entries) :
    get? key (e :: es) = if e.1.sameKey (.text key) then some e.2 else get? key es := by
  unfold get?
  rw [List.find?_cons]
  cases e.1.sameKey (.text key) <;> rfl

theorem get?_insert (key : Text) (k v : Value) (es : Entries) :
    get? key (insert k v es) = if k.sameKey (.text key) then some v else get? key es := by
  induction es with
  | nil => exact get?_cons key (k, v) []
  | cons e es ih =>
    obtain ⟨k', v'⟩ := e
    rw [insert]
    split
    · next h =>
      rw [get?_cons, get?_cons, Value.sameKey_text_congr h]
      split <;> rfl
    · next h =>
      rw [get?_cons, get?_cons, ih]
      split
      · next hk' =>
        rw [if_neg]
        intro hk
        obtain rfl : k' = .text key := Value.sameKey_text_iff.mp hk'
        exact h (Value.text_sameKey_iff.mpr (Value.sameKey_text_iff.mp hk))
      · rfl

/-- Changes to other keys. -/
theorem get?_foldl_insert_of_ne {key : Text} {es : List (Value × Value)}
    (h : ∀ e ∈ es, e.1 ≠ .text key) (old : Entries) :
    get? key (es.foldl (fun acc e => insert e.1 e.2 acc) old) = get? key old := by
  induction es generalizing old with
  | nil => rfl
  | cons e es ih =>
    obtain ⟨he, hes⟩ := List.forall_mem_cons.mp h
    rw [List.foldl_cons, ih hes, get?_insert, if_neg]
    exact fun hk => he (Value.sameKey_text_iff.mp hk)

/-- The last change to a key counts. -/
theorem get?_foldl_insert_of_last {key : Text} {after : List (Value × Value)}
    (h : ∀ e ∈ after, e.1 ≠ .text key) (before : List (Value × Value)) (v : Value)
    (old : Entries) :
    get? key ((before ++ (.text key, v) :: after).foldl (fun acc e => insert e.1 e.2 acc) old) =
      some v := by
  rw [List.foldl_append, List.foldl_cons, get?_foldl_insert_of_ne h]
  exact get?_insert_self key v _

/-! ## entries over others -/

theorem mem_keys_insert {k v x : Value} {es : Entries} (h : x ∈ (insert k v es).map (·.1)) :
    x = k ∨ x ∈ es.map (·.1) := by
  induction es with
  | nil => exact Or.inl (List.mem_singleton.mp h)
  | cons e es ih =>
    obtain ⟨k', v'⟩ := e
    rw [insert] at h
    split at h
    · exact Or.inr h
    · rcases List.mem_cons.mp h with hx | hx
      · exact Or.inr (List.mem_cons.mpr (Or.inl hx))
      · exact (ih hx).imp_right (List.mem_cons_of_mem _)

/-- A change at a text keeps the keys different. -/
theorem nodup_keys_insert {es : Entries} (h : (es.map (·.1)).Nodup) (key : Text) (v : Value) :
    ((insert (.text key) v es).map (·.1)).Nodup := by
  induction es with
  | nil => exact List.nodup_cons.mpr ⟨List.not_mem_nil, List.nodup_nil⟩
  | cons e es ih =>
    obtain ⟨k', v'⟩ := e
    have hcons := List.nodup_cons.mp h
    rw [insert]
    split
    · exact h
    · next hk =>
      refine List.nodup_cons.mpr ⟨?_, ih hcons.2⟩
      intro hmem
      rcases mem_keys_insert hmem with hk' | hk'
      · exact hk (Value.sameKey_text_iff.mpr hk')
      · exact hcons.1 hk'

theorem nodup_keys_ofList {es : List (Value × Value)} (h : ∀ e ∈ es, ∃ key, e.1 = .text key) :
    ((ofList es).map (·.1)).Nodup := by
  have hfold : ∀ old : Entries, (old.map (·.1)).Nodup →
      ((es.foldl (fun acc e => insert e.1 e.2 acc) old).map (·.1)).Nodup := by
    induction es with
    | nil => exact fun _ hold => hold
    | cons e es ih =>
      intro old hold
      obtain ⟨⟨key, hkey⟩, hes⟩ := List.forall_mem_cons.mp h
      refine ih hes _ ?_
      show ((insert e.1 e.2 old).map (·.1)).Nodup
      rw [hkey]
      exact nodup_keys_insert hold key e.2
  exact hfold [] List.nodup_nil

theorem get?_eq_none {key : Text} {es : Entries} (h : .text key ∉ es.map (·.1)) :
    get? key es = none := by
  induction es with
  | nil => rfl
  | cons e es ih =>
    rw [List.map_cons, List.mem_cons, not_or] at h
    rw [get?_cons, if_neg, ih h.2]
    exact fun hk => h.1 (Value.sameKey_text_iff.mp hk).symm

theorem get?_overlay {new : Entries} (h : (new.map (·.1)).Nodup) (key : Text) (old : Entries) :
    get? key (old.overlay new) = (get? key new).or (get? key old) := by
  unfold overlay
  induction new generalizing old with
  | nil => rfl
  | cons e es ih =>
    rw [List.map_cons, List.nodup_cons] at h
    rw [List.foldl_cons, ih h.2, get?_insert, get?_cons]
    split
    · next hk =>
      rw [get?_eq_none (Value.sameKey_text_iff.mp hk ▸ h.1)]
      rfl
    · rfl

end Entries

/-! ## assignments -/

namespace Command

/-- The argument `v` assigns `value` to `key`: the key is what stands before the first `=`, without
the blanks around it, and the value all that stands behind. -/
def Assigns (v : Operand) (key value : Text) : Prop :=
  ∃ k, v = .text (k ++ '=' :: value) ∧ '=' ∉ k ∧ k.Trims key

/-- An assignment among the arguments that no later one takes back. -/
def Assigned (vs : List Operand) (key value : Text) : Prop :=
  ∃ before v after, vs = before ++ v :: after ∧ Assigns v key value ∧
    ∀ v' ∈ after, ∀ value', ¬ Assigns v' key value'

theorem assignment_eq_ok {v : Operand} {p : Value × Value}
    (h : assignment (v.text?.getD noAssignment) = .ok p) :
    ∃ key value, Assigns v key value ∧ p = (.text key, .text value) := by
  cases v with
  | nothing => cases h
  | text t =>
    have h : assignment t = .ok p := h
    unfold assignment at h
    cases hcut : Text.cutAt '=' t with
    | none =>
      rw [hcut] at h
      cases h
    | some kv =>
      obtain ⟨k, value⟩ := kv
      obtain ⟨ht, hk⟩ := Text.eq_of_cutAt hcut
      rw [hcut] at h
      dsimp only at h
      split at h
      · cases h
      · cases h
        exact ⟨_, value, ⟨k, by rw [ht], hk, Text.trims_trimmed k⟩, rfl⟩

theorem Assigns.unique {v : Operand} {key key' value value' : Text} (h : Assigns v key value)
    (h' : Assigns v key' value') : key = key' ∧ value = value' := by
  obtain ⟨k, rfl, hk, hkey⟩ := h
  obtain ⟨k', hv, hk', hkey'⟩ := h'
  have hcut := Text.cutAt_append hk value
  rw [Operand.text.inj hv, Text.cutAt_append hk' value'] at hcut
  cases hcut
  exact ⟨(Text.trimmed_of_trims hkey).symm.trans (Text.trimmed_of_trims hkey'), rfl⟩

theorem map_of_mapM {ε α β : Type} {f : α → Except ε β} {as : List α} {bs : List β}
    (h : as.mapM f = .ok bs) : as.map f = bs.map .ok := by
  induction as generalizing bs with
  | nil =>
    cases h
    rfl
  | cons a as ih =>
    rw [List.mapM_cons] at h
    obtain ⟨b, hb, h⟩ := bind_eq_ok.mp h
    obtain ⟨bs', hbs, h⟩ := bind_eq_ok.mp h
    cases h
    rw [List.map_cons, List.map_cons, hb, ih hbs]

section
variable {vs : List Operand} {new : Entries}

theorem assignments_eq_ok (h : assignments vs = .ok new) :
    ∃ ps, vs.map (fun v => assignment (v.text?.getD noAssignment)) = ps.map .ok ∧
      new = Entries.ofList ps := by
  obtain ⟨ps, hps, hnew⟩ := map_eq_ok.mp h
  exact ⟨ps, map_of_mapM hps, hnew.symm⟩

/-- The assignments that are made, one for each argument. -/
theorem assigns_of_mem {ps : List (Value × Value)} {vs : List Operand}
    (h : vs.map (fun v => assignment (v.text?.getD noAssignment)) = ps.map .ok)
    {p : Value × Value} (hp : p ∈ ps) :
    ∃ v ∈ vs, ∃ key value, Assigns v key value ∧ p = (.text key, .text value) := by
  have hmem : Except.ok p ∈ vs.map fun v => assignment (v.text?.getD noAssignment) := by
    rw [h]
    exact List.mem_map_of_mem hp
  obtain ⟨v, hv, hp⟩ := List.mem_map.mp hmem
  exact ⟨v, hv, assignment_eq_ok hp⟩

theorem nodup_keys_assignments (h : assignments vs = .ok new) : (new.map (·.1)).Nodup := by
  obtain ⟨ps, hps, rfl⟩ := assignments_eq_ok h
  refine Entries.nodup_keys_ofList fun p hp => ?_
  obtain ⟨v, _, key, value, _, rfl⟩ := assigns_of_mem hps hp
  exact ⟨key, rfl⟩

theorem get?_assignments_of_assigned (h : assignments vs = .ok new) {key value : Text}
    (ha : Assigned vs key value) : new.get? key = some (.text value) := by
  obtain ⟨ps, hps, rfl⟩ := assignments_eq_ok h
  obtain ⟨before, v, after, rfl, hv, hafter⟩ := ha
  rw [List.map_append, List.map_cons] at hps
  obtain ⟨ps₁, ps', rfl, _, hps'⟩ := List.map_eq_append_iff.mp hps.symm
  obtain ⟨p, ps₂, rfl, hp, hps₂⟩ := List.map_eq_cons_iff.mp hps'
  obtain ⟨key', value', hv', rfl⟩ := assignment_eq_ok hp.symm
  obtain ⟨rfl, rfl⟩ := hv.unique hv'
  refine Entries.get?_foldl_insert_of_last ?_ ps₁ (.text value) []
  intro e he hkey
  obtain ⟨v', hmem, key', value', hv'', rfl⟩ := assigns_of_mem hps₂.symm he
  cases hkey
  exact hafter v' hmem value' hv''

theorem get?_assignments_of_not (h : assignments vs = .ok new) {key : Text}
    (ha : ∀ v ∈ vs, ∀ value, ¬ Assigns v key value) : new.get? key = none := by
  obtain ⟨ps, hps, rfl⟩ := assignments_eq_ok h
  refine Entries.get?_foldl_insert_of_ne (fun e he hkey => ?_) []
  obtain ⟨v, hmem, key', value, hv, rfl⟩ := assigns_of_mem hps he
  cases hkey
  exact ha v hmem value hv

end

/-! ## options -/

/-- The variable is set to one of the words that turn a flag on, in whatever letters, with blanks
around it or without. -/
def TurnedOn (env : List (Text × Text)) (name : Text) : Prop :=
  ∃ v word, Options.setting? env name = some v ∧ v.Trims word ∧
    word.map Char.toLower ∈ Options.trueWords

theorem flag_iff (env : List (Text × Text)) (name : Text) :
    Options.flag env name = true ↔ TurnedOn env name := by
  unfold Options.flag
  constructor
  · intro h
    cases hv : Options.setting? env name with
    | none =>
      rw [hv] at h
      cases h
    | some v =>
      rw [hv] at h
      exact ⟨v, Text.trimmed v, hv, Text.trims_trimmed v, List.contains_iff_mem.mp h⟩
  · rintro ⟨v, word, hv, hword, hmem⟩
    rw [hv]
    show Options.trueWords.contains ((Text.trimmed v).map Char.toLower) = true
    rw [Text.trimmed_of_trims hword]
    exact List.contains_iff_mem.mpr hmem

/-- The options that arguments and environment ask for.  A flag counts wherever it is set; a
separator that is given counts before one of the environment, even if it is empty. -/
structure Asked (env : List (Text × Text)) (a : Arguments) (o : Options) : Prop where
  debug : o.debug = true ↔ a.debug = true ∨ TurnedOn env Options.debugName
  strict : o.strict = true ↔ a.strict = true ∨ TurnedOn env Options.strictName
  given : ∀ t, a.separator = some (.text t) → o.comboSeparator = t
  set : (∀ t, a.separator ≠ some (.text t)) →
    ∀ t, t ≠ [] → Options.setting? env Options.separatorName = some t → o.comboSeparator = t
  unset : (∀ t, a.separator ≠ some (.text t)) →
    (∀ t, Options.setting? env Options.separatorName = some t → t = []) →
    o.comboSeparator = ", ".toList
  placeholder : o.placeholder = "[\x7bkey\x7d]".toList
  maxPasses : o.maxPasses = none

section
variable {env : List (Text × Text)} {a : Arguments} {o o' : Options}

theorem separator_eq_none (h : ∀ t, a.separator ≠ some (.text t)) :
    a.separator.bind Operand.text? = none := by
  cases hs : a.separator with
  | none => rfl
  | some v =>
    cases v with
    | text t => exact absurd hs (h t)
    | nothing => rfl

theorem asked_options (env : List (Text × Text)) (a : Arguments) : Asked env a (options env a) where
  debug := by
    rw [← flag_iff, ← Bool.or_eq_true]
    rfl
  strict := by
    rw [← flag_iff, ← Bool.or_eq_true]
    rfl
  given := by
    intro t ht
    show (a.separator.bind Operand.text?).getD _ = t
    rw [ht]
    rfl
  set := by
    intro hnone t ht hset
    unfold options Options.ofEnvironment
    rw [separator_eq_none hnone, hset]
    cases t with
    | nil => exact absurd rfl ht
    | cons c t => rfl
  unset := by
    intro hnone hset
    unfold options Options.ofEnvironment
    rw [separator_eq_none hnone]
    cases hs : Options.setting? env Options.separatorName with
    | none => rfl
    | some t =>
      rw [hset t hs]
      rfl
  placeholder := rfl
  maxPasses := rfl

theorem Asked.separator_unique (h : Asked env a o) (h' : Asked env a o') :
    o.comboSeparator = o'.comboSeparator := by
  by_cases hgiven : ∃ t, a.separator = some (.text t)
  · obtain ⟨t, ht⟩ := hgiven
    rw [h.given t ht, h'.given t ht]
  · have hnone : ∀ t, a.separator ≠ some (.text t) := fun t ht => hgiven ⟨t, ht⟩
    by_cases hset : ∃ t, t ≠ [] ∧ Options.setting? env Options.separatorName = some t
    · obtain ⟨t, ht, hs⟩ := hset
      rw [h.set hnone t ht hs, h'.set hnone t ht hs]
    · have hunset : ∀ t, Options.setting? env Options.separatorName = some t → t = [] := by
        intro t hs
        by_cases ht : t = []
        · exact ht
        · exact absurd ⟨t, ht, hs⟩ hset
      rw [h.unset hnone hunset, h'.unset hnone hunset]

theorem Asked.unique (h : Asked env a o) (h' : Asked env a o') : o = o' := by
  have hdebug : o.debug = o'.debug := Bool.eq_iff_iff.mpr (h.debug.trans h'.debug.symm)
  have hstrict : o.strict = o'.strict := Bool.eq_iff_iff.mpr (h.strict.trans h'.strict.symm)
  have hseparator := h.separator_unique h'
  have hplaceholder := h.placeholder.trans h'.placeholder.symm
  have hmaxPasses := h.maxPasses.trans h'.maxPasses.symm
  cases o
  cases o'
  congr

end

end Command

namespace World
open Command

/-! ## data -/

/-- Entries under assignments: an assigned key stands for the value of its last assignment, another
for what it stood for before. -/
structure Overlaid (vs : List Operand) (old es : Entries) : Prop where
  assigned : ∀ key value, Assigned vs key value → es.get? key = some (.text value)
  kept : ∀ key, (∀ v ∈ vs, ∀ value, ¬ Assigns v key value) → es.get? key = old.get? key

theorem overlaid_data {a : Arguments} {w : World} {es : Entries} (h : w.data a = .ok es) :
    ∃ old, w.entries a = .ok old ∧ Overlaid a.assignments old es := by
  obtain ⟨old, new, hold, hnew, rfl⟩ := data_eq_ok h
  refine ⟨old, hold, ?_, ?_⟩
  · intro key value ha
    rw [Entries.get?_overlay (nodup_keys_assignments hnew), get?_assignments_of_assigned hnew ha]
    rfl
  · intro key ha
    rw [Entries.get?_overlay (nodup_keys_assignments hnew), get?_assignments_of_not hnew ha]
    rfl

/-! ## delivery -/

section
variable {limit : Nat} {env : List (Text × Text)} {a : Arguments} {w : World}

/-- An output that takes the line of a citation. -/
def Writable (a : Arguments) (s : Text) (w : World) : Prop :=
  textOrEmpty a.output = [] ∨ (textOrEmpty a.output).contains (Char.ofNat 0) = false ∧
    ∃ files,
      w.files.write (Path.ofText (textOrEmpty a.output)) (Utf8.encode (s ++ ['\n'])) = .ok files

theorem Writable.opens {s : Text} (h : Writable a s w) : outputFaults a w = [] := by
  unfold outputFaults
  dsimp only
  obtain hout | ⟨hnull, files, hwrite⟩ := h
  · exact if_pos hout
  · rw [hnull, if_neg Bool.false_ne_true]
    cases hopen : w.files.write (Path.ofText (textOrEmpty a.output)) [] with
    | ok files' => split <;> rfl
    | error e =>
      rw [FileTree.write_of_unopened hopen] at hwrite
      cases hwrite

theorem Writable.takes_line {s : Text} (h : Writable a s w) : lineFaults a w (.ok s) = [] := by
  unfold lineFaults
  dsimp only
  obtain hout | ⟨_, files, hwrite⟩ := h
  · exact if_pos (Or.inl hout)
  · have hwrite : w.files.write _ (lineBytes (.ok s)) = .ok files := hwrite
    rw [hwrite]
    split <;> rfl

/-- The citation of an engine is that of a run, if the run lacks nothing that the engine has and the
citation holds no half of a pair. -/
theorem cited_of_render {o : Options} {t s : Text} {es : Entries} (ho : Asked env a o)
    (hrender : ((⟨o⟩ : Engine).render limit t (.dict es)).outcome = .ok s)
    (hlacks : ∀ e, Lacks e →
      (Rendering.rendered w.stack limit o (a.separator ≠ some .nothing) t es).outcome ≠ .error e)
    (hhalves : Rendering.holdsHalves es = true →
      Rendering.citation (Rendering.rendered w.stack limit o (a.separator ≠ some .nothing) t) es =
        .ok (.ok s)) :
    w.cited limit env a t es = .ok (.ok s) := by
  obtain rfl := ho.unique (asked_options env a)
  cases hpaired : Rendering.holdsHalves es with
  | true => exact hhalves hpaired
  | false =>
    unfold cited
    rw [Rendering.citation_of_paired hpaired, Rendering.rendered_eq_render hlacks, hrender]
    rfl

/-- A run that succeeds has written one line, the citation of an engine with the options, template
and data that it is given; and it succeeds where there is such a citation, stack and separator
are not wanting for it, and the output takes it. -/
theorem run_delivers {arguments : List Text} {r : Except Stop Text} {w' : World}
    (h : Arguments.parse arguments = .ok a) (hrun : w.run limit env arguments = (r, w')) :
    (∀ s, r = .ok s → ∃ o t old es, Asked env a o ∧ w.template a = .ok (some t) ∧
      w.entries a = .ok old ∧ w.data a = .ok es ∧ Overlaid a.assignments old es ∧
      ((⟨o⟩ : Engine).render limit t (.dict es)).outcome = .ok s ∧ Written a s w w') ∧
    (∀ o t es s, Asked env a o → w.template a = .ok (some t) → w.data a = .ok es →
      ((⟨o⟩ : Engine).render limit t (.dict es)).outcome = .ok s →
      (∀ e, Lacks e →
        (Rendering.rendered w.stack limit o (a.separator ≠ some .nothing) t es).outcome ≠
          .error e) →
      (Rendering.holdsHalves es = true →
        Rendering.citation (Rendering.rendered w.stack limit o (a.separator ≠ some .nothing) t) es =
          .ok (.ok s)) →
      Writable a s w → r = .ok s) := by
  have hends : Ends limit env a w (r, w') := hrun ▸ run_ends h
  constructor
  · intro s hr
    cases hends with
    | halted => cases hr
    | delivered _ ht hd hc hwritten _ =>
      cases hr
      obtain ⟨old, hold, hover⟩ := overlaid_data hd
      exact ⟨options env a, _, old, _, asked_options env a, ht, hold, hd, hover,
        Rendering.render_of_rendered (Rendering.rendered_of_citation hc), hwritten⟩
  · intro o t es s ho ht hd hrender hlacks hhalves hwritable
    have hcited := cited_of_render ho hrender hlacks hhalves
    cases hends with
    | delivered _ ht' hd' hc' _ _ =>
      rw [ht] at ht'
      rw [hd] at hd'
      cases ht'
      cases hd'
      rw [hcited] at hc'
      cases hc'
      rfl
    | halted hfirst =>
      rw [faults_of_cited ht hd hcited, hwritable.opens, hwritable.takes_line] at hfirst
      cases hfirst

end

/-- A citation of one key, which an assignment gives. -/
def single : List Text := ["-t".toList, "\x7b@a\x7d".toList, "-e".toList, " a =1".toList]

def singleArguments : Arguments where
  template := some (.text "\x7b@a\x7d".toList)
  assignments := [.text " a =1".toList]

/-- The run with these arguments writes the value of the key. -/
theorem single_delivered :
    Arguments.parse single = .ok singleArguments ∧ (bare.run 3 [] single).1 = .ok ['1'] ∧
    (bare.run 3 [] single).2.output = ['1', '\n'] := by
  have hparse : Arguments.parse single = .ok singleArguments := by rfl
  have hrun : bare.run 3 [] single = ((bare.run 3 [] single).1, (bare.run 3 [] single).2) := rfl
  obtain ⟨hforward, hbackward⟩ := run_delivers hparse hrun
  have hpass : (Render.pass ⟨[(.text ['a'], .text ['1'])], options [] singleArguments, .blank⟩
      "\x7b@a\x7d".toList).outcome = .ok ['1'] := by
    rw [Render.pass_eq]
    rfl
  obtain ⟨c, hmake, hbuild⟩ : Citation.Builds (options [] singleArguments) "\x7b@a\x7d".toList
      [(.text ['a'], .text ['1'])] ['1'] :=
    Citation.builds_of_texts rfl rfl (Citation.texts_of_pass rfl rfl hpass) rfl
  have hcited := (Noted.outcome_bind_of_ok hmake _).trans (hbuild 3 (by omega))
  have hrendered : (Rendering.rendered shallow 3 (options [] singleArguments) true
      "\x7b@a\x7d".toList [(.text ['a'], .text ['1'])]).outcome.toOption = some ['1'] := by
    decide +kernel
  have hlacks : ∀ e, Lacks e → (Rendering.rendered bare.stack 3 (options [] singleArguments)
      (singleArguments.separator ≠ some .nothing) "\x7b@a\x7d".toList
      [(.text ['a'], .text ['1'])]).outcome ≠ .error e := by
    intro e _ he
    have hnone := (congrArg Except.toOption he).symm.trans hrendered
    cases hnone
  have hok := hbackward _ "\x7b@a\x7d".toList [(.text ['a'], .text ['1'])] ['1']
    (asked_options [] singleArguments) rfl rfl hcited hlacks (fun h => by cases h) (Or.inl rfl)
  obtain ⟨_, _, _, _, _, _, _, _, _, _, hwritten⟩ := hforward _ hok
  exact ⟨hparse, hok, hwritten.1⟩

end World
end Citations
