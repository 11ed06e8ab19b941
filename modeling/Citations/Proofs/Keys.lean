import Citations.Proofs.Collapse
import Citations.Proofs.Combined
import Citations.Proofs.Reading

/-!
# The keys that a run reads

The keys of a run are those of the template as long as nothing can come to stand directly behind a
key that makes it longer.

* `Forest.exposed`    the filled forest may start with a character of a key;
* `Forest.guarded`    nothing exposed stands behind a token, at any depth;
* `Spells.readable`   a reader gets through a guarded template;
* `Twins.build`       then the citation is the same over all data that agree on its keys.
-/

namespace Citations

/-! ## guarded trees -/

namespace Forest
open Template Render

/-- The keys of all tokens, those in fragments included. -/
def allKeys : Forest → List Text
  | nil => []
  | char _ r => r.allKeys
  | token key r => key :: r.allKeys
  | fragment x r => x.allKeys ++ r.allKeys

/-- Whether the filled forest may start with a character of a key: a fragment may show a value of
any characters, or leave nothing. -/
def exposed : Forest → Bool
  | nil => false
  | char c _ => Text.isKeyChar c
  | token _ _ => true
  | fragment x r => x.exposed || r.exposed

/-- Whether no token has anything behind it that may make its key longer. -/
def guarded : Forest → Bool
  | nil => true
  | char _ r => r.guarded
  | token _ r => !r.exposed && r.guarded
  | fragment x r => x.guarded && r.guarded

/-- What reading the tokens `keys` of a fragment does to it. -/
inductive Spends : List Text → List Opened → List Opened → Prop where
  | none (ls : List Opened) : Spends [] ls ls
  | token {key : Text} {b : Bool} {ls : List Opened} :
      Spends [key] (⟨false, b⟩ :: ls) (⟨true, b⟩ :: ls)

theorem Spends.cons {key : Text} {keys : List Text} {ls ls' : List Opened}
    (h : Spends (key :: keys) ls ls') :
    keys = [] ∧ ∃ b ms, ls = ⟨false, b⟩ :: ms ∧ ls' = ⟨true, b⟩ :: ms := by
  cases h with
  | token => exact ⟨rfl, _, _, rfl, rfl⟩

section
variable {K : Text → Prop}

/-- A reader gets through a guarded forest, also behind a key if the forest is not exposed. -/
theorem WellFormed.reads {esc : Bool} {f : Forest} (hf : WellFormed esc f) (hg : f.guarded = true)
    (hK : ∀ key ∈ f.allKeys, K key) {b : Bool} (hb : b = true → f.exposed = false)
    {ls ls' : List Opened} (hls : Spends f.keys ls ls') :
    ∃ z, Reads K esc ⟨ls, .after b⟩ f.text z ∧ Reader.Le K z ⟨ls', .behind⟩ := by
  induction hf generalizing b ls ls' with
  | nil =>
    cases hls with
    | none => exact ⟨_, .nil, .of_place ls (settled_after b).le_behind⟩
  | @char esc c r hc hr ih =>
    obtain ⟨z, hz, hle⟩ := ih (b := false) hg hK nofun hls
    have hstep : Step K (sign esc c) c ⟨ls, .after b⟩ ⟨ls, .free⟩ := by
      rw [hc]
      cases b with
      | false => exact .free
      | true => exact .ends (hb rfl) .behind
    exact ⟨z, .cons hstep hz, hle⟩
  | @token key r hk hr ih =>
    obtain ⟨hexposed, hguarded⟩ : r.exposed = false ∧ r.guarded = true := by
      simpa [guarded] using hg
    obtain ⟨hkey, hrest⟩ := List.forall_mem_cons.mp hK
    obtain rfl : b = false := Bool.eq_false_iff.mpr fun h => nomatch hb h
    obtain ⟨hnone, b, ms, rfl, rfl⟩ := hls.cons
    have hspends : Spends r.keys (⟨true, b⟩ :: ms) (⟨true, b⟩ :: ms) := by
      rw [hnone]
      exact .none _
    -- what follows is read as behind a key, so it is read behind this one
    obtain ⟨z, hz, hle⟩ := ih (b := true) hguarded hrest (fun _ => hexposed) hspends
    have hplace : Place.Le K (.key ([] ++ key)) .behind := .key hkey
    obtain ⟨z', hz', hle'⟩ := hz.mono (.of_place _ hplace)
    refine ⟨z', ?_, hle'.trans hle⟩
    have hends : endsEscaping ('@' == '\\') key = false := endsEscaping_key hk.chars
    refine .cons .token (((reads_key hk.chars).mpr rfl).append ?_)
    rw [hends]
    exact hz'
  | @fragment x r key hx he hk hr ihx ihr =>
    obtain ⟨hgx, hgr⟩ : x.guarded = true ∧ r.guarded = true := by simpa [guarded] using hg
    obtain ⟨hKx, hKr⟩ := List.forall_mem_append.mp hK
    have hexposed : b = true → x.exposed = false ∧ r.exposed = false := fun h => by
      simpa [exposed] using hb h
    have hspends : Spends x.keys (⟨false, b⟩ :: ls) (⟨true, b⟩ :: ls) := by
      rw [hk]
      exact .token
    obtain ⟨m, hm, hle⟩ := ihx hgx hKx (fun h => (hexposed h).1) hspends
    have hclose : Step K .closing '}' ⟨⟨true, b⟩ :: ls, .behind⟩ ⟨ls, .after b⟩ := .closing .behind
    obtain ⟨n, hn, hle⟩ := hclose.mono hle
    obtain ⟨z, hz, hle'⟩ := ihr hgr hKr (fun h => (hexposed h).2) hls
    obtain ⟨z', hz', hle''⟩ := hz.mono hle
    refine ⟨z', ?_, hle''.trans hle'⟩
    have hread : Reads K false ⟨ls, .after b⟩ (bracketed x.text) n :=
      (reads_bracketed he).mpr ⟨_, m, .opening (settled_after b), hm, hn⟩
    refine hread.append ?_
    rw [endsEscaping_bracketed]
    exact hz'

/-- The reader of a template: outside of all fragments no token can stand. -/
def outside : Reader := ⟨[⟨true, false⟩], .free⟩

theorem Spells.readable {f : Forest} {t : Text} (hf : f.Spells t) (hg : f.guarded = true)
    (hK : ∀ key ∈ f.allKeys, K key) : Readable K outside t := by
  have hspends : Spends f.keys [⟨true, false⟩] [⟨true, false⟩] := by
    rw [hf.keys]
    exact .none _
  obtain ⟨z, hz, hle⟩ := hf.wf.reads (b := false) hg hK nofun hspends
  rw [← hf.text]
  refine .of_reads ⟨0, hf.wf.nest 0⟩ hz (.mono ⟨_, .closing .behind⟩ hle)

theorem WellFormed.isKey {esc : Bool} {f : Forest} (hf : WellFormed esc f) :
    ∀ key ∈ f.allKeys, IsKey key := by
  induction hf with
  | nil => exact fun _ h => nomatch h
  | char _ _ ih => exact ih
  | token hk _ ih => exact List.forall_mem_cons.mpr ⟨hk, ih⟩
  | fragment _ _ _ _ ihx ihr => exact List.forall_mem_append.mpr ⟨ihx, ihr⟩

end

end Forest

/-! ## the data at the keys -/

namespace Render

theorem members_of_joins {p : Text} (hp : ∀ d ∈ p, d = '+') : members p = [] := by
  induction p with
  | nil => rfl
  | cons d p ih =>
    obtain ⟨rfl, hrest⟩ := List.forall_mem_cons.mp hp
    rw [members, Text.splitAt_cons_self]
    exact ih hrest

/-- A key whose only `+` stand at its end has one member. -/
theorem members_append {key p : Text} (hne : key ≠ []) (h : '+' ∉ key) (hp : ∀ d ∈ p, d = '+') :
    members (key ++ p) = [key] := by
  cases p with
  | nil => rw [List.append_nil, members_of_not_mem hne h]
  | cons d p =>
    obtain ⟨rfl, hrest⟩ := List.forall_mem_cons.mp hp
    rw [members_plus, members_of_not_mem hne h, members_of_joins hrest, List.append_nil]

theorem resolve_append {data : Entries} {separator key p : Text} (hne : key ≠ []) (h : '+' ∉ key)
    (hp : ∀ d ∈ p, d = '+') : resolve data separator (key ++ p) = lookup data key := by
  have hkey : memberTexts data (key ++ p) = memberTexts data key := by
    rw [memberTexts, members_append hne h hp, memberTexts, members_of_not_mem hne h]
  rw [resolve_eq_joined data separator (List.append_ne_nil_of_left_ne_nil hne p), hkey,
    ← resolve_eq_joined data separator hne, resolve_of_not_mem h]

/-- What a key stands for is known from its members. -/
theorem resolve_congr {data data' : Entries} {separator key : Text} (hne : key ≠ [])
    (h : ∀ m ∈ members key, lookup data m = lookup data' m) :
    resolve data separator key = resolve data' separator key := by
  rw [resolve_eq_joined data separator hne, resolve_eq_joined data' separator hne, memberTexts,
    memberTexts, List.map_congr_left h]

end Render

/-! ## two runs -/

namespace Citation
open Template Render Forest

section
variable {c c' : Citation}

/-- Two citations with one template and the same options. -/
structure Twins (c c' : Citation) : Prop where
  template : c.template = c'.template
  options : c.options = c'.options

/-- The next stage of a readable one is the same for both, and readable. -/
theorem Twins.next (h : Twins c c') (hd : c.options.debug = false) {s : Stage}
    (hs : Readable (Agree c.context c'.context) outside s.text) :
    (c.next s).outcome = (c'.next s).outcome ∧
      ∀ s', (c.next s).outcome = .ok (some s') →
        Readable (Agree c.context c'.context) outside s'.text := by
  have hd' : c'.options.debug = false := h.options ▸ hd
  obtain ⟨t, ht⟩ := pass_exists c.context (expands_exists _ hd) s.text
  have hcap : c'.atCap s.passes = c.atCap s.passes := by rw [atCap, atCap, h.options]
  obtain ⟨_, ht'⟩ := readable_of_pass hd hd' ht _ hs
  refine ⟨?_, fun s' hn => (readable_of_pass hd hd' (next_outcome_some hn).1 _ hs).1⟩
  rw [next_outcome, next_outcome, ht, ht', hcap]

theorem Twins.textsFrom (h : Twins c c') (hd : c.options.debug = false) (limit : Nat) {s : Stage}
    (hs : Readable (Agree c.context c'.context) outside s.text) :
    (c.textsFrom limit s).outcome = (c'.textsFrom limit s).outcome := by
  induction limit generalizing s with
  | zero => rw [textsFrom_zero, textsFrom_zero]
  | succ limit ih =>
    obtain ⟨hnext, hreadable⟩ := h.next hd hs
    rw [textsFrom_succ, textsFrom_succ]
    refine Noted.outcome_bind_congr (by rw [Noted.mapError, Noted.mapError, hnext]) fun o ho => ?_
    cases o with
    | none => rfl
    | some s' =>
      have hn := Noted.outcome_mapError_eq_ok.mp ho
      exact Noted.outcome_bind_congr (ih (hreadable s' hn)) fun _ _ => rfl

/-- A guarded template gives the same citation from all data that agree on its keys. -/
theorem Twins.build (h : Twins c c') (hd : c.options.debug = false) {f : Forest}
    (hf : f.Spells c.template) (hg : f.guarded = true)
    (hdata : ∀ key ∈ f.allKeys, ∀ m ∈ members key, lookup c.data m = lookup c'.data m)
    (limit : Nat) : (c.build limit).outcome = (c'.build limit).outcome := by
  have hagree : ∀ key ∈ f.allKeys, Agree c.context c'.context key := by
    intro key hkey
    have hne := (hf.wf.isKey key hkey).ne_nil
    refine ⟨hne, ?_⟩
    show resolve c.data c.options.comboSeparator key = resolve c'.data c'.options.comboSeparator key
    rw [resolve_congr hne (hdata key hkey), h.options]
  have hstart : c'.start = c.start := by rw [start, start, h.template]
  refine build_outcome_congr h.template ?_
  rw [texts, texts, hstart]
  exact h.textsFrom hd limit (hf.readable hg hagree)

end

end Citation
end Citations
