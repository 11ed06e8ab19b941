import Citations.Proofs.Memory
import Citations.Proofs.Progress
import Citations.Render.Session

/-!
# Suspended runs

A run makes its next pass only when it is asked for a text.  Any number of runs stand suspended while
others go on, citations are built, templates rendered and mappings changed.  What a run answers
depends on nothing but its citation and how often it was asked before: it goes through the pass list
of the citation, which the template, the data and the options determine that the citation was made
with.  Where things lie does not count, though they lie elsewhere with every command, unless it is
shown.

* `Citation.passList`              what stands at each place of the pass list;
* `Citation.passList_inMemory`     wherever things lie;
* `Citation.Lists ts`              the list holds the texts `ts` and ends without an error;
* `Citation.texts_outcome_ok_iff`  a run through all passes finds the same list;
* `Session.Held.runAfter n`        the run of a citation that was asked `n` times;
* `Session.runs_step`, `Session.citations_step`   what a command does to runs and citations;
* `Session.passes_independent`     what runs and builds answer, whatever comes between.
-/

namespace Citations

/-! ## pass lists -/

/-- What a place of a pass list holds; there is nothing behind its end. -/
inductive Citation.Yield where
  | text (t : Text)
  | failed (e : PlaceholderError)
  | ended
  deriving DecidableEq, Repr

def Citation.Yield.text? : Yield → Option Text
  | .text t => some t
  | _ => none

namespace Citation
variable {c : Citation} {m n : Nat} {t : Text} {ts : List Text}

/-- What stands behind a text that `n` passes have led to.  The end comes where no token is left, at
the cap, and where a pass changes nothing. -/
def behind (c : Citation) (n : Nat) (t : Text) : Yield :=
  if Template.hasTokenSign t = true ∧ c.atCap n = false then
    match (Render.pass c.context t).outcome with
    | .error e => .failed e
    | .ok t' => if t' = t then .ended else .text t'
  else .ended

/-- The text after `n` passes, if there are that many. -/
def textAfter (c : Citation) : Nat → Option Text
  | 0 => some c.template
  | n + 1 => (c.textAfter n).bind fun t => (c.behind n t).text?

/-- The pass list: at place `n` what stands behind the text after `n` passes. -/
def passList (c : Citation) (n : Nat) : Yield :=
  ((c.textAfter n).map (c.behind n)).getD .ended

/-- From place `n` on the list holds the texts, and then ends without an error. -/
def ListsFrom (c : Citation) : Nat → List Text → Prop
  | n, [] => c.passList n = .ended
  | n, t :: ts => c.passList n = .text t ∧ ListsFrom c (n + 1) ts

/-- The pass list holds the texts, and ends without an error. -/
def Lists (c : Citation) (ts : List Text) : Prop := c.ListsFrom 0 ts

/-! ### wherever things lie -/

theorem behind_inMemory (ho : c.options.Unplaced) (memory : Memory) :
    (c.inMemory memory).behind = c.behind := by
  funext n t
  have hpass : Render.pass (c.inMemory memory).context = Render.pass c.context :=
    Render.pass_eq_of_unplaced (c.inMemory memory).context c.context ho rfl rfl
  unfold behind
  rw [hpass]
  rfl

theorem textAfter_inMemory (ho : c.options.Unplaced) (memory : Memory) (n : Nat) :
    (c.inMemory memory).textAfter n = c.textAfter n := by
  induction n with
  | zero => rfl
  | succ n ih => rw [textAfter, textAfter, ih, behind_inMemory ho]

theorem passList_inMemory (ho : c.options.Unplaced) (memory : Memory) :
    (c.inMemory memory).passList = c.passList := by
  funext n
  rw [passList, passList, textAfter_inMemory ho, behind_inMemory ho]

theorem listsFrom_inMemory (ho : c.options.Unplaced) (memory : Memory) :
    (c.inMemory memory).ListsFrom n ts ↔ c.ListsFrom n ts := by
  induction ts generalizing n with
  | nil => rw [ListsFrom, ListsFrom, passList_inMemory ho]
  | cons t ts ih => rw [ListsFrom, ListsFrom, passList_inMemory ho, ih]

/-! ### places of the list -/

theorem passList_of_textAfter (h : c.textAfter n = some t) : c.passList n = c.behind n t := by
  rw [passList, h]
  rfl

theorem textAfter_succ (c : Citation) (n : Nat) : c.textAfter (n + 1) = (c.passList n).text? := by
  rw [textAfter, passList]
  cases c.textAfter n <;> rfl

/-- An error, like the end, stands behind the last text. -/
theorem passList_eq_ended (hm : ∀ t, c.passList m ≠ .text t) (h : m < n) :
    c.passList n = .ended := by
  have hnone : c.textAfter n = none := by
    induction h with
    | refl =>
      rw [textAfter_succ]
      cases hp : c.passList m with
      | text t => exact absurd hp (hm t)
      | failed | ended => rfl
    | step _ ih =>
      rw [textAfter, ih]
      rfl
  rw [passList, hnone]
  rfl

/-! ## runs through the whole list -/

theorem next_outcome_behind (c : Citation) (n : Nat) (t : Text) :
    (c.next ⟨n, t⟩).outcome =
      match c.behind n t with
      | .text t' => .ok (some ⟨n + 1, t'⟩)
      | .failed e => .error e
      | .ended => .ok none := by
  rw [next_outcome, behind]
  split
  · cases (Render.pass c.context t).outcome with
    | error e => rfl
    | ok t' =>
      by_cases ht : t' = t <;> simp [ht, Except.map]
  · rfl

theorem textsFrom_outcome_ok_iff (ht : c.textAfter n = some t) {limit : Nat} :
    (c.textsFrom limit ⟨n, t⟩).outcome = .ok ts ↔ c.ListsFrom n ts ∧ ts.length < limit := by
  induction limit generalizing n t ts with
  | zero =>
    rw [textsFrom_zero]
    exact ⟨nofun, fun h => absurd h.2 (Nat.not_lt_zero _)⟩
  | succ limit ih =>
    rw [textsFrom_outcome_ok, next_outcome_behind, ← passList_of_textAfter ht]
    cases hp : c.passList n with
    | text t' =>
      have ht' : c.textAfter (n + 1) = some t' := by
        rw [textAfter_succ, hp]
        rfl
      cases ts with
      | nil => simp [ListsFrom, hp]
      | cons u us =>
        have hrest : (c.textsFrom limit ⟨n + 1, t'⟩).outcome = .ok us ↔
            c.ListsFrom (n + 1) us ∧ us.length < limit := ih ht'
        constructor
        · rintro (⟨hn, _⟩ | ⟨s', ts', hn, hts, hcons⟩)
          · cases hn
          · cases hn
            cases hcons
            obtain ⟨hlists, hlt⟩ := hrest.mp hts
            exact ⟨⟨hp, hlists⟩, Nat.succ_lt_succ hlt⟩
        · rintro ⟨⟨hu, hlists⟩, hlt⟩
          rw [hp] at hu
          cases hu
          exact Or.inr ⟨_, us, rfl, hrest.mpr ⟨hlists, Nat.lt_of_succ_lt_succ hlt⟩, rfl⟩
    | failed e => cases ts <;> simp [ListsFrom, hp]
    | ended => cases ts <;> simp [ListsFrom, hp]

theorem options_of_make {o : Options} {template : Text} {data : Value}
    (h : (make o template data).outcome = .ok c) : c.options = o := by
  unfold make at h
  dsimp only at h
  split at h
  · cases h
  · obtain ⟨es, _, rfl⟩ := map_eq_ok.mp h
    rfl

/-- A run finds the texts of the list, if its limit is above their number. -/
theorem texts_outcome_ok_iff {limit : Nat} :
    (c.texts limit).outcome = .ok ts ↔ c.Lists ts ∧ ts.length < limit :=
  textsFrom_outcome_ok_iff rfl

end Citation

namespace Session
open Citation (Yield)

/-! ## one run -/

def Reply.ofYield : Yield → Reply
  | .text t => .text t
  | .failed e => .failed (.citation (.placeholder e))
  | .ended => .ended

/-- The run of a citation that was asked `n` times. -/
def Held.runAfter (h : Held) (n : Nat) : Run := ⟨h, (h.citation.textAfter n).map (Stage.mk n)⟩

/-- It answers with what stands at place `n`, and then was asked once more. -/
theorem advance_runAfter {h : Held} (ho : h.citation.options.Unplaced) (memory : Memory) (n : Nat) :
    (advance memory (h.runAfter n)).1.reply = .ofYield (h.citation.passList n) ∧
    (advance memory (h.runAfter n)).2 = h.runAfter (n + 1) := by
  rw [Held.runAfter, Held.runAfter, Citation.textAfter_succ]
  cases ht : h.citation.textAfter n with
  | none =>
    have hp : h.citation.passList n = .ended := by
      rw [Citation.passList, ht]
      rfl
    rw [hp]
    exact ⟨rfl, rfl⟩
  | some t =>
    have hnext := Citation.next_outcome_behind (h.citation.inMemory memory) n t
    rw [Citation.behind_inMemory ho, ← Citation.passList_of_textAfter ht] at hnext
    rw [advance, Option.map_some]
    cases hp : h.citation.passList n <;>
      · rw [hp] at hnext
        simp only [hnext]
        exact ⟨rfl, rfl⟩

/-! ## what a command does -/

namespace Command

/-- Whether a command makes a citation under a name. -/
def makes (id : Text) : Command → Bool
  | .make id' .. => id' == id
  | _ => false

/-- Whether a command starts a run under a name. -/
def starts (run : Text) : Command → Bool
  | .start _ run' => run' == run
  | _ => false

/-- Whether a command asks a run for its next text. -/
def asks (run : Text) : Command → Bool
  | .next run' _ => run' == run
  | _ => false

end Command

section
variable {limit : Nat} {s : Session} {id run template logger : Text} {data : Value}
  {settings : Settings} {o : Options} {c : Citation} {h : Held} {n : Nat}

theorem step_make (ho : Options.ofSettings settings = .ok o)
    (hc : (Citation.make o template data).outcome = .ok c) :
    (s.step limit (.make id template data settings logger)).2 =
      { s with
        citations := Named.put id ⟨c, logger⟩ s.citations
        sources := Named.put id c.data s.sources } := by
  simp only [step, ho, hc]

theorem step_make_cases (limit : Nat) (s : Session) (id template : Text) (data : Value)
    (settings : Settings) (logger : Text) :
    (s.step limit (.make id template data settings logger)).2 = s ∨
    ∃ c, (s.step limit (.make id template data settings logger)).2 =
      { s with
        citations := Named.put id ⟨c, logger⟩ s.citations
        sources := Named.put id c.data s.sources } := by
  cases ho : Options.ofSettings settings with
  | error e =>
    refine Or.inl ?_
    simp only [step, ho]
  | ok o =>
    cases hc : (Citation.make o template data).outcome with
    | error e =>
      refine Or.inl ?_
      simp only [step, ho, hc]
    | ok c => exact Or.inr ⟨c, step_make ho hc⟩

/-- Citations only come by being made. -/
theorem citations_step (limit : Nat) (s : Session) (b : Command) :
    (s.step limit b).2.citations = s.citations ∨
    ∃ id h, b.makes id = true ∧ (s.step limit b).2.citations = Named.put id h s.citations := by
  cases b with
  | make id template data settings logger =>
    rcases step_make_cases limit s id template data settings logger with heq | ⟨c, heq⟩
    · rw [heq]
      exact Or.inl rfl
    · rw [heq]
      exact Or.inr ⟨id, ⟨c, logger⟩, beq_self_eq_true id, rfl⟩
  | build | start | next | changeSource | changeData | data | options | engine | render | renderMany =>
    refine Or.inl ?_
    simp only [step]
    split <;> rfl

/-- A run is what a citation starts, or what is left of it when it is asked. -/
theorem runs_step (limit : Nat) (s : Session) (b : Command) :
    ((s.step limit b).2.runs = s.runs ∧
      ∀ run, b.asks run = true → Named.find? run s.runs = none) ∨
    (∃ run r, b.starts run = true ∧ (s.step limit b).2.runs = Named.put run r s.runs) ∨
    ∃ run memory r, b = .next run memory ∧ Named.find? run s.runs = some r ∧
      (s.step limit b).2.runs = Named.put run (advance memory r).2 s.runs := by
  cases b with
  | make id template data settings logger =>
    refine Or.inl ⟨?_, nofun⟩
    rcases step_make_cases limit s id template data settings logger with heq | ⟨c, heq⟩ <;> rw [heq]
  | start id run =>
    simp only [step]
    split
    · exact Or.inl ⟨rfl, nofun⟩
    · exact Or.inr (Or.inl ⟨run, _, beq_self_eq_true run, rfl⟩)
  | next run memory =>
    simp only [step]
    split
    · next hfind =>
      refine Or.inl ⟨rfl, fun run' hasks => ?_⟩
      obtain rfl := beq_iff_eq.mp hasks
      exact hfind
    · next r hfind => exact Or.inr (Or.inr ⟨run, memory, r, rfl, hfind, rfl⟩)
  | build | changeSource | changeData | data | options | engine | render | renderMany =>
    refine Or.inl ⟨?_, nofun⟩
    simp only [step]
    split <;> rfl

theorem find?_citations_step {b : Command} (hb : b.makes id = false) :
    Named.find? id (s.step limit b).2.citations = Named.find? id s.citations := by
  rcases citations_step limit s b with heq | ⟨id', h, hmakes, heq⟩
  · rw [heq]
  · rw [heq, Named.find?_put_of_ne]
    rintro rfl
    rw [hmakes] at hb
    cases hb

/-- A run counts the commands that ask it.  Nothing else changes it. -/
theorem find?_runs_step (ho : h.citation.options.Unplaced)
    (hr : Named.find? run s.runs = some (h.runAfter n)) {b : Command} (hb : b.starts run = false) :
    Named.find? run (s.step limit b).2.runs =
      some (h.runAfter (n + if b.asks run then 1 else 0)) := by
  rcases runs_step limit s b with ⟨heq, hasks⟩ | ⟨run', r, hstarts, heq⟩ |
    ⟨run', memory, r, rfl, hfind, heq⟩
  · have ha : b.asks run = false := by
      cases ha : b.asks run with
      | true => rw [hasks run ha] at hr; cases hr
      | false => rfl
    rw [heq, hr, ha]
    rfl
  · have hne : run ≠ run' := by
      rintro rfl
      rw [hstarts] at hb
      cases hb
    have ha : b.asks run = false := by
      cases b with
      | start => rfl
      | make | build | next | changeSource | changeData | data | options | engine | render
      | renderMany => cases hstarts
    rw [heq, Named.find?_put_of_ne hne, hr, ha]
    rfl
  · rw [heq, Named.find?_put, hr]
    by_cases hrun : run = run'
    · subst hrun
      obtain rfl := Option.some.inj (hfind.symm.trans hr)
      simp [Command.asks, (advance_runAfter ho memory n).2]
    · have hne : run' ≠ run := fun e => hrun e.symm
      simp [Command.asks, hrun, hne]

end

/-! ## any commands -/

/-- What is left after some commands. -/
def after (limit : Nat) (s : Session) (bs : List Command) : Session :=
  bs.foldl (fun s b => (s.step limit b).2) s

section
variable {limit : Nat} {s : Session} {id run : Text} {h : Held} {n : Nat}

theorem after_cons (limit : Nat) (s : Session) (b : Command) (bs : List Command) :
    after limit s (b :: bs) = after limit (s.step limit b).2 bs := rfl

theorem find?_citations_after {bs : List Command} (hbs : ∀ b ∈ bs, b.makes id = false) :
    Named.find? id (after limit s bs).citations = Named.find? id s.citations := by
  induction bs generalizing s with
  | nil => rfl
  | cons b bs ih =>
    rw [List.forall_mem_cons] at hbs
    rw [after_cons, ih hbs.2, find?_citations_step hbs.1]

theorem find?_runs_after (ho : h.citation.options.Unplaced)
    (hr : Named.find? run s.runs = some (h.runAfter n)) {bs : List Command}
    (hbs : ∀ b ∈ bs, b.starts run = false) :
    Named.find? run (after limit s bs).runs =
      some (h.runAfter (n + bs.countP (Command.asks run))) := by
  induction bs generalizing s n with
  | nil => exact hr
  | cons b bs ih =>
    rw [List.forall_mem_cons] at hbs
    rw [after_cons, ih (find?_runs_step ho hr hbs.1) hbs.2, List.countP_cons]
    congr 2
    omega

theorem find?_runs_start (hc : Named.find? id s.citations = some h) (limit : Nat) (run : Text) :
    Named.find? run (s.step limit (.start id run)).2.runs = some (h.runAfter 0) := by
  simp only [step, hc]
  exact Named.find?_put_self run _ _

theorem reply_next (ho : h.citation.options.Unplaced)
    (hr : Named.find? run s.runs = some (h.runAfter n)) (memory : Memory) :
    (s.step limit (.next run memory)).1.reply = .ofYield (h.citation.passList n) := by
  simp only [step, hr]
  exact (advance_runAfter ho memory n).1

theorem reply_build (ho : h.citation.options.Unplaced) (hc : Named.find? id s.citations = some h)
    {ts : List Text} (hts : h.citation.Lists ts) (hlimit : ts.length < limit) (memory : Memory) :
    (s.step limit (.build id memory)).1.reply = .text (h.citation.finish ts) := by
  have hlists : (h.citation.inMemory memory).Lists ts :=
    (Citation.listsFrom_inMemory ho memory).mpr hts
  have hbuild := Citation.build_outcome_ok (Citation.texts_outcome_ok_iff.mpr ⟨hlists, hlimit⟩)
  simp only [step, hc, answerOf, hbuild]
  rfl

end

/-- A citation is made under a name, and then come any commands that make no other under it; any of
its runs is started behind those, and then come any commands that start no other under the name of
the run.  Whenever the run is asked, it answers with what the pass list of the citation holds at the
place of the question: text after text, then the error, if the list ends with one, and then that there
is no more.  If the list ends without an error, a build whose limit is above the number of its texts
gives the last one, or the template if there is none, without the escapes.  All this is so wherever
things lie at each of the commands, if the options show no place. -/
theorem passes_independent (limit : Nat) (s : Session) {id template logger : Text} {data : Value}
    {settings : Settings} {o : Options} {c : Citation} (ho : Options.ofSettings settings = .ok o)
    (hplace : o.Unplaced) (hc : (Citation.make o template data).outcome = .ok c)
    {between : List Command} (hbetween : ∀ b ∈ between, b.makes id = false) :
    let built := after limit s (.make id template data settings logger :: between)
    (∀ run since memory, (∀ b ∈ since, Command.starts run b = false) →
      ((after limit built (.start id run :: since)).step limit (.next run memory)).1.reply =
        .ofYield (c.passList (since.countP (Command.asks run)))) ∧
    (∀ m n, (∀ t, c.passList m ≠ .text t) → m < n → c.passList n = .ended) ∧
    ∀ ts memory, c.Lists ts → ts.length < limit →
      (built.step limit (.build id memory)).1.reply =
        .text (Escaper.syntaxSigns.unescape (ts.getLastD c.template)) := by
  intro built
  have hunplaced : c.options.Unplaced := by rwa [Citation.options_of_make hc]
  have hheld : Named.find? id built.citations = some ⟨c, logger⟩ := by
    show Named.find? id (after limit (s.step limit _).2 between).citations = _
    rw [find?_citations_after hbetween, step_make ho hc]
    exact Named.find?_put_self id _ _
  refine ⟨fun run since memory hsince => ?_, fun m n => Citation.passList_eq_ended,
    fun ts memory hts hlimit => reply_build hunplaced hheld hts hlimit memory⟩
  have hrun : Named.find? run (after limit built (.start id run :: since)).runs =
      some (Held.runAfter ⟨c, logger⟩ (0 + since.countP (Command.asks run))) :=
    find?_runs_after hunplaced (find?_runs_start hheld limit run) hsince
  rw [Nat.zero_add] at hrun
  exact reply_next hunplaced hrun memory

/-- Two passes lead to `AB`. -/
def nested : Citation where
  template := "\x7b\x7b@a\x7d@b\x7d".toList
  data := [(.text ['a'], .text ['A']), (.text ['b'], .text ['B'])]
  options := {}
  accepted := by rfl

/-- The citation, made in a session. -/
def makeNested : Command :=
  .make ['c'] nested.template (.dict nested.data) {} LoggerName.builder

/-- One run of `nested` was asked once when its mapping is changed and a second run is started; both
are asked in turns, and have the second text from the data that the citation was made with. -/
theorem passes_side_by_side :
    let built := after 3 {} (makeNested :: [.start ['c'] ['x'], .next ['x'],
      .changeSource ['c'] (.text ['b']) (.text ['Z'])])
    (built.step 3 (.build ['c'])).1.reply = .text "AB".toList ∧
    ((after 3 built (.start ['c'] ['y'] :: [.next ['x'], .next ['y'], .build ['c']])).step 3
      (.next ['y'])).1.reply = .text "AB".toList := by
  have hmade : (Citation.make {} nested.template (.dict nested.data)).outcome = .ok nested := by rfl
  obtain ⟨hruns, _, hbuilds⟩ := @passes_independent 3 {} ['c'] _ LoggerName.builder _ {} _ _ rfl
    (Options.unplaced_of_no_point (by decide)) hmade
    [.start ['c'] ['x'], .next ['x'], .changeSource ['c'] (.text ['b']) (.text ['Z'])] (by decide)
  have hsecond : nested.passList 1 = .text "AB".toList := by decide +kernel
  have hend : nested.passList 2 = .ended := by decide +kernel
  have hlists : nested.Lists ["\x7bA@b\x7d".toList, "AB".toList] :=
    ⟨by decide +kernel, hsecond, hend⟩
  refine ⟨hbuilds _ .blank hlists (by decide), ?_⟩
  have hlast := hruns ['y'] [.next ['x'], .next ['y'], .build ['c']] .blank (by decide)
  rw [show List.countP (Command.asks ['y']) _ = 1 from rfl, hsecond] at hlast
  exact hlast

end Session
end Citations
