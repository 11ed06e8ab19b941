import Citations.Command.Run
import Citations.Proofs.Progress
import Citations.Results

/-!
# How a rendering ends

A template that the check refuses is the only fault of a rendering that its data have no part in.
The rendering of a run ends as that of an engine, or for want of something that an engine has: a text
between members, where a combined key is met, or room on the stack.

* `Lacks e`               a fault for want of such a thing;
* `Noted.Follows h x y`   `x` ends as `y` does, or for want of it;
* `follows_rendered`      the rendering of a run follows that of an engine;
* `Uncited e`             a fault of the passes;
* `rendered_refused`, `rendered_accepted`   the outcomes of a rendering, by the check;
* `citation`              what a run makes of data in which halves of pairs may stand alone.
-/

namespace Citations

/-- A fault for want of what an engine has: a text between members, or room on the stack. -/
inductive Lacks : CitationError → Prop where
  | unjoined : Lacks .unjoined
  | stack : Lacks .stack

namespace Noted

/-! ## results with renamed errors -/

section
variable {δ α β : Type} {h : δ → CitationError}

/-- `x` ends as `y` does, its errors renamed, unless it lacks something. -/
def Follows (h : δ → CitationError) (x : Noted CitationError α) (y : Noted δ α) : Prop :=
  (∃ e, Lacks e ∧ x.outcome = .error e) ∨ x.outcome = y.outcome.mapError h

theorem Follows.mapError (y : Noted δ α) : Follows h (y.mapError h) y := Or.inr rfl

theorem Follows.pure (a : α) : Follows h (pure a) (pure a) := Or.inr rfl

theorem Follows.bind {x : Noted CitationError α} {y : Noted δ α} {f : α → Noted CitationError β}
    {g : α → Noted δ β} (hxy : Follows h x y) (hfg : ∀ a, Follows h (f a) (g a)) :
    Follows h (x >>= f) (y >>= g) := by
  obtain ⟨ns, o⟩ := x
  obtain ⟨ns', o'⟩ := y
  rcases hxy with ⟨e, he, hx⟩ | hx
  · obtain rfl : o = .error e := hx
    exact Or.inl ⟨e, he, rfl⟩
  · obtain rfl : o = o'.mapError h := hx
    cases o' with
    | error e => exact Or.inr rfl
    | ok a => exact hfg a

theorem Follows.map {x : Noted CitationError α} {y : Noted δ α} (f : α → β) (hxy : Follows h x y) :
    Follows h (f <$> x) (f <$> y) := by
  rw [map_eq_pure_bind, map_eq_pure_bind]
  exact hxy.bind fun a => .pure (f a)

theorem Follows.mapM {f : α → Noted CitationError β} {g : α → Noted δ β} {as : List α}
    (hfg : ∀ a ∈ as, Follows h (f a) (g a)) : Follows h (as.mapM f) (as.mapM g) := by
  induction as with
  | nil => exact .pure []
  | cons a as ih =>
    obtain ⟨ha, has⟩ := List.forall_mem_cons.mp hfg
    rw [List.mapM_cons, List.mapM_cons]
    exact ha.bind fun b => (ih has).bind fun bs => .pure (b :: bs)

end

end Noted

namespace Rendering
open Template Render Noted

/-! ## the rendering of a run -/

section
variable (stack : Stack) (isJoined : Bool) (c : Context)

theorem follows_expand (segment : Text) :
    Follows .placeholder (expandUnjoined c segment) (expand c segment) := by
  unfold expandUnjoined
  cases firstToken? segment with
  | none => exact .mapError _
  | some k =>
    show Follows _ (if '+' ∈ k.key then _ else _) _
    split
    · exact Or.inl ⟨_, .unjoined, rfl⟩
    · exact .mapError _

theorem follows_leaf (depth : Nat) (segment : Text) :
    Follows .placeholder (leaf stack isJoined c depth segment) (expand c segment) := by
  unfold leaf
  split
  · split
    · exact .mapError _
    · exact follows_expand c segment
  · exact Or.inl ⟨_, .stack, rfl⟩

theorem follows_scan (depth : Nat) (t : Text) :
    Follows (δ := PlaceholderError) .placeholder (scan stack depth t) (pure ()) := by
  unfold scan
  split
  · exact .pure ()
  · exact Or.inl ⟨_, .stack, rfl⟩

/-- A pass over a text, by the passes over the interiors of its fragments. -/
theorem follows_pass (depth : Nat) (t : Text) :
    Follows .placeholder (passAt (scan stack) (leaf stack isJoined c) depth t) (pass c t) := by
  induction hl : t.length using Nat.strongRecOn generalizing t depth with
  | ind n ih =>
    have hsolve : ∀ f ∈ openTexts t,
        Follows .placeholder (solveAt (scan stack) (leaf stack isJoined c) depth f)
          (solve c f) := by
      intro f hf
      have hin := ih _ (hl ▸ length_interior_lt hf) (depth + 1) (interior f) rfl
      rw [solve_eq]
      unfold solveAt
      cases isNested f with
      | true => exact (hin.map bracketed).bind fun new => .pure (f, new)
      | false =>
        exact (follows_leaf stack isJoined c depth (interior f)).bind fun new => .pure (f, new)
    have hfound := (Follows.mapM hsolve).bind fun solved => .pure (Text.replaceAll solved t)
    rw [passAt_eq, pass_eq]
    exact (follows_scan stack depth t).bind fun _ => hfound

end

theorem follows_nextBy (c : Citation) {p : Text → Noted CitationError Text}
    {q : Text → Noted PlaceholderError Text} (hpq : ∀ t, Follows .placeholder (p t) (q t))
    (s : Stage) : Follows .placeholder (c.nextBy p s) (c.nextBy q s) := by
  unfold Citation.nextBy
  split
  · split
    · exact .pure none
    · refine Follows.bind (.pure ()) fun _ => (hpq s.text).bind fun t => ?_
      refine Follows.bind (.pure ()) fun _ => ?_
      split
      · exact .pure none
      · exact .pure _
  · exact .pure none

theorem follows_textsBy {step step' : Stage → Noted CitationError (Option Stage)}
    (h : ∀ s, Follows id (step s) (step' s)) (limit : Nat) (s : Stage) :
    Follows id (Citation.textsBy step limit s) (Citation.textsBy step' limit s) := by
  induction limit generalizing s with
  | zero => exact Or.inr rfl
  | succ limit ih =>
    refine (h s).bind fun o => ?_
    cases o with
    | none => exact .pure []
    | some s' => exact (ih s').bind fun ts => .pure (s'.text :: ts)

theorem follows_step (stack : Stack) (isJoined : Bool) (c : Citation) (s : Stage) :
    Follows id (c.nextBy (passAt (scan stack) (leaf stack isJoined c.context) 0) s)
      ((c.next s).mapError .placeholder) := by
  have hstep := follows_nextBy c (follows_pass stack isJoined c.context 0) s
  rcases hstep with h | h
  · exact Or.inl h
  · refine Or.inr ?_
    rw [h]
    show (c.next s).outcome.mapError CitationError.placeholder =
      ((c.next s).outcome.mapError CitationError.placeholder).mapError id
    cases (c.next s).outcome <;> rfl

/-- The rendering of a run ends as that of an engine, or for want of something. -/
theorem follows_rendered (stack : Stack) (limit : Nat) (o : Options) (isJoined : Bool)
    (template : Text) (data : Entries) :
    Follows id (rendered stack limit o isJoined template data)
      ((⟨o⟩ : Engine).render limit template (.dict data)) := by
  refine Follows.bind (Or.inr ?_) fun c => ?_
  · cases (Citation.make o template (.dict data)).outcome <;> rfl
  · have htexts := follows_textsBy (follows_step stack isJoined c) limit c.start
    exact htexts.bind fun ts => .pure (c.finish ts)

/-! ## the outcomes -/

section
variable {stack : Stack} {limit : Nat} {o : Options} {template : Text} {data : Entries}

theorem make_refused {e : TemplateError} (h : check o.strict (normalize template) = .error e)
    (data : Value) : (Citation.make o template data).outcome = .error (.template e) := by
  unfold Citation.make
  dsimp only
  split
  · next e' he =>
    rw [h] at he
    cases he
    rfl
  · next hok =>
    rw [h] at hok
    cases hok

theorem make_accepted (h : check o.strict (normalize template) = .ok ()) :
    (Citation.make o template (.dict data)).outcome =
      .ok ⟨normalize template, data, o, .blank, h⟩ := by
  unfold Citation.make
  dsimp only
  split
  · next e he =>
    rw [h] at he
    cases he
  · rfl

/-- The faults of the passes. -/
inductive Uncited : CitationError → Prop where
  | placeholder (e : PlaceholderError) : Uncited (.placeholder e)
  | unjoined : Uncited .unjoined
  | stack : Uncited .stack
  | endless : Uncited .endless

theorem uncited_of_lacks {e : CitationError} (h : Lacks e) : Uncited e := by
  cases h with
  | unjoined => exact .unjoined
  | stack => exact .stack

theorem uncited_of_texts {c : Citation} {s : Stage} {e : CitationError}
    (h : (c.textsFrom limit s).outcome = .error e) : Uncited e := by
  induction limit generalizing s with
  | zero =>
    cases h
    exact .endless
  | succ limit ih =>
    rw [Citation.textsFrom_succ, outcome_bind_eq_error] at h
    rcases h with h | ⟨o, _, h⟩
    · have h : (c.next s).outcome.mapError CitationError.placeholder = .error e := h
      cases hn : (c.next s).outcome with
      | error p =>
        rw [hn] at h
        cases h
        exact .placeholder p
      | ok o =>
        rw [hn] at h
        cases h
    · cases o with
      | none => cases h
      | some s' =>
        rcases outcome_bind_eq_error.mp h with h | ⟨_, _, h⟩
        · exact ih h
        · cases h

theorem render_accepted (h : check o.strict (normalize template) = .ok ()) (limit : Nat)
    (data : Entries) :
    ((⟨o⟩ : Engine).render limit template (.dict data)).outcome =
      (Citation.build limit ⟨normalize template, data, o, .blank, h⟩).outcome :=
  outcome_bind_of_ok (make_accepted h) _

theorem rendered_refused {e : TemplateError} (h : check o.strict (normalize template) = .error e)
    (stack : Stack) (limit : Nat) (isJoined : Bool) (data : Entries) :
    (rendered stack limit o isJoined template data).outcome = .error (.template e) :=
  outcome_bind_eq_error.mpr (Or.inl (make_refused h _))

/-- What does not lack anything ends as the rendering of an engine. -/
theorem rendered_eq_render {isJoined : Bool}
    (h : ∀ e, Lacks e → (rendered stack limit o isJoined template data).outcome ≠ .error e) :
    (rendered stack limit o isJoined template data).outcome =
      ((⟨o⟩ : Engine).render limit template (.dict data)).outcome := by
  rcases follows_rendered stack limit o isJoined template data with ⟨e, he, hr⟩ | hr
  · exact absurd hr (h e he)
  · rw [hr]
    cases ((⟨o⟩ : Engine).render limit template (.dict data)).outcome <;> rfl

/-- What is rendered at all is what an engine renders. -/
theorem render_of_rendered {isJoined : Bool} {s : Text}
    (h : (rendered stack limit o isJoined template data).outcome = .ok s) :
    ((⟨o⟩ : Engine).render limit template (.dict data)).outcome = .ok s := by
  have hlacks : ∀ e, Lacks e →
      (rendered stack limit o isJoined template data).outcome ≠ .error e := by
    intro e _ he
    rw [h] at he
    cases he
  rw [← rendered_eq_render hlacks, h]

/-- An accepted template is rendered, or there is a fault of the passes. -/
theorem rendered_accepted (h : check o.strict (normalize template) = .ok ()) (isJoined : Bool) :
    (∃ s, (rendered stack limit o isJoined template data).outcome = .ok s) ∨
      ∃ e, Uncited e ∧ (rendered stack limit o isJoined template data).outcome = .error e := by
  by_cases hlacks : ∃ e, Lacks e ∧
      (rendered stack limit o isJoined template data).outcome = .error e
  · obtain ⟨e, he, hr⟩ := hlacks
    exact Or.inr ⟨e, uncited_of_lacks he, hr⟩
  · rw [rendered_eq_render fun e he hr => hlacks ⟨e, he, hr⟩, render_accepted h]
    cases hb : (Citation.build limit ⟨normalize template, data, o, .blank, h⟩).outcome with
    | ok s => exact Or.inl ⟨s, rfl⟩
    | error e =>
      refine Or.inr ⟨e, ?_, rfl⟩
      rcases outcome_bind_eq_error.mp hb with hb | ⟨_, _, hb⟩
      · exact uncited_of_texts hb
      · cases hb

end

/-! ## data in which halves of pairs stand alone -/

/-- The text that two renderings with different stand-ins agree on, unless they show halves. -/
def whole (s t : Text) : Except UnpairedError Text :=
  match Utf8.firstFault? (codePoints s t) with
  | some e => .error e
  | none => .ok s

theorem eq_of_whole {s t s' : Text} (h : whole s t = .ok s') : s = s' := by
  unfold whole at h
  split at h
  · cases h
  · exact Except.ok.inj h

/-- Whether halves of pairs stand alone in a value of the data. -/
def holdsHalves (data : Entries) : Bool := data.any fun e => isUnpaired e.2

section
variable (rendered : Entries → Noted CitationError Text) (data : Entries)

/-- The citation of data; in a second rendering with other stand-ins the halves of pairs show, and
with such a half a citation cannot be written. -/
def citation : Except CitationError (Except UnpairedError Text) :=
  if holdsHalves data then do
    let s ← (rendered data).outcome
    let t ← (rendered (disguised data)).outcome
    return whole s t
  else .ok <$> (rendered data).outcome

end

section
variable {rendered : Entries → Noted CitationError Text} {data : Entries}

theorem citation_of_paired (h : holdsHalves data = false) :
    citation rendered data = .ok <$> (rendered data).outcome := by
  rw [citation, h, if_neg Bool.false_ne_true]

theorem holdsHalves_of_error {e : UnpairedError} (h : citation rendered data = .ok (.error e)) :
    holdsHalves data = true := by
  cases hd : holdsHalves data with
  | true => rfl
  | false =>
    rw [citation_of_paired hd] at h
    obtain ⟨_, _, h⟩ := map_eq_ok.mp h
    cases h

/-- A citation that can be written is what is rendered. -/
theorem rendered_of_citation {s : Text} (h : citation rendered data = .ok (.ok s)) :
    (rendered data).outcome = .ok s := by
  unfold citation at h
  split at h
  · obtain ⟨s', hs, h⟩ := bind_eq_ok.mp h
    obtain ⟨t, _, h⟩ := bind_eq_ok.mp h
    rw [hs, eq_of_whole (Except.ok.inj h)]
  · obtain ⟨s', hs, h⟩ := map_eq_ok.mp h
    rw [hs, Except.ok.inj h]

theorem citation_eq_error {e : CitationError} (h : citation rendered data = .error e) :
    ∃ data', (rendered data').outcome = .error e := by
  unfold citation at h
  split at h
  · rcases bind_eq_error.mp h with h | ⟨s, _, h⟩
    · exact ⟨data, h⟩
    · rcases bind_eq_error.mp h with h | ⟨_, _, h⟩
      · exact ⟨disguised data, h⟩
      · cases h
  · rw [map_eq_pure_bind] at h
    rcases bind_eq_error.mp h with h | ⟨_, _, h⟩
    · exact ⟨data, h⟩
    · cases h

theorem citation_of_error {e : CitationError} (h : (rendered data).outcome = .error e) :
    citation rendered data = .error e := by
  unfold citation
  rw [h]
  split <;> rfl

end

end Rendering
end Citations
