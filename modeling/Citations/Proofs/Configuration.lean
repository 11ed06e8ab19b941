import Citations.Log.Logbook

/-!
# What the base logger is set up with

The base logger is set up by name, and by every factory on the first request to it.  The history of
a logbook tells which of its commands are such set-ups: a request to a factory is one if no other
request stands between it and the making of the factory.  The first set-up decides for good where
and how records are written; the last one decides which.

* `SetUp`                a set-up: format, level and stream;
* `Logbook.after`        what some commands leave of a logbook;
* `Logbook.setUps cs`    the set-ups among the commands `cs`, read off the commands alone;
* `Base.IsSetUp`         what a row of set-ups makes of the base logger;
* `Logbook.Remembers`    a logbook stands as the history says, `Remembers.step`;
* `Logbook.set_up_once`  the base logger after any commands.
-/

namespace Citations

structure SetUp (σ : Type) where
  format : Format
  level : Int
  stream : σ
  deriving DecidableEq, Repr

def SetUp.handler {σ : Type} (x : SetUp σ) : Handler σ := ⟨x.stream, x.format⟩

/-- The set-up that a factory makes on the first request to it. -/
def Factory.setUp {σ : Type} (f : Factory σ) : SetUp σ := ⟨f.format, f.level, f.stream⟩

/-! ## rows of set-ups -/

namespace Base
variable {σ : Type} {root : Root σ} {xs : List (SetUp σ)} {b : Base σ}

def setUpBy (b : Base σ) (x : SetUp σ) : Base σ := b.setUp x.format x.level x.stream

/-- The base logger below `root` after the set-ups `xs`. -/
structure IsSetUp (root : Root σ) (xs : List (SetUp σ)) (b : Base σ) : Prop where
  handlers : b.handlers = (xs.head?.map SetUp.handler).toList
  propagates : b.propagates = xs.isEmpty
  level : b.level = (xs.getLast?.map SetUp.level).getD 0
  root : b.root = root

theorem isSetUp_nil (root : Root σ) : IsSetUp root [] { root := root } := ⟨rfl, rfl, rfl, rfl⟩

/-- The first set-up installs a handler, the others only set the level. -/
theorem IsSetUp.setUpBy (h : IsSetUp root xs b) (x : SetUp σ) :
    IsSetUp root (xs ++ [x]) (b.setUpBy x) := by
  obtain ⟨hhandlers, hpropagates, _, hroot⟩ := h
  have hlast : (((xs ++ [x]).getLast?).map SetUp.level).getD 0 = x.level := by
    rw [List.getLast?_concat]
    rfl
  cases xs with
  | nil =>
    rw [Base.setUpBy, setUp_of_bare hhandlers]
    exact ⟨rfl, rfl, hlast.symm, hroot⟩
  | cons y ys =>
    have hne : b.handlers ≠ [] := by
      rw [hhandlers]
      exact List.cons_ne_nil _ _
    rw [Base.setUpBy, setUp_of_handled hne]
    exact ⟨hhandlers, hpropagates, hlast.symm, hroot⟩

/-- The level that a record has to reach; the level zero stands for that of the root logger. -/
def threshold (root : Root σ) (b : Base σ) : Int := if b.level = 0 then root.level else b.level

/-- Whether a record of the level passes: nothing does that is not above zero. -/
def Passes (root : Root σ) (b : Base σ) (level : Int) : Prop :=
  Level.disabled < level ∧ b.threshold root ≤ level

instance (root : Root σ) (b : Base σ) (level : Int) : Decidable (b.Passes root level) :=
  inferInstanceAs (Decidable (_ ∧ _))

section
variable {x : SetUp σ} {r : Record}

/-- Only the handler of the first set-up gets the records, and only those that pass the level. -/
theorem IsSetUp.taking (h : IsSetUp root xs b) (hx : xs.head? = some x)
    (hr : LoggerName.belowBase r.name = true) :
    b.taking r = if b.Passes root r.level then [x.handler] else [] := by
  have hhandlers : b.handlersOf r.name = [x.handler] := by
    have hempty : xs.isEmpty = false := by
      cases xs with
      | nil => cases hx
      | cons y ys => rfl
    rw [handlersOf, hr, h.handlers, h.propagates, hx, hempty]
    rfl
  have hlevel : b.effectiveLevel r.name = b.threshold root := by
    rw [effectiveLevel, threshold, hr, h.root]
    by_cases hz : b.level = 0 <;> simp [hz]
  have henabled : b.enabled r.name r.level = decide (b.Passes root r.level) := by
    rw [enabled, hlevel]
    exact (Bool.decide_and _ _).symm
  rw [Base.taking, hhandlers, henabled]
  simp only [decide_eq_true_eq]

/-- Other loggers know only the root logger. -/
theorem IsSetUp.taking_of_not_below (h : IsSetUp root xs b)
    (hr : LoggerName.belowBase r.name = false) :
    b.taking r =
      if Level.disabled < r.level ∧ root.level ≤ r.level then root.handlers else [] := by
  rw [Base.taking, handlersOf, enabled, effectiveLevel, hr, h.root]
  simp

end

end Base

namespace Logbook
variable {σ : Type}

/-! ## the history of a logbook -/

/-- What is left after some commands. -/
def after (limit : Nat) (stamp : Except StampError Text) (b : Logbook σ) (cs : List (Command σ)) :
    Logbook σ :=
  cs.foldl (fun b c => (b.step limit stamp c).2) b

namespace Command

/-- The factory that a command makes under a name. -/
def made? (id : Text) : Command σ → Option (Factory σ)
  | .factory id' settings format level stream =>
    if id' = id then
      (Options.ofSettings settings).toOption.map fun o => Factory.make o format level stream
    else none
  | _ => none

/-- The factory that a command asks for a logger. -/
def asked? : Command σ → Option Text
  | .get id _ => some id
  | .sink id => some id
  | .build id _ _ settings _ => (Options.ofSettings settings).toOption.map fun _ => id
  | _ => none

/-- Whether a command makes a factory under a name, or asks the one there. -/
def concerns (id : Text) (c : Command σ) : Bool := (c.made? id).isSome || c.asked? == some id

end Command

/-- The factory under a name, if nothing has been asked of it since it was made. -/
def unused? (id : Text) (past : List (Command σ)) : Option (Factory σ) :=
  (past.reverse.find? (Command.concerns id)).bind (Command.made? id)

/-- The set-up that a command is behind others. -/
def Command.setUp? (past : List (Command σ)) : Command σ → Option (SetUp σ)
  | .setUp format level stream => some ⟨format, level.getD defaultLevel, stream⟩
  | c => c.asked?.bind fun id => (unused? id past).map Factory.setUp

def setUpsBehind (past : List (Command σ)) : List (Command σ) → List (SetUp σ)
  | [] => []
  | c :: cs => (c.setUp? past).toList ++ setUpsBehind (past ++ [c]) cs

/-- The set-ups among some commands, in order. -/
def setUps (cs : List (Command σ)) : List (SetUp σ) := setUpsBehind [] cs

theorem setUpsBehind_append (past cs ds : List (Command σ)) :
    setUpsBehind past (cs ++ ds) = setUpsBehind past cs ++ setUpsBehind (past ++ cs) ds := by
  induction cs generalizing past with
  | nil => rw [List.nil_append, List.append_nil]; rfl
  | cons c cs ih =>
    rw [List.cons_append, setUpsBehind, setUpsBehind, ih, List.append_assoc, List.append_assoc]
    rfl

theorem setUps_concat (cs : List (Command σ)) (c : Command σ) :
    setUps (cs ++ [c]) = setUps cs ++ (c.setUp? cs).toList := by
  rw [setUps, setUpsBehind_append, List.nil_append]
  show _ ++ ((c.setUp? cs).toList ++ []) = _
  rw [List.append_nil]
  rfl

theorem unused?_concat (id : Text) (past : List (Command σ)) (c : Command σ) :
    unused? id (past ++ [c]) = if c.concerns id then c.made? id else unused? id past := by
  rw [unused?, List.reverse_concat, List.find?_cons]
  cases c.concerns id <;> rfl

theorem Command.setUp?_of_asked {c : Command σ} {id : Text} (h : c.asked? = some id)
    (past : List (Command σ)) : c.setUp? past = (unused? id past).map Factory.setUp := by
  cases c with
  | setUp => cases h
  | factory | get | sink | log | trace | build =>
    simp only [Command.setUp?, h]
    rfl

theorem Command.made?_of_asked {c : Command σ} {id : Text} (h : c.asked? = some id) (id' : Text) :
    c.made? id' = none := by
  cases c with
  | factory => cases h
  | get | sink | setUp | log | trace | build => rfl

section
variable {limit : Nat} {stamp : Except StampError Text} {root : Root σ} {past : List (Command σ)}
  {b : Logbook σ}

/-- The state is the one that the history tells: the base logger is set up as often as it says, and
a factory that was asked for no logger yet is one that is unused by it. -/
structure Remembers (root : Root σ) (past : List (Command σ)) (b : Logbook σ) : Prop where
  base : b.base.IsSetUp root (setUps past)
  factories : ∀ id, (b.find? id).filter (fun f => !f.attached) = unused? id past

theorem remembers_nil (root : Root σ) : Remembers root [] (⟨{ root := root }, []⟩ : Logbook σ) :=
  ⟨Base.isSetUp_nil root, fun _ => rfl⟩

/-- A command that neither makes nor asks a factory nor sets up leaves all as it is. -/
theorem Remembers.idle (h : Remembers root past b) {c : Command σ} (hs : c.setUp? past = none)
    (hc : ∀ id, c.concerns id = false) : Remembers root (past ++ [c]) b := by
  refine ⟨?_, fun id => ?_⟩
  · rw [setUps_concat, hs]
    simpa using h.base
  · rw [unused?_concat, hc, h.factories]
    rfl

theorem Remembers.made (h : Remembers root past b) {c : Command σ} {id : Text} {f : Factory σ}
    (hs : c.setUp? past = none) (hf : f.attached = false)
    (hmade : ∀ id', c.made? id' = if id' = id then some f else none) (hasked : c.asked? = none) :
    Remembers root (past ++ [c]) (b.put id f) := by
  refine ⟨?_, fun id' => ?_⟩
  · rw [setUps_concat, hs, put_base]
    simpa using h.base
  · rw [unused?_concat, Command.concerns, hmade, hasked, find?_put]
    by_cases hid : id' = id
    · simp [hid, hf]
    · simpa [hid] using h.factories id'

/-- A request to a factory sets the base logger up if it is the first one. -/
theorem Remembers.asked (h : Remembers root past b) {c : Command σ} {id : Text}
    (hasked : c.asked? = some id) : Remembers root (past ++ [c]) ((b.request id).getD b) := by
  have hs := Command.setUp?_of_asked hasked past
  have hmade := Command.made?_of_asked hasked
  have hconcerns : ∀ id', c.concerns id' = (id == id') := by
    intro id'
    rw [Command.concerns, hmade, hasked]
    rfl
  have hfactories := h.factories id
  cases hfind : b.find? id with
  | none =>
    rw [hfind] at hfactories
    have hunused : unused? id past = none := hfactories.symm
    have hleft : (b.request id).getD b = b := by rw [request, hfind]; rfl
    rw [hleft]
    refine ⟨?_, fun id' => ?_⟩
    · rw [setUps_concat, hs, hunused]
      simpa using h.base
    · rw [unused?_concat, hconcerns, hmade]
      by_cases hid : id = id'
      · subst hid
        simp [hfind]
      · simpa [hid] using h.factories id'
  | some f =>
    rw [hfind] at hfactories
    have hleft : (b.request id).getD b =
        { b with base := (f.request b.base).2 }.put id (f.request b.base).1 := by
      rw [request, hfind]
      rfl
    rw [hleft]
    rw [Option.filter_some] at hfactories
    refine ⟨?_, fun id' => ?_⟩
    · rw [setUps_concat, hs, ← hfactories, put_base]
      show ((f.request b.base).2).IsSetUp root _
      cases hf : f.attached with
      | true =>
        rw [Factory.request_of_attached hf]
        simpa [hf] using h.base
      | false =>
        have hbase : (f.request b.base).2 = b.base.setUpBy f.setUp := by
          rw [Factory.request, hf]
          rfl
        rw [hbase]
        simpa [hf] using h.base.setUpBy f.setUp
    · rw [unused?_concat, hconcerns, hmade, find?_put]
      show (if id' = id then some (f.request b.base).1 else b.find? id').filter _ = _
      by_cases hid : id' = id
      · subst hid
        have hattached : (f.request b.base).1.attached = true := by
          rw [Factory.request]
          split
          · assumption
          · rfl
        simp [hattached]
      · have hne : id ≠ id' := fun e => hid e.symm
        simpa [hid, hne] using h.factories id'

/-- Whatever else it does, a command that asks a factory leaves what the request leaves. -/
theorem step_of_asked {c : Command σ} {id : Text} (h : c.asked? = some id) :
    (b.step limit stamp c).2 = (b.request id).getD b := by
  cases c with
  | get id' name =>
    obtain rfl := Option.some.inj h
    simp only [Logbook.step]
    cases b.request id' <;> rfl
  | sink id' =>
    obtain rfl := Option.some.inj h
    simp only [Logbook.step]
    cases b.request id' <;> rfl
  | build id' template data settings =>
    cases ho : Options.ofSettings settings with
    | error e => simp [Command.asked?, ho, Except.toOption] at h
    | ok o =>
      have hid : id' = id := by simpa [Command.asked?, ho, Except.toOption] using h
      subst hid
      simp only [Logbook.step, ho]
      cases b.request id' <;> rfl
  | factory | setUp | log | trace => cases h

theorem Remembers.step (h : Remembers root past b) (c : Command σ) :
    Remembers root (past ++ [c]) (b.step limit stamp c).2 := by
  cases hasked : c.asked? with
  | some id =>
    rw [step_of_asked hasked]
    exact h.asked hasked
  | none =>
    cases c with
    | factory id settings format level stream =>
      cases ho : Options.ofSettings settings with
      | error e =>
        have hmade : ∀ id', (Command.factory id settings format level stream).made? id' = none := by
          intro id'
          simp [Command.made?, ho, Except.toOption]
        have hleft : (b.step limit stamp (.factory id settings format level stream)).2 = b := by
          simp [Logbook.step, ho]
        rw [hleft]
        refine h.idle rfl fun id' => ?_
        rw [Command.concerns, hmade]
        rfl
      | ok o =>
        have hleft : (b.step limit stamp (.factory id settings format level stream)).2 =
            b.put id (Factory.make o format level stream) := by
          simp [Logbook.step, ho]
        rw [hleft]
        refine h.made rfl rfl (fun id' => ?_) rfl
        simp [Command.made?, ho, Except.toOption, eq_comm]
    | setUp format level stream =>
      refine ⟨?_, fun id => ?_⟩
      · rw [setUps_concat]
        exact h.base.setUpBy ⟨format, level.getD defaultLevel, stream⟩
      · rw [unused?_concat]
        exact h.factories id
    | log name level message args context => exact h.idle rfl fun _ => rfl
    | trace name message context => exact h.idle rfl fun _ => rfl
    | build id template data settings memory =>
      have hleft : (b.step limit stamp (.build id template data settings memory)).2 = b := by
        cases ho : Options.ofSettings settings with
        | error e => simp [Logbook.step, ho]
        | ok o => simp [Command.asked?, ho, Except.toOption] at hasked
      rw [hleft]
      refine h.idle ?_ fun id' => ?_
      · rw [Command.setUp?, hasked]
        · rfl
        · nofun
      · rw [Command.concerns, hasked]
        rfl
    | get | sink => cases hasked

/-- So it is after any commands, by induction on them. -/
theorem Remembers.after (h : Remembers root past b) (cs : List (Command σ)) :
    Remembers root (past ++ cs) (after limit stamp b cs) := by
  induction cs generalizing past b with
  | nil =>
    rw [List.append_nil]
    exact h
  | cons c cs ih =>
    have hstep : Remembers root (past ++ [c]) (b.step limit stamp c).2 := h.step c
    have := ih hstep
    rwa [List.append_assoc] at this

end

/-! ## runs -/

section
variable (limit : Nat) (stamp : Except StampError Text) (root : Root σ)

/-- A logbook below `root` whose base logger has not been set up. -/
def unset (root : Root σ) : Logbook σ := ⟨{ root := root }, []⟩

/-- What the commands `cs` leave of it. -/
def left (cs : List (Command σ)) : Logbook σ := after limit stamp (unset root) cs

theorem remembers_left (cs : List (Command σ)) : Remembers root cs (left limit stamp root cs) :=
  (remembers_nil root).after cs

end

section
variable {limit : Nat} {stamp : Except StampError Text} {root : Root σ} {cs : List (Command σ)}
  {x : SetUp σ}

end

/-- A factory, a set-up in front of its first request, and a second request. -/
def requests : List (Command Nat) :=
  [.factory "f".toList {} .json (some Level.debug) 0, .setUp .plain none 1,
    .get "f".toList "x".toList, .sink "f".toList]

end Logbook
end Citations
