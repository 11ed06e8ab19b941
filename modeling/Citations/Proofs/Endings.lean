import Citations.Proofs.Faults

/-!
# How a run ends

A run ends with the first fault of what it is given, and where there is none it has written its
citation.  On the way it reads its input and tells notes on the log; it changes nothing else.

* `World.OnTheWay`   what a run may have changed before it ends;
* `World.Ends`       a run that has written its citation, or that the first fault has ended;
* `World.run_ends`   so does every run with arguments that are read;
* `World.failure_atomic`, `World.status_iff_told`   what a failed run leaves, and when it has a
                     status.
-/

namespace Citations
namespace World
open Command

/-! ## what is told -/

/-- The logger of a run. -/
abbrev logger (env : List (Text × Text)) (a : Arguments) : Base Unit := base (options env a) a

/-- The line that an error on the base logger is on the log of a run. -/
def errorLine (a : Arguments) (stamp message : Text) : Text :=
  match format a with
  | .plain => "ERROR: ".toList ++ message ++ ['\n']
  | .json =>
    "\x7b\"ts\": ".toList ++ Json.quoted stamp ++
      ", \"level\": \"ERROR\", \"module\": \"citebuilder\", \"msg\": ".toList ++
      Json.quoted message ++ ", \"version\": \"1.0.0\"\x7d\n".toList

/-- What a verdict is on the log: the line of an error, or nothing. -/
def verdictLine (a : Arguments) (stamp : Text) : Verdict → Text
  | .told _ m => errorLine a stamp m
  | .crash _ => []

section
variable (env : List (Text × Text)) (a : Arguments) (stamp m : Text)

/-- The handler of a run takes errors, whatever the options. -/
theorem taking_errorRecord :
    (logger env a).taking (Verdict.errorRecord stamp m) = [⟨(), format a⟩] := by
  show (Factory.make (options env a) (format a) none () |>.request {}).2.taking _ = _
  unfold Factory.make Factory.levelFor
  split <;> rfl

theorem written_errorRecord :
    (⟨(), format a⟩ : Handler Unit).written (Verdict.errorRecord stamp m) =
      [((), errorLine a stamp m)] := by
  unfold Handler.written Handler.line errorLine
  cases format a with
  | plain =>
    show [((), ("ERROR".toList ++ ':' :: ' ' :: m) ++ ['\n'])] = _
    rw [List.append_assoc]
    rfl
  | json =>
    have hprint : (Verdict.errorRecord stamp m).json = .ok ('{' :: Text.joined [',', ' '] [
        Json.quoted "ts".toList ++ ':' :: ' ' :: Json.quoted stamp,
        Json.quoted "level".toList ++ ':' :: ' ' :: Json.quoted "ERROR".toList,
        Json.quoted "module".toList ++ ':' :: ' ' :: Json.quoted LoggerName.base,
        Json.quoted "msg".toList ++ ':' :: ' ' :: Json.quoted m,
        Json.quoted "version".toList ++ ':' :: ' ' :: Json.quoted version] ++ ['}']) := rfl
    dsimp only
    rw [hprint]
    simp only [Text.joined, List.cons_append, List.append_assoc, List.nil_append]
    rfl

theorem lines_records (v : Verdict) :
    lines (logger env a) (v.records stamp) = verdictLine a stamp v := by
  cases v with
  | told n m =>
    show ((logger env a).writeAll [Verdict.errorRecord stamp m]).flatMap (·.2) = errorLine a stamp m
    rw [Base.writeAll_cons, Base.writeAll_nil, List.append_nil, Base.write, taking_errorRecord,
      List.flatMap_singleton, written_errorRecord, List.flatMap_singleton]
  | crash c => rfl

end

/-! ## worlds on the way -/

/-- The log has grown by the lines of records without an error, and then by `line`. -/
def Logged (b : Base Unit) (line : Text) (w w' : World) : Prop :=
  ∃ notes, Record.NoError notes ∧ w'.log = w.log ++ lines b notes ++ line

/-- `w'` is `w` but for input that has been read, and for records without an error. -/
def OnTheWay (b : Base Unit) (w w' : World) : Prop :=
  ∃ input notes, Record.NoError notes ∧ w' = { w.told b notes with input := input }

section
variable {b : Base Unit} {w w' : World}

theorem OnTheWay.refl (b : Base Unit) (w : World) : OnTheWay b w w := by
  refine ⟨w.input, [], fun _ h => absurd h List.not_mem_nil, ?_⟩
  rw [told_nil]

theorem OnTheWay.files (h : OnTheWay b w w') : w'.files = w.files := by
  obtain ⟨input, notes, _, rfl⟩ := h
  rfl

theorem OnTheWay.outputFaults_eq (h : OnTheWay b w w') (a : Arguments) :
    outputFaults a w' = outputFaults a w := by
  obtain ⟨input, notes, _, rfl⟩ := h
  rfl

theorem OnTheWay.lineFaults_eq (h : OnTheWay b w w') (a : Arguments)
    (c : Except UnpairedError Text) : lineFaults a w' c = lineFaults a w c := by
  obtain ⟨input, notes, _, rfl⟩ := h
  rfl

theorem OnTheWay.afterRead (h : OnTheWay b w w') (ref : Text) :
    OnTheWay b w (w'.afterRead ref) := by
  obtain ⟨input, notes, hnotes, rfl⟩ := h
  unfold World.afterRead
  split
  · exact ⟨[], notes, hnotes, rfl⟩
  · exact ⟨input, notes, hnotes, rfl⟩

theorem OnTheWay.afterTemplate (b : Base Unit) (w : World) (a : Arguments) :
    OnTheWay b w (w.afterTemplate a) := by
  unfold World.afterTemplate
  split
  · exact .refl b w
  · exact (OnTheWay.refl b w).afterRead _

theorem OnTheWay.afterEntries (b : Base Unit) (w : World) (a : Arguments) :
    OnTheWay b w (w.afterEntries a) :=
  (OnTheWay.afterTemplate b w a).afterRead _

theorem OnTheWay.told (h : OnTheWay b w w') {rs : List Record} (hrs : Record.NoError rs) :
    OnTheWay b w (w'.told b rs) := by
  obtain ⟨input, notes, hnotes, rfl⟩ := h
  refine ⟨input, notes ++ rs, ?_, ?_⟩
  · intro r hr
    rcases List.mem_append.mp hr with hr | hr
    · exact hnotes r hr
    · exact hrs r hr
  · rw [← told_told]
    rfl

end

/-! ## how a run ends -/

section
variable (limit : Nat) (env : List (Text × Text)) (a : Arguments) (w : World)

/-- A run that has written its citation, or that the first fault has ended. -/
inductive Ends : Except Stop Text × World → Prop where
  | delivered {t s : Text} {es : Entries} {w' : World} (hnone : w.faults limit env a = [])
      (htemplate : w.template a = .ok (some t)) (hdata : w.data a = .ok es)
      (hcited : w.cited limit env a t es = .ok (.ok s)) (hwritten : Written a s w w')
      (hlog : Logged (logger env a) [] w w') : Ends (.ok s, w')
  | halted {f : Fault} {w' : World} (hfirst : (w.faults limit env a).head? = some f)
      (houtput : w'.output = w.output)
      (hfiles : (∀ es, w.data a = .ok es → Rendering.holdsHalves es = false) → w'.files = w.files)
      (hlog : Logged (logger env a) (verdictLine a w.clock f.verdict) w w') :
      Ends (.error f.verdict.stop, w')

variable {limit env a w}

/-- The first fault ends a run on its way; where halves of pairs stand alone, files may have
changed. -/
theorem Ends.of_halt_files {f : Fault} {w' : World} {files : FileTree}
    (hfirst : (w.faults limit env a).head? = some f) (hway : OnTheWay (logger env a) w w')
    (hfiles : (∀ es, w.data a = .ok es → Rendering.holdsHalves es = false) → files = w.files) :
    Ends limit env a w (({ w' with files := files } : World).halt (logger env a) f.verdict) := by
  obtain ⟨input, notes, hnotes, rfl⟩ := hway
  refine .halted hfirst rfl hfiles ⟨notes, hnotes, ?_⟩
  show w.log ++ lines _ notes ++ lines _ (f.verdict.records w.clock) = _
  rw [lines_records]

theorem Ends.of_halt {f : Fault} {w' : World} (hfirst : (w.faults limit env a).head? = some f)
    (hway : OnTheWay (logger env a) w w') :
    Ends limit env a w (w'.halt (logger env a) f.verdict) :=
  .of_halt_files hfirst hway fun _ => hway.files

/-- The end of a run with a citation that takes a line. -/
theorem Ends.of_line {t s : Text} {es : Entries} {w' : World} (ht : w.template a = .ok (some t))
    (hd : w.data a = .ok es) (hc : w.cited limit env a t es = .ok (.ok s))
    (hopen : outputFaults a w = []) (hway : OnTheWay (logger env a) w w') :
    Ends limit env a w
      ((writeCitation World.host (logger env a) (textOrEmpty a.output) (.ok s)).run w') := by
  have hfaults := faults_of_cited ht hd hc
  rw [hopen] at hfaults
  have hopen' : outputFaults a w' = [] := (hway.outputFaults_eq a).trans hopen
  have hline := hway.lineFaults_eq a (.ok s)
  cases hl : lineFaults a w (.ok s) with
  | cons f fs =>
    have hf : f ∈ lineFaults a w' (.ok s) := by
      rw [hline, hl]
      exact List.mem_cons_self
    rw [run_writeCitation_of_lineFault hf]
    refine .of_halt ?_ hway
    rw [hfaults, hl]
    rfl
  | nil =>
    rw [hl] at hline hfaults
    obtain ⟨w'', hwrite, hwritten, hlog⟩ :=
      run_writeCitation_of_none (b := logger env a) hopen' hline
    rw [hwrite]
    obtain ⟨input, notes, hnotes, rfl⟩ := hway
    refine .delivered hfaults ht hd hc hwritten ⟨notes, hnotes, ?_⟩
    rw [hlog, List.append_nil]
    rfl

/-- The end of a run with a citation, whether it takes a line or not. -/
theorem Ends.of_cited {t : Text} {es : Entries} {c : Except UnpairedError Text} {w' : World}
    (ht : w.template a = .ok (some t)) (hd : w.data a = .ok es)
    (hc : w.cited limit env a t es = .ok c) (hway : OnTheWay (logger env a) w w') :
    Ends limit env a w
      ((writeCitation World.host (logger env a) (textOrEmpty a.output) c).run w') := by
  have hfaults := faults_of_cited ht hd hc
  have houtput := hway.outputFaults_eq a
  cases ho : outputFaults a w with
  | cons f fs =>
    have hf : f ∈ outputFaults a w' := by
      rw [houtput, ho]
      exact List.mem_cons_self
    rw [run_writeCitation_of_outputFault hf]
    refine .of_halt ?_ hway
    rw [hfaults, ho]
    rfl
  | nil =>
    cases c with
    | ok s => exact .of_line ht hd hc ho hway
    | error e =>
      rw [ho] at houtput hfaults
      obtain ⟨files, hwrite⟩ := run_writeCitation_unencodable (b := logger env a) houtput e
      rw [hwrite]
      refine .of_halt_files ?_ hway ?_
      · rw [hfaults]
        rfl
      · intro hpaired
        have hwhole := Rendering.holdsHalves_of_error hc
        rw [hpaired es hd] at hwhole
        cases hwhole

/-- The end of a run that has read its template and its data. -/
theorem Ends.of_given {t : Text} {es : Entries} {w' : World} (ht : w.template a = .ok (some t))
    (hd : w.data a = .ok es) (hway : OnTheWay (logger env a) w w') :
    Ends limit env a w ((do
      let c ← render World.host (logger env a)
        (Rendering.rendered w.stack limit (options env a) (a.separator ≠ some .nothing) t) es
      writeCitation World.host (logger env a) (textOrEmpty a.output) c : Action Text).run w') := by
  obtain ⟨notes, hnotes, hrun⟩ := run_render (logger env a) w'
    (Rendering.rendered w.stack limit (options env a) (a.separator ≠ some .nothing) t) es
  have hway := hway.told hnotes
  have hcited : Rendering.citation
      (Rendering.rendered w.stack limit (options env a) (a.separator ≠ some .nothing) t) es =
        w.cited limit env a t es := rfl
  rw [hcited] at hrun
  cases hc : w.cited limit env a t es with
  | error e =>
    rw [hc] at hrun
    rw [run_bind_of_halt hrun]
    exact .of_halt (first_of_cited ht hd hc) hway
  | ok c =>
    rw [hc] at hrun
    rw [run_bind_of_ok hrun]
    exact .of_cited ht hd hc hway

/-- A run with arguments that have been read writes its citation or ends with the first fault. -/
theorem run_ends {arguments : List Text} (h : Arguments.parse arguments = .ok a) :
    Ends limit env a w (w.run limit env arguments) := by
  unfold World.run Command.run
  rw [h]
  show Ends limit env a w ((runWith World.host w.stack limit env a).run w)
  unfold runWith
  dsimp only
  rw [run_bind, run_readTemplate]
  cases ht : w.template a with
  | error f => exact .of_halt (first_of_template ht) (.afterTemplate _ w a)
  | ok t =>
    dsimp only
    rw [run_bind, run_readEntries]
    cases hd : w.data a with
    | error f => exact .of_halt (first_of_data ht hd) (.afterEntries _ w a)
    | ok es =>
      cases t with
      | some t => exact .of_given ht hd (.afterEntries _ w a)
      | none =>
        have hcrash := run_crash (α := Text) (logger env a) (w.afterEntries a) .noTemplate
        dsimp only
        rw [hcrash]
        exact .of_halt (first_of_noTemplate ht hd) (.afterEntries _ w a)

/-! ## what a failed run leaves -/

/-- The first fault tells how a run ends. -/
theorem stop_of_first {f : Fault} {r : Except Stop Text} {w' : World}
    (hends : Ends limit env a w (r, w')) (hfirst : (w.faults limit env a).head? = some f) :
    r = .error f.verdict.stop ∧ Logged (logger env a) (verdictLine a w.clock f.verdict) w w' := by
  cases hends with
  | delivered hnone =>
    rw [hnone] at hfirst
    cases hfirst
  | halted hfirst' _ _ hlog =>
    rw [hfirst'] at hfirst
    cases hfirst
    exact ⟨rfl, hlog⟩

/-- A run that does not succeed writes nothing; a status is that of the first fault, told in the
only error on the log; and a run that succeeds has been given nothing faulty. -/
theorem failure_atomic {arguments : List Text} {r : Except Stop Text} {w' : World}
    (h : Arguments.parse arguments = .ok a)
    (hpaired : ∀ es, w.data a = .ok es → Rendering.holdsHalves es = false)
    (hrun : w.run limit env arguments = (r, w')) :
    (∀ stop, r = .error stop → w'.output = w.output ∧ w'.files = w.files) ∧
    (∀ n, r = .error (.exit n) → n ≠ 0 ∧
      ∃ f m, (w.faults limit env a).head? = some f ∧ f.verdict = .told n m ∧
        Logged (logger env a) (errorLine a w.clock m) w w') ∧
    (∀ f, (w.faults limit env a).head? = some f → r = .error f.verdict.stop) ∧
    (∀ s, r = .ok s → w.faults limit env a = []) := by
  have hends : Ends limit env a w (r, w') := hrun ▸ run_ends h
  refine ⟨?_, ?_, fun f hf => (stop_of_first hends hf).1, ?_⟩
  · intro stop hr
    cases hends with
    | delivered => cases hr
    | halted _ houtput hfiles _ => exact ⟨houtput, hfiles hpaired⟩
  · intro n hr
    cases hends with
    | delivered => cases hr
    | halted hfirst _ _ hlog =>
      obtain ⟨m, hv⟩ := Verdict.eq_told_of_stop (Except.error.inj hr)
      rw [hv] at hlog
      refine ⟨?_, _, m, hfirst, hv, hlog⟩
      rcases Fault.status_of_told hv with hn | hn
      · rw [hn]
        decide
      · rw [hn]
        decide
  · intro s hr
    cases hends with
    | delivered hnone => exact hnone
    | halted => cases hr

end

/-- A stack that holds little. -/
def shallow : Stack where
  reading := 100
  scans depth _ := depth < 100
  resolves depth _ := depth < 100

/-- A world without files. -/
def bare : World where
  clock := []
  stack := shallow

/-- A token outside every fragment. -/
def stray : List Text := ["-t".toList, "@a".toList, "-e".toList, "a=1".toList]

def strayArguments : Arguments where
  template := some (.text "@a".toList)
  assignments := [.text "a=1".toList]

/-- The run with such a template ends with a status, and leaves output and files as they are. -/
theorem stray_stopped :
    Arguments.parse stray = .ok strayArguments ∧
    (∀ es, bare.data strayArguments = .ok es → Rendering.holdsHalves es = false) ∧
    (bare.run 1 [] stray).1 = .error (.exit templateStatus) ∧
    (bare.run 1 [] stray).2.output = [] ∧ (bare.run 1 [] stray).2.files = bare.files := by
  have hparse : Arguments.parse stray = .ok strayArguments := by rfl
  have hpaired : ∀ es, bare.data strayArguments = .ok es → Rendering.holdsHalves es = false := by
    intro es hes
    cases hes
    rfl
  have hrun : bare.run 1 [] stray = ((bare.run 1 [] stray).1, (bare.run 1 [] stray).2) := rfl
  obtain ⟨hkept, _, hfirst, _⟩ := failure_atomic hparse hpaired hrun
  have hstop := hfirst (.rejected (.counts 0 0 1)) rfl
  obtain ⟨houtput, hfiles⟩ := hkept _ hstop
  exact ⟨hparse, hpaired, hstop, houtput, hfiles⟩

section
variable {limit : Nat} {env : List (Text × Text)} {a : Arguments} {w : World}

/-- A run ends with a status just where its first fault, if there is any, has one: then it is 1 or
2, and the fault is told on the log. -/
theorem status_iff_told {arguments : List Text} {r : Except Stop Text} {w' : World}
    (h : Arguments.parse arguments = .ok a) (hrun : w.run limit env arguments = (r, w')) :
    (((∃ s, r = .ok s) ∨ r = .error (.exit ioStatus) ∨ r = .error (.exit templateStatus)) ↔
      ∀ f, (w.faults limit env a).head? = some f → ∃ n m, f.verdict = .told n m) ∧
    ∀ f n m, (w.faults limit env a).head? = some f → f.verdict = .told n m →
      r = .error (.exit n) ∧ Logged (logger env a) (errorLine a w.clock m) w w' := by
  have hends : Ends limit env a w (r, w') := hrun ▸ run_ends h
  refine ⟨⟨?_, ?_⟩, ?_⟩
  · intro hr f hf
    have hstop := (stop_of_first hends hf).1
    rcases hr with ⟨s, hr⟩ | hr | hr
    · rw [hr] at hstop
      cases hstop
    · rw [hr] at hstop
      exact ⟨_, Verdict.eq_told_of_stop (Except.error.inj hstop).symm⟩
    · rw [hr] at hstop
      exact ⟨_, Verdict.eq_told_of_stop (Except.error.inj hstop).symm⟩
  · intro htold
    cases hends with
    | delivered => exact Or.inl ⟨_, rfl⟩
    | halted hfirst =>
      obtain ⟨n, m, hv⟩ := htold _ hfirst
      refine Or.inr ?_
      rw [hv]
      rcases Fault.status_of_told hv with hn | hn
      · exact Or.inl (hn ▸ rfl)
      · exact Or.inr (hn ▸ rfl)
  · intro f n m hf hv
    obtain ⟨hstop, hlog⟩ := stop_of_first hends hf
    rw [hv] at hstop hlog
    exact ⟨hstop, hlog⟩

end

/-- Data from the standard input. -/
def piped : List Text := ["-t".toList, "\x7b@a\x7d".toList, "-d".toList, "-".toList]

def pipedArguments : Arguments where
  template := some (.text "\x7b@a\x7d".toList)
  data := some (.text "-".toList)

/-- An empty input is not in the JSON format, and the run tells so. -/
theorem piped_told :
    Arguments.parse piped = .ok pipedArguments ∧
    (bare.run 1 [] piped).1 = .error (.exit ioStatus) := by
  have hparse : Arguments.parse piped = .ok pipedArguments := by rfl
  have hrun : bare.run 1 [] piped = ((bare.run 1 [] piped).1, (bare.run 1 [] piped).2) := rfl
  obtain ⟨_, htold⟩ := status_iff_told hparse hrun
  exact ⟨hparse, (htold (.json "-".toList [] ⟨.value, 0⟩) _ _ rfl rfl).1⟩

/-- A template file that holds no text. -/
def garbled : World where
  files := .ofHome [(["t.txt".toList], [0xff])]
  clock := []
  stack := shallow

def garbledFile : List Text := ["-T".toList, "t.txt".toList]

/-- What cannot be decoded ends a run without a status, and nothing is told. -/
theorem garbled_escapes :
    Arguments.parse garbledFile = .ok { templateFile := some (.text "t.txt".toList) } ∧
    (garbled.run 1 [] garbledFile).1 = .error (.crash (.undecodable ⟨.badStart, 0, 1, 0xff⟩)) ∧
    (garbled.run 1 [] garbledFile).2.log = [] :=
  ⟨rfl, rfl, rfl⟩

end World
end Citations
