import Citations.Proofs.Files
import Citations.Proofs.Inputs
import Citations.Proofs.Outcomes

/-!
# The faults of a run

All that is wrong with what a run is given can be listed before it starts, in the order in which
the run comes to it: those of the template, of the data, of the rendering and of the output.

* `run_render`           the rendering of a run, its steps told on the log;
* `World.faults`         the list;
* `World.first_of_template` and the others   the first fault, by what has been read;
* `World.Written`        the world with the line of a citation in it;
* `World.run_writeCitation_of_none` and the others   the writing, by the faults of the output.
-/

namespace Citations

/-! ## notes -/

theorem Note.level_ne_error (n : Note) : n.level ≠ Level.error := by
  unfold Note.level
  split <;> decide

/-- Records among which there is no error. -/
def Record.NoError (rs : List Record) : Prop := ∀ r ∈ rs, r.level ≠ Level.error

namespace Command
open World

section
variable (b : Base Unit) (w : World)

theorem run_resultOf (x : Except CitationError Text) :
    (resultOf World.host b x).run w =
      match x with
      | .error e => w.halt b (Fault.ofCitation e).verdict
      | .ok t => (.ok t, w) := by
  cases x with
  | ok t => rfl
  | error e => cases e <;> first | rfl | exact run_crash b w _

theorem run_whole (s t : Text) :
    (match Utf8.firstFault? (Rendering.codePoints s t) with
      | some e => return .error e
      | none => return .ok s : Action (Except UnpairedError Text)).run w =
      (.ok (Rendering.whole s t), w) := by
  unfold Rendering.whole
  cases Utf8.firstFault? (Rendering.codePoints s t) <;> rfl

/-- A rendering notes its steps, and then there is a citation or the fault that ends the run. -/
theorem run_render (rendered : Entries → Noted CitationError Text) (data : Entries) :
    ∃ rs, Record.NoError rs ∧
      (render World.host b rendered data).run w =
        match Rendering.citation rendered data with
        | .error e => (w.told b rs).halt b (Fault.ofCitation e).verdict
        | .ok c => (.ok c, w.told b rs) := by
  have hrender : render World.host b rendered data =
      if Rendering.holdsHalves data then renderUnpaired World.host b rendered data
      else .ok <$> renderPlain World.host b rendered data := rfl
  rw [hrender]
  unfold Rendering.citation
  split
  · refine ⟨((rendered data).notes.zip (rendered (Rendering.disguised data)).notes).map fun p =>
      { Record.ofNote (.ok w.clock) LoggerName.builder p.1 with
        message := .ok (Rendering.message p.1.message p.2.message) }, ?_, ?_⟩
    · intro r hr
      obtain ⟨p, _, rfl⟩ := List.mem_map.mp hr
      exact p.1.level_ne_error
    · unfold renderUnpaired
      rw [run_bind_of_ok (run_tell b w _), run_bind, run_resultOf]
      cases (rendered data).outcome with
      | error e => rfl
      | ok s =>
        dsimp only
        rw [run_bind, run_resultOf]
        cases (rendered (Rendering.disguised data)).outcome with
        | error e => rfl
        | ok t => exact run_whole _ s t
  · refine ⟨(rendered data).notes.map (Record.ofNote (.ok w.clock) LoggerName.builder), ?_, ?_⟩
    · intro r hr
      obtain ⟨n, _, rfl⟩ := List.mem_map.mp hr
      exact n.level_ne_error
    · unfold renderPlain
      rw [map_eq_pure_bind, run_bind, run_bind_of_ok (run_tell b w _), run_resultOf]
      cases (rendered data).outcome <;> rfl

end

end Command

/-! ## what is written -/

theorem FileTree.write_of_unopened {t : FileTree} {p : Path} {e : FileError}
    (h : t.write p [] = .error e) (bytes : List UInt8) : t.write p bytes = .error e := by
  unfold FileTree.write at h ⊢
  cases hp : t.locate p with
  | error e' =>
    rw [hp] at h
    exact h
  | ok place =>
    rw [hp] at h
    dsimp only at h ⊢
    cases hn : t.node place with
    | directory =>
      rw [hn] at h
      exact h
    | device d =>
      rw [hn] at h
      cases d <;> cases h
    | file bs =>
      rw [hn] at h
      cases h
    | nothing =>
      rw [hn] at h
      cases h

namespace World
open Command

/-- A world in which the line of a citation is in the output file, or, for an empty name, on the
standard output; nothing else has been written. -/
def Written (a : Arguments) (s : Text) (w w' : World) : Prop :=
  if textOrEmpty a.output = [] then w'.output = w.output ++ (s ++ ['\n']) ∧ w'.files = w.files
  else
    w'.output = w.output ∧
      w.files.Takes (Path.ofText (textOrEmpty a.output)) (Utf8.encode (s ++ ['\n'])) w'.files

/-! ## the list of faults -/

/-- The fault that a step ends in, if it does. -/
def faultsOf {ε α : Type} (fault : ε → Fault) : Except ε α → List Fault
  | .error e => [fault e]
  | .ok _ => []

section
variable (limit : Nat) (env : List (Text × Text)) (a : Arguments) (w : World)

/-- What is rendered of a template and data, as far as the stack holds it. -/
def cited (template : Text) (data : Entries) : Except CitationError (Except UnpairedError Text) :=
  Rendering.citation
    (Rendering.rendered w.stack limit (options env a) (a.separator ≠ some .nothing) template) data

/-- The faults of a template, whatever the data. -/
def templateFaults : Option Text → List Fault
  | none => [.noTemplate]
  | some t => faultsOf .rejected (Template.check (options env a).strict (Template.normalize t))

/-- The fault of the passes over an accepted template. -/
def passFaults : Except CitationError (Except UnpairedError Text) → List Fault
  | .error (.template _) => []
  | x => faultsOf .uncited x

def outputFaults : List Fault :=
  let output := textOrEmpty a.output
  if output = [] then []
  else if output.contains (Char.ofNat 0) then [.outputName]
  else faultsOf (.unopened output) (w.files.write (Path.ofText output) [])

/-- What is written to a file; a citation that cannot be encoded leaves it empty. -/
def lineBytes : Except UnpairedError Text → List UInt8
  | .error _ => []
  | .ok s => Utf8.encode (s ++ ['\n'])

/-- The fault of the line of a citation, where the output takes lines at all. -/
def lineFaults : Except UnpairedError Text → List Fault
  | .error e => [.unencodable e]
  | .ok s =>
    let output := textOrEmpty a.output
    if output = [] ∨ outputFaults a w ≠ [] then []
    else faultsOf (.unfinished output) (w.files.write (Path.ofText output) (lineBytes (.ok s)))

/-- All faults of what a run is given, in the order in which it comes to them. -/
def faults : List Fault :=
  let citation := do
    let t ← (w.template a).toOption.join
    let es ← (w.data a).toOption
    return w.cited limit env a t es
  faultsOf id (w.template a) ++ faultsOf id (w.entries a) ++
    faultsOf .assignment (assignments a.assignments) ++
    (w.template a).toOption.elim [] (templateFaults env a) ++
    citation.elim [] passFaults ++
    outputFaults a w ++
    (citation.bind Except.toOption).elim [] (lineFaults a w)

end

/-! ## writing -/

section
variable (b : Base Unit) (a : Arguments) (w : World)

theorem run_writeFile (p : Path) (bytes : List UInt8) :
    (World.host.writeFile p bytes : Action _).run w =
      match w.files.write p bytes with
      | .error e => (.ok (.error e), w)
      | .ok files => (.ok (.ok ()), { w with files := files }) := by
  show (match w.files.write p bytes with
    | .error e => (pure (.error e) : StateM World (Except FileError Unit))
    | .ok files => do
      set { w with files := files }
      return .ok ()).map Except.ok w = _
  cases w.files.write p bytes <;> rfl

variable {a}

/-- Writing to a file with a name: it is opened even for a citation that takes no line. -/
theorem run_writeCitation_file (hout : textOrEmpty a.output ≠ [])
    (hnull : (textOrEmpty a.output).contains (Char.ofNat 0) = false)
    (c : Except UnpairedError Text) :
    (writeCitation World.host b (textOrEmpty a.output) c).run w =
      match w.files.write (Path.ofText (textOrEmpty a.output)) (lineBytes c) with
      | .error e => w.halt b (Fault.unopened (textOrEmpty a.output) e).verdict
      | .ok files =>
        match c with
        | .error e => ({ w with files := files } : World).halt b (Fault.unencodable e).verdict
        | .ok s => (.ok s, { w with files := files }) := by
  unfold writeCitation
  rw [if_neg hout, hnull, if_neg Bool.false_ne_true]
  show ((World.host.writeFile (Path.ofText (textOrEmpty a.output)) (lineBytes c) : Action _) >>=
    _).run w = _
  rw [run_bind, run_writeFile]
  cases w.files.write (Path.ofText (textOrEmpty a.output)) (lineBytes c) with
  | error e => rfl
  | ok files =>
    cases c with
    | error e => exact run_crash b _ _
    | ok s => rfl

variable {b w}

theorem run_writeCitation_of_outputFault {f : Fault} (hf : f ∈ outputFaults a w)
    (c : Except UnpairedError Text) :
    (writeCitation World.host b (textOrEmpty a.output) c).run w = w.halt b f.verdict := by
  unfold outputFaults at hf
  dsimp only at hf
  split at hf
  · cases hf
  · next hout =>
    split at hf
    · next hnull =>
      unfold writeCitation
      rw [if_neg hout, if_pos hnull, List.mem_singleton.mp hf]
      exact run_crash b w .nullByte
    · next hnull =>
      rw [run_writeCitation_file b w hout (Bool.eq_false_iff.mpr hnull)]
      cases hopen : w.files.write (Path.ofText (textOrEmpty a.output)) [] with
      | ok files =>
        rw [hopen] at hf
        cases hf
      | error e =>
        rw [hopen] at hf
        rw [FileTree.write_of_unopened hopen, List.mem_singleton.mp hf]

/-- An output without faults is the standard output or a file that can be opened. -/
theorem opens_of_no_fault (h : outputFaults a w = []) :
    textOrEmpty a.output = [] ∨ textOrEmpty a.output ≠ [] ∧
      (textOrEmpty a.output).contains (Char.ofNat 0) = false ∧
        ∃ files, w.files.write (Path.ofText (textOrEmpty a.output)) [] = .ok files := by
  unfold outputFaults at h
  dsimp only at h
  split at h
  · next hout => exact Or.inl hout
  · next hout =>
    refine Or.inr ⟨hout, ?_⟩
    split at h
    · cases h
    · next hnull =>
      refine ⟨Bool.eq_false_iff.mpr hnull, ?_⟩
      cases hopen : w.files.write (Path.ofText (textOrEmpty a.output)) [] with
      | ok files => exact ⟨files, rfl⟩
      | error e =>
        rw [hopen] at h
        cases h

theorem run_writeCitation_unencodable (h : outputFaults a w = []) (e : UnpairedError) :
    ∃ files, (writeCitation World.host b (textOrEmpty a.output) (.error e)).run w =
      ({ w with files := files } : World).halt b (Fault.unencodable e).verdict := by
  obtain hout | ⟨hout, hnull, files, hopen⟩ := opens_of_no_fault h
  · refine ⟨w.files, ?_⟩
    unfold writeCitation
    rw [if_pos hout]
    exact run_crash b w _
  · refine ⟨files, ?_⟩
    have hopen : w.files.write _ (lineBytes (.error e)) = .ok files := hopen
    rw [run_writeCitation_file b w hout hnull, hopen]

theorem run_writeCitation_of_lineFault {s : Text} {f : Fault} (hf : f ∈ lineFaults a w (.ok s)) :
    (writeCitation World.host b (textOrEmpty a.output) (.ok s)).run w = w.halt b f.verdict := by
  unfold lineFaults at hf
  dsimp only at hf
  split at hf
  · cases hf
  · next hsome =>
    obtain ⟨hout, hfine⟩ := not_or.mp hsome
    obtain hout' | ⟨_, hnull, _⟩ := opens_of_no_fault (Classical.not_not.mp hfine)
    · exact absurd hout' hout
    · rw [run_writeCitation_file b w hout hnull]
      cases hwrite : w.files.write (Path.ofText (textOrEmpty a.output)) (lineBytes (.ok s)) with
      | ok files =>
        rw [hwrite] at hf
        cases hf
      | error e =>
        rw [hwrite] at hf
        rw [List.mem_singleton.mp hf]
        rfl

theorem run_writeCitation_of_none {s : Text} (h : outputFaults a w = [])
    (hs : lineFaults a w (.ok s) = []) :
    ∃ w', (writeCitation World.host b (textOrEmpty a.output) (.ok s)).run w = (.ok s, w') ∧
      Written a s w w' ∧ w'.log = w.log := by
  unfold Written
  obtain hout | ⟨hout, hnull, _⟩ := opens_of_no_fault h
  · refine ⟨{ w with output := w.output ++ (s ++ ['\n']) }, ?_, ?_, rfl⟩
    · unfold writeCitation
      rw [if_pos hout]
      rfl
    · rw [if_pos hout]
      exact ⟨rfl, rfl⟩
  · have hsome : ¬(textOrEmpty a.output = [] ∨ outputFaults a w ≠ []) :=
      not_or.mpr ⟨hout, fun hne => hne h⟩
    unfold lineFaults at hs
    dsimp only at hs
    rw [if_neg hsome] at hs
    rw [run_writeCitation_file b w hout hnull]
    cases hwrite : w.files.write (Path.ofText (textOrEmpty a.output)) (lineBytes (.ok s)) with
    | ok files =>
      refine ⟨{ w with files := files }, rfl, ?_, rfl⟩
      rw [if_neg hout]
      exact ⟨rfl, FileTree.takes_of_write hwrite (Utf8.encode_line_ne_nil s)⟩
    | error e =>
      rw [hwrite] at hs
      cases hs

end

/-! ## the first fault -/

section
variable {limit : Nat} {env : List (Text × Text)} {a : Arguments} {w : World}

theorem data_eq_ok {es : Entries} (h : w.data a = .ok es) :
    ∃ old new, w.entries a = .ok old ∧ assignments a.assignments = .ok new ∧
      es = old.overlay new := by
  unfold data at h
  obtain ⟨old, hold, h⟩ := bind_eq_ok.mp h
  obtain ⟨new, hnew, h⟩ := bind_eq_ok.mp h
  exact ⟨old, new, hold, mapError_eq_ok.mp hnew, (Except.ok.inj h).symm⟩

theorem first_of_template {f : Fault} (h : w.template a = .error f) :
    (w.faults limit env a).head? = some f := by
  unfold faults
  rw [h]
  rfl

theorem first_of_data {t : Option Text} {f : Fault} (ht : w.template a = .ok t)
    (h : w.data a = .error f) : (w.faults limit env a).head? = some f := by
  unfold data at h
  rcases bind_eq_error.mp h with hentries | ⟨old, hold, h⟩
  · unfold faults
    rw [ht, hentries]
    rfl
  · unfold faults
    rw [ht, hold]
    cases hnew : assignments a.assignments with
    | error e =>
      rw [hnew] at h
      cases h
      rfl
    | ok new =>
      rw [hnew] at h
      cases h

theorem first_of_noTemplate {es : Entries} (ht : w.template a = .ok none) (h : w.data a = .ok es) :
    (w.faults limit env a).head? = some .noTemplate := by
  obtain ⟨old, new, he, hn, _⟩ := data_eq_ok h
  unfold faults
  rw [ht, he, hn]
  rfl

/-- With a template and data the faults are those of the rendering, and then of the output. -/
theorem faults_of_given {t : Text} {es : Entries} (ht : w.template a = .ok (some t))
    (h : w.data a = .ok es) :
    w.faults limit env a =
      templateFaults env a (some t) ++ passFaults (w.cited limit env a t es) ++ outputFaults a w ++
        (w.cited limit env a t es).toOption.elim [] (lineFaults a w) := by
  obtain ⟨old, new, he, hn, _⟩ := data_eq_ok h
  unfold faults
  rw [ht, h, he, hn]
  rfl

theorem first_of_cited {t : Text} {es : Entries} {e : CitationError}
    (ht : w.template a = .ok (some t)) (h : w.data a = .ok es)
    (hc : w.cited limit env a t es = .error e) :
    (w.faults limit env a).head? = some (.ofCitation e) := by
  rw [faults_of_given ht h, hc]
  show (faultsOf .rejected (Template.check _ (Template.normalize t)) ++ _ ++ _ ++ _).head? = _
  cases hcheck : Template.check (options env a).strict (Template.normalize t) with
  | error e' =>
    have hrefused : w.cited limit env a t es = .error (.template e') :=
      Rendering.citation_of_error (Rendering.rendered_refused hcheck w.stack limit _ es)
    rw [hrefused] at hc
    cases hc
    rfl
  | ok u =>
    obtain ⟨data, hdata⟩ := Rendering.citation_eq_error hc
    obtain ⟨s, hs⟩ | ⟨e', hpass, he'⟩ := Rendering.rendered_accepted hcheck _
    · rw [hs] at hdata
      cases hdata
    · rw [he'] at hdata
      cases hdata
      cases hpass <;> rfl

theorem faults_of_cited {t : Text} {es : Entries} {c : Except UnpairedError Text}
    (ht : w.template a = .ok (some t)) (h : w.data a = .ok es)
    (hc : w.cited limit env a t es = .ok c) :
    w.faults limit env a = outputFaults a w ++ lineFaults a w c := by
  rw [faults_of_given ht h, hc]
  show faultsOf .rejected (Template.check _ (Template.normalize t)) ++ [] ++ _ ++ _ = _
  cases hcheck : Template.check (options env a).strict (Template.normalize t) with
  | error e' =>
    have hrefused : w.cited limit env a t es = .error (.template e') :=
      Rendering.citation_of_error (Rendering.rendered_refused hcheck w.stack limit _ es)
    rw [hrefused] at hc
    cases hc
  | ok u => rfl

end

end World
end Citations
