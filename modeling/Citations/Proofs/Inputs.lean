import Citations.Command.Run

/-!
# What a run reads, and what it tells

A run reads its template and its data from the world, tells records on the log, and stops at the
first fault.  Each step of it is given here as a value of the world and as the world that it leaves.

* `World.content w ref`     the text of a file or of the standard input, or why there is none;
* `Fault`, `Fault.verdict`  all that ends a run, and how: with a status and a message, or not;
* `World.template`, `World.entries`   the template and the data of the arguments;
* `World.told`, `World.halt`   the world with records told, and a run that a fault has ended;
* `Command.run_readTemplate`, `Command.run_readEntries`   the steps that read, as such values.
-/

namespace Citations

/-! ## faults -/

/-- Why a file or the standard input gives no text. -/
inductive ReadFault where
  | nullByte
  | unreadable (e : FileError)
  | undecodable (e : Utf8Error)
  deriving DecidableEq, Repr

/-- All that ends a run without a citation. -/
inductive Fault where
  /-- nothing is given for the name of the template file -/
  | noFileName
  | template (ref : Text) (e : ReadFault)
  | data (ref : Text) (e : ReadFault)
  | json (ref t : Text) (e : Json.ReadError)
  | noObject (ref : Text) (v : Value)
  | assignment (e : Command.AssignmentError)
  /-- nothing is given for the template -/
  | noTemplate
  | rejected (e : TemplateError)
  | uncited (e : CitationError)
  /-- the name of the output file holds a null character -/
  | outputName
  | unopened (output : Text) (e : FileError)
  | unencodable (e : UnpairedError)
  /-- the output file is opened, but takes no line -/
  | unfinished (output : Text) (e : FileError)

/-- How a run ends: with a status and a message on the log, or with a fault that it lets through. -/
inductive Verdict where
  | told (status : Nat) (message : Text)
  | crash (c : Crash)

namespace Verdict

def stop : Verdict → Stop
  | .told n _ => .exit n
  | .crash c => .crash c

def errorRecord (stamp message : Text) : Record :=
  ⟨LoggerName.base, Level.error, .ok stamp, .ok message, .null⟩

theorem eq_told_of_stop {v : Verdict} {n : Nat} (h : v.stop = .exit n) : ∃ m, v = .told n m := by
  cases v with
  | told n' m =>
    cases h
    exact ⟨m, rfl⟩
  | crash c => cases h

/-- What is told on the log. -/
def records (stamp : Text) : Verdict → List Record
  | .told _ m => [errorRecord stamp m]
  | .crash _ => []

end Verdict

def Json.Fault.isBeyond : Json.Fault → Bool
  | .digits _ | .depth _ => true
  | _ => false

def ReadFault.verdict (ref : Text) : ReadFault → Verdict
  | .nullByte => .crash .nullByte
  | .unreadable e =>
    .told Command.ioStatus
      ("cannot read ".toList ++ ref ++ ": ".toList ++ e.message (Path.ofText ref))
  | .undecodable e => .crash (.undecodable e)

namespace Fault
open Command

def cannotWrite (output : Text) (e : FileError) : Text :=
  "cannot write ".toList ++ output ++ ": ".toList ++ e.message (Path.ofText output)

def verdict : Fault → Verdict
  | .noFileName => .crash .noFileName
  | .template ref e => e.verdict ref
  | .data ref e => e.verdict ref
  | .json ref t e =>
    if e.fault.isBeyond then .crash (.data e.fault)
    else .told ioStatus ("invalid JSON in ".toList ++ ref ++ ": ".toList ++ e.message t)
  | .noObject ref v =>
    .told templateStatus
      ("data file ".toList ++ ref ++ " must hold a JSON object, got ".toList ++ v.kindName)
  | .assignment e => .told ioStatus e.message
  | .noTemplate => .crash .noTemplate
  | .rejected e => .told templateStatus e.message
  | .uncited (.data k) => .told templateStatus (CitationError.data k).message
  | .uncited e => .crash (.citation e)
  | .outputName => .crash .nullByte
  | .unopened output e => .told ioStatus (cannotWrite output e)
  | .unencodable e => .crash (.unencodable e)
  | .unfinished output e => .told ioStatus (cannotWrite output e)

theorem status_of_told {f : Fault} {n : Nat} {m : Text} (h : f.verdict = .told n m) :
    n = ioStatus ∨ n = templateStatus := by
  have hread : ∀ ref (e : ReadFault), e.verdict ref = .told n m → n = ioStatus := by
    intro ref e he
    cases e <;> cases he
    rfl
  cases f with
  | template ref e => exact Or.inl (hread ref e h)
  | data ref e => exact Or.inl (hread ref e h)
  | json ref t e =>
    have h : (if e.fault.isBeyond then Verdict.crash _ else .told ioStatus _) = .told n m := h
    split at h <;> cases h
    exact Or.inl rfl
  | uncited e =>
    cases e <;> cases h
    exact Or.inr rfl
  | noObject | rejected =>
    cases h
    exact Or.inr rfl
  | assignment | unopened | unfinished =>
    cases h
    exact Or.inl rfl
  | noFileName | noTemplate | outputName | unencodable => cases h

/-- The fault that the error of a citation is. -/
def ofCitation : CitationError → Fault
  | .template e => .rejected e
  | e => .uncited e

end Fault

/-! ## what is read -/

namespace World
open Command

/-- The text of some bytes, its lines ended alike. -/
def textOf (bytes : List UInt8) : Except ReadFault Text :=
  match Utf8.decode bytes with
  | .error e => .error (.undecodable e)
  | .ok t => .ok (Text.unixLines t)

/-- The text of a file, or of the standard input for `-`. -/
def content (w : World) (ref : Text) : Except ReadFault Text :=
  if ref = ['-'] then textOf w.input
  else if ref.contains (Char.ofNat 0) then .error .nullByte
  else
    match w.files.read (Path.ofText ref) with
    | .error e => .error (.unreadable e)
    | .ok bytes => textOf bytes

/-- A read of the standard input exhausts it. -/
def afterRead (w : World) (ref : Text) : World := if ref = ['-'] then { w with input := [] } else w

/-- The template that the arguments give, or that of the file which they name. -/
def template (w : World) (a : Arguments) : Except Fault (Option Text) :=
  match a.template with
  | some v => .ok v.text?
  | none =>
    if a.templateFile = some .nothing then .error .noFileName
    else
      match w.content (textOrEmpty a.templateFile) with
      | .error e => .error (.template (textOrEmpty a.templateFile) e)
      | .ok t => .ok (some t)

def afterTemplate (w : World) (a : Arguments) : World :=
  match a.template with
  | some _ => w
  | none => w.afterRead (textOrEmpty a.templateFile)

/-- The entries of the object that a text is in the JSON format. -/
def objectOf (depth : Nat) (ref t : Text) : Except Fault Entries :=
  match Json.readWithin depth t with
  | .error e => .error (.json ref t e)
  | .ok (.dict es) => .ok es
  | .ok v => .error (.noObject ref v)

/-- The entries of a data file; an empty name is none. -/
def fileEntries (w : World) (ref : Text) : Except Fault Entries :=
  if ref = [] then .ok []
  else
    match w.content ref with
    | .error e => .error (.data ref e)
    | .ok t => objectOf w.stack.reading ref t

/-- The entries of the data file that the arguments name, which is read behind the template. -/
def entries (w : World) (a : Arguments) : Except Fault Entries :=
  (w.afterTemplate a).fileEntries (textOrEmpty a.data)

/-- The entries of the data file with the assignments laid over them. -/
def data (w : World) (a : Arguments) : Except Fault Entries := do
  let es ← w.entries a
  let new ← (assignments a.assignments).mapError Fault.assignment
  return es.overlay new

def afterEntries (w : World) (a : Arguments) : World :=
  (w.afterTemplate a).afterRead (textOrEmpty a.data)

/-! ## what is told -/

/-- The lines that records become. -/
def lines (b : Base Unit) (rs : List Record) : Text := (b.writeAll rs).flatMap (·.2)

theorem lines_append (b : Base Unit) (rs rs' : List Record) :
    lines b (rs ++ rs') = lines b rs ++ lines b rs' := by
  rw [lines, Base.writeAll, List.flatMap_append, List.flatMap_append]
  rfl

/-- The world with records told on the log. -/
def told (b : Base Unit) (rs : List Record) (w : World) : World :=
  { w with log := w.log ++ lines b rs }

theorem told_nil (b : Base Unit) (w : World) : w.told b [] = w := by
  show ({ w with log := w.log ++ [] } : World) = w
  rw [List.append_nil]

theorem told_told (b : Base Unit) (rs rs' : List Record) (w : World) :
    (w.told b rs).told b rs' = w.told b (rs ++ rs') := by
  show ({ w with log := w.log ++ lines b rs ++ lines b rs' } : World) =
    { w with log := w.log ++ lines b (rs ++ rs') }
  rw [lines_append, List.append_assoc]

/-- How a run ends in a world. -/
def halt {α : Type} (b : Base Unit) (v : Verdict) (w : World) : Except Stop α × World :=
  (.error v.stop, w.told b (v.records w.clock))

end World

/-! ## the steps of a run -/

namespace Command
open World

/-- What a run does in a world. -/
abbrev Action (α : Type) := ExceptT Stop (StateM World) α

section
variable {α β : Type} {w w' : World}

theorem run_bind (x : Action α) (f : α → Action β) (w : World) :
    (x >>= f).run w =
      match x.run w with
      | (.ok a, w') => (f a).run w'
      | (.error e, w') => (.error e, w') := by
  show (match x.run w with | (r, w') => (ExceptT.bindCont f r : StateM World _) w') = _
  rcases x.run w with ⟨e | a, w'⟩
  · rfl
  · rfl

theorem run_bind_of_ok {x : Action α} {a : α} (h : x.run w = (.ok a, w')) (f : α → Action β) :
    (x >>= f).run w = (f a).run w' := by
  rw [run_bind, h]

theorem run_bind_of_halt {x : Action α} {b : Base Unit} {v : Verdict}
    (h : x.run w = w'.halt b v) (f : α → Action β) : (x >>= f).run w = w'.halt b v := by
  rw [run_bind, h]
  rfl

end

section
variable (b : Base Unit) (w : World)

theorem run_tell (rs : Except StampError Text → List Record) :
    (tell World.host b rs).run w = (.ok (), w.told b (rs (.ok w.clock))) := rfl

theorem run_crash {α : Type} (c : Crash) :
    (throw (.crash c) : Action α).run w = w.halt b (.crash c) := by
  show (Except.error (Stop.crash c), w) = (Except.error (Stop.crash c), w.told b [])
  rw [told_nil]

theorem run_textOf (ref : Text) (bytes : List UInt8) :
    (Command.textOf bytes : Action Text).run w =
      match World.textOf bytes with
      | .error e => w.halt b (e.verdict ref)
      | .ok t => (.ok t, w) := by
  unfold Command.textOf World.textOf
  cases Utf8.decode bytes with
  | error e => exact run_crash b w (.undecodable e)
  | ok t => rfl

theorem run_readFile (p : Path) :
    (World.host.readFile p : Action _).run w = (.ok (w.files.read p), w) := rfl

/-- A read gives the content, or ends the run as the fault says. -/
theorem run_readText (ref : Text) :
    (readText World.host b ref).run w =
      match w.content ref with
      | .error e => (w.afterRead ref).halt b (e.verdict ref)
      | .ok t => (.ok t, w.afterRead ref) := by
  unfold readText content afterRead
  by_cases hin : ref = ['-']
  · rw [if_pos hin, if_pos hin, if_pos hin]
    exact run_textOf b { w with input := [] } ref w.input
  · rw [if_neg hin, if_neg hin, if_neg hin]
    by_cases hnull : ref.contains (Char.ofNat 0) = true
    · rw [if_pos hnull, if_pos hnull]
      exact run_crash b w .nullByte
    · rw [if_neg hnull, if_neg hnull]
      refine (run_bind_of_ok (run_readFile w (Path.ofText ref)) _).trans ?_
      cases w.files.read (Path.ofText ref) with
      | error e => rfl
      | ok bytes => exact run_textOf b w ref bytes

/-- The template, or the fault that ends the run. -/
theorem run_readTemplate (a : Arguments) :
    (readTemplate World.host b a).run w =
      match w.template a with
      | .error f => (w.afterTemplate a).halt b f.verdict
      | .ok t => (.ok t, w.afterTemplate a) := by
  have hfile : ∀ ref, (some <$> readText World.host b ref).run w =
      match w.content ref with
      | .error e => (w.afterRead ref).halt b (e.verdict ref)
      | .ok t => (.ok (some t), w.afterRead ref) := by
    intro ref
    rw [map_eq_pure_bind, run_bind, run_readText]
    cases w.content ref <;> rfl
  unfold readTemplate template afterTemplate
  cases a.template with
  | some v => rfl
  | none =>
    cases a.templateFile with
    | none =>
      refine (hfile (textOrEmpty none)).trans ?_
      cases w.content (textOrEmpty none) <;> rfl
    | some v =>
      cases v with
      | nothing => exact run_crash b w .noFileName
      | text ref =>
        refine (hfile (textOrEmpty (some (.text ref)))).trans ?_
        cases w.content (textOrEmpty (some (.text ref))) <;> rfl

theorem run_readData (ref : Text) :
    (readData World.host b w.stack.reading ref).run w =
      match w.fileEntries ref with
      | .error f => (w.afterRead ref).halt b f.verdict
      | .ok es => (.ok es, w.afterRead ref) := by
  unfold readData fileEntries
  by_cases hempty : ref = []
  · subst hempty
    rfl
  · rw [if_neg hempty, if_neg hempty, run_bind, run_readText]
    cases w.content ref with
    | error e => rfl
    | ok t =>
      show _ = match objectOf w.stack.reading ref t with
        | .error f => (w.afterRead ref).halt b f.verdict
        | .ok es => (.ok es, w.afterRead ref)
      unfold objectOf
      dsimp only
      cases hj : Json.readWithin w.stack.reading t with
      | error e =>
        obtain ⟨f, pos⟩ := e
        cases f <;> first | rfl | exact run_crash b _ _
      | ok v => cases v <;> rfl

/-- The entries of the data, or the fault that ends the run; the template has been read. -/
theorem run_readEntries (a : Arguments) :
    (readEntries World.host b w.stack.reading a).run (w.afterTemplate a) =
      match w.data a with
      | .error f => (w.afterEntries a).halt b f.verdict
      | .ok es => (.ok es, w.afterEntries a) := by
  have hstack : (w.afterTemplate a).stack = w.stack := by
    unfold afterTemplate afterRead
    split
    · rfl
    · split <;> rfl
  unfold readEntries data
  rw [run_bind, ← hstack, run_readData]
  unfold entries afterEntries
  cases (w.afterTemplate a).fileEntries (textOrEmpty a.data) with
  | error f => rfl
  | ok es => cases assignments a.assignments <;> rfl

end

end Command
end Citations
