import Citations.Command.Files
import Citations.Command.Rendering
import Citations.Command.Usage
import Citations.Json.Reader
import Citations.Log.Factory
import Citations.Text.Lines

/-!
# Running the command line

The arguments and the environment say what to render; template and data are read, the citation is
rendered and written.  Nothing is written before the rendering has succeeded.  Faults of the input
are told on the log and end the run with a status: 1 for files and assignments, 2 for templates and
data that are no mapping, and for arguments that are refused.

* `Host`            reading and writing in some monad;
* `Stop`            how a run ends without a citation;
* `Command.run`     the run;
* `World`, `World.host`   a host whose files, streams, clock and stack are values.
-/

namespace Citations

/-- What a run reads from and writes to. -/
structure Host (m : Type → Type) where
  readFile : Path → m (Except FileError (List UInt8))
  writeFile : Path → List UInt8 → m (Except FileError Unit)
  /-- the rest of the standard input -/
  readInput : m (List UInt8)
  writeOutput : Text → m Unit
  writeLog : Text → m Unit
  stamp : m (Except StampError Text)

/-- Faults that no status is kept for. -/
inductive Crash where
  | nullByte
  | undecodable (e : Utf8Error)
  | unencodable (e : UnpairedError)
  /-- data beyond what is read -/
  | data (e : Json.Fault)
  | citation (e : CitationError)
  /-- nothing is given for the name of the template file -/
  | noFileName
  /-- nothing is given for the template -/
  | noTemplate
  deriving DecidableEq, Repr

def Crash.message : Crash → Text
  | .nullByte => "embedded null byte".toList
  | .undecodable e => e.message
  | .unencodable e => e.message
  | .data e => e.message
  | .citation e => e.message
  | .noFileName => "expected str, bytes or os.PathLike object, not list".toList
  | .noTemplate => "'list' object has no attribute 'replace'".toList

/-- How a run ends without a citation. -/
inductive Stop where
  | exit (status : Nat)
  | crash (c : Crash)
  deriving DecidableEq, Repr

namespace Command

def ioStatus : Nat := 1
def templateStatus : Nat := 2
def usageStatus : Nat := 2

def options (env : List (Text × Text)) (a : Arguments) : Options :=
  let o := Options.ofEnvironment env
  { debug := a.debug || o.debug
    strict := a.strict || o.strict
    comboSeparator := (a.separator.bind Operand.text?).getD o.comboSeparator }

def format (a : Arguments) : Format := if a.jsonLogs then .json else .plain

def base (o : Options) (a : Arguments) : Base Unit :=
  ((Factory.make o (format a) none ()).request {}).2

/-! ## assignments -/

inductive AssignmentError where
  | noSign (argument : Text)
  | noKey (argument : Text)
  deriving DecidableEq, Repr

def AssignmentError.message : AssignmentError → Text
  | .noSign t => "-e/--set expects KEY=VALUE (got '".toList ++ t ++ "')".toList
  | .noKey t => "-e/--set expects a non-empty KEY (got '".toList ++ t ++ "')".toList

/-- What stands for an assignment of nothing. -/
def noAssignment : Text := "[]".toList

/-- Key and value of an assignment; blanks around the key do not belong to it. -/
def assignment (t : Text) : Except AssignmentError (Value × Value) :=
  match Text.cutAt '=' t with
  | none => .error (.noSign t)
  | some (k, v) =>
    if Text.trimmed k = [] then .error (.noKey t)
    else .ok (.text (Text.trimmed k), .text v)

def assignments (vs : List Operand) : Except AssignmentError Entries :=
  (vs.mapM fun v => assignment (v.text?.getD noAssignment)).map Entries.ofList

/-! ## a run -/

section
variable {m : Type → Type} [Monad m]

/-- Tells records on the log. -/
def tell (host : Host m) (b : Base Unit) (rs : Except StampError Text → List Record) :
    ExceptT Stop m Unit := do
  let stamp ← host.stamp
  host.writeLog ((b.writeAll (rs stamp)).flatMap (·.2))

/-- Tells a fault and ends the run. -/
def fatal {α : Type} (host : Host m) (b : Base Unit) (message : Text) (status : Nat) :
    ExceptT Stop m α := do
  tell host b fun stamp => [⟨LoggerName.base, Level.error, stamp, .ok message, .null⟩]
  throw (.exit status)

/-- The text that bytes stand for, its lines ended alike. -/
def textOf (bytes : List UInt8) : ExceptT Stop m Text :=
  match Utf8.decode bytes with
  | .error e => throw (.crash (.undecodable e))
  | .ok t => return Text.unixLines t

/-- The text of a file, or of the standard input for `-`. -/
def readText (host : Host m) (b : Base Unit) (ref : Text) : ExceptT Stop m Text := do
  if ref = ['-'] then textOf (← host.readInput)
  else if ref.contains (Char.ofNat 0) then throw (.crash .nullByte)
  else
    let path := Path.ofText ref
    match ← host.readFile path with
    | .error e =>
      fatal host b ("cannot read ".toList ++ ref ++ ": ".toList ++ e.message path) ioStatus
    | .ok bytes => textOf bytes

/-- The entries of a data file, read with at most `depth` arrays and objects around each other; an
empty name stands for none. -/
def readData (host : Host m) (b : Base Unit) (depth : Nat) (ref : Text) :
    ExceptT Stop m Entries := do
  if ref = [] then return []
  else
    let t ← readText host b ref
    match Json.readWithin depth t with
    | .ok (.dict es) => return es
    | .ok v =>
      fatal host b
        ("data file ".toList ++ ref ++ " must hold a JSON object, got ".toList ++ v.kindName)
        templateStatus
    | .error e =>
      match e.fault with
      | .digits _ | .depth _ => throw (.crash (.data e.fault))
      | _ =>
        fatal host b ("invalid JSON in ".toList ++ ref ++ ": ".toList ++ e.message t) ioStatus

/-- The template that the arguments name, if they do not give nothing for it. -/
def readTemplate (host : Host m) (b : Base Unit) (a : Arguments) : ExceptT Stop m (Option Text) :=
  match a.template, a.templateFile with
  | some v, _ => return v.text?
  | none, some .nothing => throw (.crash .noFileName)
  | none, some (.text ref) => some <$> readText host b ref
  | none, none => some <$> readText host b []

def textOrEmpty (v : Option Operand) : Text := (v.bind Operand.text?).getD []

/-- The data that the arguments name: assignments win over the file. -/
def readEntries (host : Host m) (b : Base Unit) (depth : Nat) (a : Arguments) :
    ExceptT Stop m Entries := do
  let es ← readData host b depth (textOrEmpty a.data)
  match assignments a.assignments with
  | .error e => fatal host b e.message ioStatus
  | .ok new => return es.overlay new

/-- The result of a rendering whose notes have been told. -/
def resultOf (host : Host m) (b : Base Unit) : Except CitationError Text → ExceptT Stop m Text
  | .ok t => return t
  | .error (.template e) => fatal host b e.message templateStatus
  | .error (.data k) => fatal host b (CitationError.data k).message templateStatus
  | .error e => throw (.crash (.citation e))

/-- The citation, with its notes told on the log. -/
def renderPlain (host : Host m) (b : Base Unit) (rendered : Entries → Noted CitationError Text)
    (data : Entries) : ExceptT Stop m Text := do
  let x := rendered data
  tell host b fun stamp => x.notes.map (Record.ofNote stamp LoggerName.builder)
  resultOf host b x.outcome

/-- The citation of data in which halves of pairs stand alone, unless it holds such. -/
def renderUnpaired (host : Host m) (b : Base Unit) (rendered : Entries → Noted CitationError Text)
    (data : Entries) : ExceptT Stop m (Except UnpairedError Text) := do
  let x := rendered data
  let y := rendered (Rendering.disguised data)
  tell host b fun stamp => (x.notes.zip y.notes).map fun (n, o) =>
    { Record.ofNote stamp LoggerName.builder n with
      message := .ok (Rendering.message n.message o.message) }
  let s ← resultOf host b x.outcome
  let t ← resultOf host b y.outcome
  match Utf8.firstFault? (Rendering.codePoints s t) with
  | some e => return .error e
  | none => return .ok s

/-- The citation, unless it cannot be written. -/
def render (host : Host m) (b : Base Unit) (rendered : Entries → Noted CitationError Text)
    (data : Entries) : ExceptT Stop m (Except UnpairedError Text) :=
  if data.any fun e => Rendering.isUnpaired e.2 then renderUnpaired host b rendered data
  else .ok <$> renderPlain host b rendered data

/-- Writes the citation as a line; one that cannot be written leaves a file empty. -/
def writeCitation (host : Host m) (b : Base Unit) (output : Text)
    (citation : Except UnpairedError Text) : ExceptT Stop m Text := do
  if output = [] then
    match citation with
    | .error e => throw (.crash (.unencodable e))
    | .ok t =>
      host.writeOutput (t ++ ['\n'])
      return t
  else if output.contains (Char.ofNat 0) then throw (.crash .nullByte)
  else
    let path := Path.ofText output
    let bytes := match citation with
      | .error _ => []
      | .ok t => Utf8.encode (t ++ ['\n'])
    match ← host.writeFile path bytes with
    | .error e =>
      fatal host b ("cannot write ".toList ++ output ++ ": ".toList ++ e.message path) ioStatus
    | .ok () =>
      match citation with
      | .error e => throw (.crash (.unencodable e))
      | .ok t => return t

/-- A run with arguments that have been read. -/
def runWith (host : Host m) (stack : Stack) (limit : Nat) (env : List (Text × Text))
    (a : Arguments) : ExceptT Stop m Text := do
  let o := options env a
  let b := base o a
  let template ← readTemplate host b a
  let data ← readEntries host b stack.reading a
  match template with
  | none => throw (.crash .noTemplate)
  | some template =>
    let isJoined := a.separator ≠ some .nothing
    let citation ← render host b (Rendering.rendered stack limit o isJoined template) data
    writeCitation host b (textOrEmpty a.output) citation

/-- A run: the citation, or how it ended without one. -/
def run (host : Host m) (stack : Stack) (limit : Nat) (env : List (Text × Text))
    (arguments : List Text) : ExceptT Stop m Text :=
  match Arguments.parse arguments with
  | .error .help => do
    host.writeOutput Usage.help
    throw (.exit 0)
  | .error (.usage e) => do
    host.writeLog (Usage.refusal e)
    throw (.exit usageStatus)
  | .ok a => runWith host stack limit env a

end
end Command

/-! ## a world of values -/

/-- Files, streams, clock and stack as values. -/
structure World where
  files : FileTree := {}
  input : List UInt8 := []
  output : Text := []
  log : Text := []
  /-- the time stamp of all records -/
  clock : Text
  stack : Stack

namespace World

/-- A first read takes all of the standard input. -/
def host : Host (StateM World) where
  readFile p := do return (← get).files.read p
  writeFile p bytes := do
    let w ← get
    match w.files.write p bytes with
    | .error e => return .error e
    | .ok files =>
      set { w with files := files }
      return .ok ()
  readInput := do
    let w ← get
    set { w with input := [] }
    return w.input
  writeOutput t := modify fun w => { w with output := w.output ++ t }
  writeLog t := modify fun w => { w with log := w.log ++ t }
  stamp := do return .ok (← get).clock

/-- How a run ends, and the world that it leaves. -/
def run (limit : Nat) (env : List (Text × Text)) (arguments : List Text) (w : World) :
    Except Stop Text × World :=
  (Command.run host w.stack limit env arguments).run w

end World
end Citations
