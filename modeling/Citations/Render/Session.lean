import Citations.Log.Name
import Citations.Named
import Citations.Render.Citation

/-!
# Sessions

A session keeps citations, suspended runs and engines under names, and answers one command after
the other.  A run makes its passes only as it is asked for texts.  The mapping that a citation was
made from may change later; the citation keeps the data that it was made with.  Things lie in other
places as each command is answered, so a command that renders tells where.

* `Session`, `Session.Command`, `Session.Reply`;
* `Session.step`    what a command answers, notes, and leaves.
-/

namespace Citations

/-- A citation with the logger that its notes go to. -/
structure Session.Held where
  citation : Citation
  logger : Text

/-- A suspended run of a citation; after its end, or an error, there is no stage. -/
structure Session.Run where
  held : Session.Held
  stage : Option Stage

structure Session.HeldEngine where
  engine : Engine
  logger : Text

structure Session where
  citations : List (Text × Session.Held) := []
  /-- the mappings that the citations were made from, as they are now -/
  sources : List (Text × Entries) := []
  runs : List (Text × Session.Run) := []
  engines : List (Text × Session.HeldEngine) := []

namespace Session

/-- What a session can be asked. -/
inductive Command where
  | make (id template : Text) (data : Value) (settings : Settings) (logger : Text)
  | build (id : Text) (memory : Memory := .blank)
  /-- a run of a citation, under a name of its own -/
  | start (id : Text) (run : Text := id)
  | next (run : Text) (memory : Memory := .blank)
  /-- a change to the mapping that a citation was made from -/
  | changeSource (id : Text) (key value : Value)
  /-- a change to the data of a citation itself -/
  | changeData (id : Text)
  | data (id : Text)
  | options (id : Text)
  | engine (id : Text) (options : Except OptionsError Options) (logger : Text)
  | render (id template : Text) (data : Value) (memory : Memory := .blank)
  | renderMany (id template : Text) (records : List Value) (memory : Memory := .blank)

inductive Error where
  | citation (e : CitationError)
  | unknown (id : Text)
  /-- the data of a citation does not change -/
  | readOnly
  deriving DecidableEq, Repr

def Error.message : Error → Text
  | .citation e => e.message
  | .unknown id => Text.quoted id
  | .readOnly => "'mappingproxy' object does not support item assignment".toList

inductive Reply where
  | template (t : Text)
  | text (t : Text)
  | texts (ts : List Text)
  | nothing
  | ended
  | accepted
  | entries (es : List (Value × Text))
  | options (o : Options)
  | failed (e : Error)

/-- A note with the name of its logger. -/
abbrev Heard := Text × Note

/-- An answer with what the base logger heard. -/
structure Answer where
  reply : Reply
  heard : List Heard := []

/-! ## answers -/

/-- Notes on a logger that is not below the base are not heard. -/
def heardOn (logger : Text) (ns : List Note) : List Heard :=
  if LoggerName.belowBase logger then ns.map fun n => (logger, n) else []

/-- The answer that a result with notes gives. -/
def answerOf {α : Type} (logger : Text) (x : Noted CitationError α) (f : α → Reply) : Answer :=
  ⟨match x.outcome with
    | .ok a => f a
    | .error e => .failed (.citation e),
   heardOn logger x.notes⟩

def unknown (id : Text) : Answer := ⟨.failed (.unknown id), []⟩

/-- Whether the entries stand in the order of their keys. -/
def keyLe (a b : Value × Text) : Bool :=
  match a.1, b.1 with
  | .text s, .text t => s.isUpTo t
  | _, _ => true

/-- Asks a run for its next text. -/
def advance (memory : Memory) (r : Run) : Answer × Run :=
  match r.stage with
  | none => (⟨.ended, []⟩, r)
  | some s =>
    let x := (r.held.citation.inMemory memory).next s
    let heard := heardOn r.held.logger x.notes
    match x.outcome with
    | .error e => (⟨.failed (.citation (.placeholder e)), heard⟩, { r with stage := none })
    | .ok none => (⟨.ended, heard⟩, { r with stage := none })
    | .ok (some s') => (⟨.text s'.text, heard⟩, { r with stage := some s' })

/-- What a command answers and leaves; a build makes at most `limit` steps. -/
def step (limit : Nat) (s : Session) : Command → Answer × Session
  | .make id template data settings logger =>
    match Options.ofSettings settings with
    | .error e => (⟨.failed (.citation (.options e)), []⟩, s)
    | .ok o =>
      let x := Citation.make o template data
      (answerOf logger x fun c => .template c.template,
        match x.outcome with
        | .error _ => s
        | .ok c =>
          { s with
            citations := Named.put id ⟨c, logger⟩ s.citations
            sources := Named.put id c.data s.sources })
  | .build id memory =>
    match Named.find? id s.citations with
    | none => (unknown id, s)
    | some h => (answerOf h.logger ((h.citation.inMemory memory).build limit) .text, s)
  | .start id run =>
    match Named.find? id s.citations with
    | none => (unknown id, s)
    | some h => (⟨.nothing, []⟩, { s with runs := Named.put run ⟨h, some h.citation.start⟩ s.runs })
  | .next run memory =>
    match Named.find? run s.runs with
    | none => (unknown run, s)
    | some r =>
      let (a, r') := advance memory r
      (a, { s with runs := Named.put run r' s.runs })
  | .changeSource id key value =>
    match Named.find? id s.sources with
    | none => (unknown id, s)
    | some es => (⟨.nothing, []⟩, { s with sources := Named.put id (es.insert key value) s.sources })
  | .changeData id =>
    match Named.find? id s.citations with
    | none => (unknown id, s)
    | some _ => (⟨.failed .readOnly, []⟩, s)
  | .data id =>
    match Named.find? id s.citations with
    | none => (unknown id, s)
    | some h =>
      (⟨.entries ((h.citation.data.map fun (k, v) => (k, v.display)).mergeSort keyLe), []⟩, s)
  | .options id =>
    match Named.find? id s.citations, Named.find? id s.engines with
    | some h, _ => (⟨.options h.citation.options, []⟩, s)
    | none, some e => (⟨.options e.engine.options, []⟩, s)
    | none, none => (unknown id, s)
  | .engine id options logger =>
    match options with
    | .error e => (⟨.failed (.citation (.options e)), []⟩, s)
    | .ok o => (⟨.accepted, []⟩, { s with engines := Named.put id ⟨⟨o⟩, logger⟩ s.engines })
  | .render id template data memory =>
    match Named.find? id s.engines with
    | none => (unknown id, s)
    | some e => (answerOf e.logger (e.engine.render limit template data memory) .text, s)
  | .renderMany id template records memory =>
    match Named.find? id s.engines with
    | none => (unknown id, s)
    | some e => (answerOf e.logger (e.engine.renderMany limit template records memory) .texts, s)

def run (limit : Nat) (s : Session) : List Command → List Answer
  | [] => []
  | c :: cs => (s.step limit c).1 :: run limit (s.step limit c).2 cs

end Session
end Citations
