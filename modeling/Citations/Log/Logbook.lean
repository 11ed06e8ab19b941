import Citations.Log.Factory
import Citations.Named
import Citations.Render.Citation

/-!
# Logbooks

A logbook keeps the base logger and factories under names, and carries out one command after the
other: set-ups, requests to factories, records told on loggers, and builds whose notes are told on
the logger that a factory hands out.

* `Logbook`, `Logbook.Command`, `Logbook.Reply`;
* `Logbook.step`   what a command answers, writes and leaves.
-/

namespace Citations

structure Logbook (σ : Type) where
  base : Base σ := {}
  factories : List (Text × Factory σ) := []

namespace Logbook
variable {σ : Type}

inductive Command (σ : Type) where
  | factory (id : Text) (settings : Settings) (format : Format) (level : Option Int) (stream : σ)
  | get (id name : Text)
  | sink (id : Text)
  | setUp (format : Format) (level : Option Int) (stream : σ)
  | log (name : Text) (level : Int) (message : Text) (args : List Value) (context : Value)
  | trace (name message : Text) (context : List (Text × Value))
  | build (id template : Text) (data : Value) (settings : Settings) (memory : Memory := .blank)

inductive Error where
  | citation (e : CitationError)
  | unknown (id : Text)
  deriving DecidableEq, Repr

def Error.message : Error → Text
  | .citation e => e.message
  | .unknown id => Text.quoted id

inductive Reply where
  | level (l : Int)
  | factory (level : Int)
  | logger (name : Text) (effective : Int)
  | name (name : Text)
  | text (t : Text)
  | nothing
  | failed (e : Error)
  deriving DecidableEq, Repr

/-- An answer with the lines written on the streams. -/
structure Answer (σ : Type) where
  reply : Reply
  lines : List (σ × Text) := []

def find? (id : Text) (b : Logbook σ) : Option (Factory σ) := Named.find? id b.factories

def put (id : Text) (f : Factory σ) (b : Logbook σ) : Logbook σ :=
  { b with factories := Named.put id f b.factories }

theorem put_base (id : Text) (f : Factory σ) (b : Logbook σ) : (b.put id f).base = b.base := rfl

theorem find?_put (id other : Text) (f : Factory σ) (b : Logbook σ) :
    (b.put id f).find? other = if other = id then some f else b.find? other :=
  Named.find?_put id other f b.factories

/-- Asks a factory for a logger, which sets the base logger up if it is the first request. -/
def request (id : Text) (b : Logbook σ) : Option (Logbook σ) :=
  (b.find? id).map fun f =>
    let (f, base) := f.request b.base
    { b with base := base }.put id f

def defaultLevel : Int := Level.info

/-- What a command answers and leaves, with `stamp` on its records; a build makes at most `limit`
steps. -/
def step (limit : Nat) (stamp : Except StampError Text) (b : Logbook σ) :
    Command σ → Answer σ × Logbook σ
  | .factory id settings format level stream =>
    match Options.ofSettings settings with
    | .error e => (⟨.failed (.citation (.options e)), []⟩, b)
    | .ok o =>
      let f := Factory.make o format level stream
      (⟨.factory f.level, []⟩, b.put id f)
  | .get id name =>
    match b.request id with
    | none => (⟨.failed (.unknown id), []⟩, b)
    | some b =>
      let logger := LoggerName.qualified name
      (⟨.logger logger (b.base.effectiveLevel logger), []⟩, b)
  | .sink id =>
    match b.request id with
    | none => (⟨.failed (.unknown id), []⟩, b)
    | some b => (⟨.name LoggerName.builder, []⟩, b)
  | .setUp format level stream =>
    let base := b.base.setUp format (level.getD defaultLevel) stream
    (⟨.level base.level, []⟩, { b with base := base })
  | .log name level message args context =>
    let r : Record := ⟨LoggerName.qualified name, level, stamp, Message.fill message args, context⟩
    (⟨.nothing, b.base.write r⟩, b)
  | .trace name message context =>
    let r : Record :=
      ⟨LoggerName.qualified name, Level.debug, stamp, .ok (traceMessage message context), .null⟩
    (⟨.nothing, b.base.write r⟩, b)
  | .build id template data settings memory =>
    match Options.ofSettings settings with
    | .error e => (⟨.failed (.citation (.options e)), []⟩, b)
    | .ok o =>
      match b.request id with
      | none => (⟨.failed (.unknown id), []⟩, b)
      | some b =>
        let x := (⟨o⟩ : Engine).render limit template data memory
        let reply := match x.outcome with
          | .ok t => Reply.text t
          | .error e => .failed (.citation e)
        (⟨reply, b.base.writeAll (x.notes.map (Record.ofNote stamp LoggerName.builder))⟩, b)

def run (limit : Nat) (stamp : Except StampError Text) (b : Logbook σ) :
    List (Command σ) → List (Answer σ)
  | [] => []
  | c :: cs => (b.step limit stamp c).1 :: run limit stamp (b.step limit stamp c).2 cs

end Logbook
end Citations
