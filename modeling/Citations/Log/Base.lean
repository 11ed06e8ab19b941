import Citations.Log.Name
import Citations.Log.Record

/-!
# The base logger

The base logger has a level and handlers, each of which writes records to a stream, as plain text or
in the JSON format.  Its records also go on to the root logger above it, unless they are kept from
it.  The first set-up installs a handler and keeps the records; every set-up sets the level.

* `Root`                 the root logger;
* `Base`                 level and handlers of the base logger, below the root logger;
* `Base.setUp`           a set-up;
* `Base.effectiveLevel`  the level that counts for a logger, and `Base.enabled` the records that do;
* `Base.handlersOf`      the handlers above a logger, and `Base.taking` those that take a record;
* `Base.write`           the lines that a record becomes.
-/

namespace Citations

inductive Format where
  | plain
  | json
  deriving DecidableEq, Repr

structure Handler (σ : Type) where
  stream : σ
  format : Format
  deriving DecidableEq, Repr

namespace Handler
variable {σ : Type}

def line (h : Handler σ) (r : Record) : Except RecordError Text :=
  match h.format with
  | .plain => r.plain
  | .json => r.json

/-- What a handler writes of a record: nothing where it has no line for it. -/
def written (h : Handler σ) (r : Record) : List (σ × Text) :=
  match h.line r with
  | .error _ => []
  | .ok line => [(h.stream, line ++ ['\n'])]

end Handler

/-- The logger above all others. -/
structure Root (σ : Type) where
  level : Int := Level.warning
  handlers : List (Handler σ) := []
  deriving DecidableEq, Repr

structure Base (σ : Type) where
  level : Int := 0
  handlers : List (Handler σ) := []
  /-- whether records go on to the root logger -/
  propagates : Bool := true
  root : Root σ := {}
  deriving DecidableEq, Repr

namespace Base
variable {σ : Type}

/-- Sets the level; where there is no handler yet, installs one that keeps the records. -/
def setUp (b : Base σ) (format : Format) (level : Int) (stream : σ) : Base σ :=
  if b.handlers.isEmpty then
    { b with
      level := level
      propagates := false
      handlers := b.handlers ++ [⟨stream, format⟩] }
  else { b with level := level }

theorem setUp_of_handled {b : Base σ} (hb : b.handlers ≠ []) (f : Format) (l : Int) (s : σ) :
    b.setUp f l s = { b with level := l } := by
  simp [setUp, hb]

theorem setUp_of_bare {b : Base σ} (hb : b.handlers = []) (f : Format) (l : Int) (s : σ) :
    b.setUp f l s = { b with level := l, propagates := false, handlers := [⟨s, f⟩] } := by
  simp [setUp, hb]

/-- A level of zero sets none, so that of the root logger counts. -/
def effectiveLevel (b : Base σ) (logger : Text) : Int :=
  if LoggerName.belowBase logger && b.level != 0 then b.level else b.root.level

/-- The handlers that records of a logger are passed to. -/
def handlersOf (b : Base σ) (logger : Text) : List (Handler σ) :=
  if LoggerName.belowBase logger then b.handlers ++ (if b.propagates then b.root.handlers else [])
  else b.root.handlers

/-- Whether records of a level count on a logger: they are above what is disabled altogether, and
not below the effective level. -/
def enabled (b : Base σ) (logger : Text) (level : Int) : Bool :=
  Level.disabled < level && b.effectiveLevel logger ≤ level

/-- The handlers that a record reaches: none if its level does not count. -/
def taking (b : Base σ) (r : Record) : List (Handler σ) :=
  if b.enabled r.name r.level then b.handlersOf r.name else []

/-- What a record becomes. -/
def write (b : Base σ) (r : Record) : List (σ × Text) := (b.taking r).flatMap fun h => h.written r

def writeAll (b : Base σ) (rs : List Record) : List (σ × Text) := rs.flatMap b.write

theorem writeAll_nil (b : Base σ) : b.writeAll [] = [] := rfl
theorem writeAll_cons (b : Base σ) (r : Record) (rs : List Record) :
    b.writeAll (r :: rs) = b.write r ++ b.writeAll rs := by
  simp [writeAll]

end Base
end Citations
