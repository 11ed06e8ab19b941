import Citations.Json.Printer
import Citations.Log.Message
import Citations.Log.Note
import Citations.Log.Stamp

/-!
# Log records

* `Record`          what is told on a logger: name, level, time stamp, message and a context;
* `Record.json`     the record as one object in the JSON format;
* `Record.plain`    level and message;
* `RecordError`     why a record cannot be written.
-/

namespace Citations

inductive RecordError where
  | stamp (e : StampError)
  | message (e : MessageError)
  | write (e : Json.WriteError)
  deriving DecidableEq, Repr

def RecordError.text : RecordError → Text
  | .stamp e => e.message
  | .message e => e.message
  | .write e => e.message

structure Record where
  name : Text
  level : Int
  stamp : Except StampError Text
  message : Except MessageError Text
  /-- only a mapping that is not empty is written -/
  context : Value := .null

def version : Text := "1.0.0".toList

namespace Record

/-- The context, if it is one to be written. -/
def contextEntries (r : Record) : Entries :=
  match r.context with
  | .dict es => es
  | _ => []

/-- The object that a record is. -/
def object (stamp message : Text) (r : Record) : Value :=
  let fields : List (Value × Value) := [
    (.text "ts".toList, .text stamp),
    (.text "level".toList, .text (Level.name r.level)),
    (.text "module".toList, .text r.name),
    (.text "msg".toList, .text message),
    (.text "version".toList, .text version)]
  match r.contextEntries with
  | [] => .dict fields
  | es => .dict (fields ++ [(.text "ctx".toList, .dict es)])

/-- Of several faults the time stamp's comes first, then the message's. -/
def json (r : Record) : Except RecordError Text :=
  match r.stamp with
  | .error e => .error (.stamp e)
  | .ok stamp =>
    match r.message with
    | .error e => .error (.message e)
    | .ok message => (Json.print (r.object stamp message)).mapError .write

def plain (r : Record) : Except RecordError Text :=
  match r.message with
  | .error e => .error (.message e)
  | .ok message => .ok (Level.name r.level ++ ':' :: ' ' :: message)

/-- The record of a note on a logger. -/
def ofNote (stamp : Except StampError Text) (logger : Text) (n : Note) : Record where
  name := logger
  level := n.level
  stamp := stamp
  message := .ok n.message

end Record
end Citations
