import Std.Time.DateTime.Timestamp
import Citations.Command.Run

/-!
# The program

The command line on the files, streams and clock of the machine.

* `Machine.host`   reads and writes there;
* `Machine.run`    gives the status: 0 after a citation and after help.
-/

namespace Citations
namespace Machine

/-- The fault of a number, which may be counted down from zero, with a reason in small letters. -/
def numbered (number : UInt32) (reason : String) : FileError :=
  let n := number.toNat
  match if n < Number.twoTo 31 then n else Number.twoTo 32 - n with
  | 2 => .missing
  | 20 => .noDirectory
  | 21 => .isDirectory
  | 28 => .noSpace
  | 36 => .nameTooLong
  | n => .other n reason.capitalize.toList

def fileError : IO.Error → FileError
  | .alreadyExists _ n r | .otherError n r | .resourceBusy n r | .resourceVanished n r
  | .unsupportedOperation n r | .hardwareFault n r | .unsatisfiedConstraints n r
  | .illegalOperation n r | .protocolError n r | .timeExpired n r | .interrupted _ n r
  | .noFileOrDirectory _ n r | .invalidArgument _ n r | .permissionDenied _ n r
  | .resourceExhausted _ n r | .inappropriateType _ n r | .noSuchThing _ n r => numbered n r
  | .unexpectedEof => numbered 5 "input/output error"
  | .userError r => numbered 5 r

def attempt {α : Type} (x : IO α) : IO (Except FileError α) := do
  match ← x.toBaseIO with
  | .ok a => return .ok a
  | .error e => return .error (fileError e)

def stamp : IO (Except StampError Text) := do
  let now := (← Std.Time.Timestamp.now).toNanosecondsSinceUnixEpoch.val
  return Stamp.ofSeconds (now / 1000000000) (now % 1000000000 / 1000).toNat

def host : Host IO where
  readFile p := attempt do
    let bytes ← IO.FS.readBinFile (String.ofList p.text)
    return bytes.toList
  writeFile p bytes := attempt (IO.FS.writeBinFile (String.ofList p.text) ⟨bytes.toArray⟩)
  readInput := do
    let bytes ← (← IO.getStdin).readBinToEnd
    return bytes.toList
  writeOutput t := do (← IO.getStdout).putStr (String.ofList t)
  writeLog t := do (← IO.getStderr).putStr (String.ofList t)
  stamp := stamp

/-- The variables that options are taken from, as far as they are set. -/
def environment : IO (List (Text × Text)) :=
  Options.variableNames.filterMapM fun name => do
    return (← IO.getEnv (String.ofList name)).map fun v => (name, v.toList)

/-- About what a run from a console finds of its stack. -/
def stack : Stack where
  reading := 990
  scans depth _ := depth < 980
  resolves depth _ := depth < 980

/-- More passes than any run that ends makes. -/
def limit : Nat := Number.twoTo 64

def run (arguments : List String) : IO UInt32 := do
  let env ← environment
  match ← (Command.run host stack limit env (arguments.map String.toList)).run with
  | .ok _ => return 0
  | .error (.exit status) => return status.toUInt32
  | .error (.crash c) =>
    host.writeLog (c.message ++ ['\n'])
    return 1

end Machine
end Citations

def main (arguments : List String) : IO UInt32 := Citations.Machine.run arguments
