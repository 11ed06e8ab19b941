import Citations.Command.Switch
import Citations.Text.Quoted
import Citations.Text.Word

/-!
# The arguments of the command line

An argument that names a switch may carry its value behind `=`, or, for a short name, directly
behind the name; otherwise the next argument is the value, unless that names a switch itself.  A
long name may be cut short as long as one switch only begins so.  Behind `--` nothing is a switch,
and as a carried value `--` stands for nothing at all.

* `UsageError`        why arguments are refused;
* `Word.ofArgument`   what an argument is, looked at alone;
* `Operand`           what a switch is given;
* `Arguments`         what the arguments say;
* `Arguments.parse`   reads them, up to the first fault or request for help.
-/

namespace Citations

inductive UsageError where
  | ambiguous (argument : Text) (names : List Text)
  | missingValue (s : Switch)
  /-- a value for a switch that takes none -/
  | needlessValue (s : Switch) (value : Text)
  | conflict (s other : Switch)
  | noTemplate
  | unknown (arguments : List Text)
  deriving DecidableEq, Repr

def UsageError.message : UsageError → Text
  | .ambiguous a ns =>
    "ambiguous option: ".toList ++ a ++ " could match ".toList ++ Text.joined ", ".toList ns
  | .missingValue s => "argument ".toList ++ s.title ++ ": expected one argument".toList
  | .needlessValue s v =>
    "argument ".toList ++ s.title ++ ": ignored explicit argument ".toList ++ Text.quoted v
  | .conflict s o =>
    "argument ".toList ++ s.title ++ ": not allowed with argument ".toList ++ o.title
  | .noTemplate =>
    "one of the arguments ".toList ++ Switch.template.title ++ ' ' :: Switch.templateFile.title ++
      " is required".toList
  | .unknown ts => "unrecognized arguments: ".toList ++ Text.joined [' '] ts

namespace Command

/-! ## single arguments -/

/-- What an argument is. -/
inductive Word where
  | plain (t : Text)
  /-- a switch by its short name or not, with the value that it carries -/
  | switch (s : Switch) (short : Bool) (carried : Option Text)
  | unknown (t : Text)
  deriving DecidableEq, Repr

def isDecimalRun (t : Text) : Bool := t ≠ [] && t.all fun c => (Text.decimal? c).isSome

/-- Whether a text is a number below zero, which no switch is. -/
def isNegativeNumber (t : Text) : Bool :=
  match t with
  | '-' :: r =>
    let r := if r.getLast? = some '\n' then r.dropLast else r
    isDecimalRun r ||
      match Text.cutAt '.' r with
      | none => false
      | some (a, b) => (a.isEmpty || isDecimalRun a) && isDecimalRun b
  | _ => false

def isShort (name : Text) : Bool := name.length == 2

/-- An argument that is no full name of a switch. -/
def abbreviated (t : Text) : Except UsageError Word :=
  match t with
  | '-' :: '-' :: _ =>
    let (name, carried) := match Text.cutAt '=' t with
      | none => (t, none)
      | some (n, v) => (n, some v)
    match Switch.beginning name with
    | [] => .ok (if t.contains ' ' then .plain t else .unknown t)
    | [(_, s)] => .ok (.switch s false carried)
    | xs => .error (.ambiguous t (xs.map (·.1)))
  | '-' :: c :: r =>
    match Switch.named? ['-', c] with
    | some s => .ok (.switch s true (some r))
    | none => .ok (if isNegativeNumber t || t.contains ' ' then .plain t else .unknown t)
  | t => .ok (.plain t)

/-- What an argument is when no `--` stands before it. -/
def Word.ofArgument (t : Text) : Except UsageError Word :=
  if t.head? ≠ some '-' then .ok (.plain t)
  else
    match Switch.named? t with
    | some s => .ok (.switch s (isShort t) none)
    | none =>
      match Text.cutAt '=' t with
      | none => abbreviated t
      | some (n, v) =>
        match Switch.named? n with
        | some s => .ok (.switch s (isShort n) (some v))
        | none => abbreviated t

/-- What all arguments are; behind `--` all are plain, but `--` itself is no value. -/
def words : List Text → Except UsageError (List Word)
  | [] => .ok []
  | t :: ts =>
    if t = "--".toList then .ok (.unknown t :: ts.map .plain)
    else do
      let w ← Word.ofArgument t
      let ws ← words ts
      return w :: ws

end Command

/-! ## what switches are given -/

/-- The value of a switch: a text, or nothing where `--` is carried. -/
inductive Operand where
  | text (t : Text)
  | nothing
  deriving DecidableEq, Repr

namespace Operand

def ofCarried (t : Text) : Operand := if t = "--".toList then .nothing else .text t

def text? : Operand → Option Text
  | .text t => some t
  | .nothing => none

theorem text?_ofCarried {t : Text} (h : t ≠ "--".toList) : (ofCarried t).text? = some t := by
  rw [ofCarried, if_neg h, text?]

end Operand

namespace Command

/-- A switch with its value, if it has one. -/
abbrev Given := Switch × Option Operand

/-- The switches of one argument with what is carried behind the first, and the switch at the end
that takes its value from the next argument: behind a short name without a value more short names
may follow. -/
def cluster (s : Switch) (short : Bool) : Text → Except UsageError (List Given × Option Switch)
  | [] =>
    if s.takesValue then .ok ([(s, some (.text []))], none) else .error (.needlessValue s [])
  | c :: r =>
    if s.takesValue then .ok ([(s, some (.ofCarried (c :: r)))], none)
    else if short then
      match Switch.named? ['-', c] with
      | none => .error (.needlessValue s (c :: r))
      | some s' =>
        match r with
        | [] =>
          if s'.takesValue then .ok ([(s, none)], some s')
          else .ok ([(s, none), (s', none)], none)
        | d :: r => (cluster s' true (d :: r)).map fun (gs, e) => ((s, none) :: gs, e)
    else .error (.needlessValue s (c :: r))

end Command

/-! ## what the arguments say -/

structure Arguments where
  template : Option Operand := none
  templateFile : Option Operand := none
  strict : Bool := false
  separator : Option Operand := none
  data : Option Operand := none
  assignments : List Operand := []
  output : Option Operand := none
  debug : Bool := false
  jsonLogs : Bool := false
  deriving DecidableEq, Repr

/-- Why there is nothing to run. -/
inductive Refusal where
  | help
  | usage (e : UsageError)
  deriving DecidableEq, Repr

namespace Arguments
open Command

/-- The arguments with one more switch given. -/
def give (a : Arguments) : Given → Except Refusal Arguments
  | (.help, _) => .error .help
  | (.template, v) =>
    if a.templateFile.isSome then .error (.usage (.conflict .template .templateFile))
    else .ok { a with template := v }
  | (.templateFile, v) =>
    if a.template.isSome then .error (.usage (.conflict .templateFile .template))
    else .ok { a with templateFile := v }
  | (.strict, _) => .ok { a with strict := true }
  | (.separator, v) => .ok { a with separator := v }
  | (.data, v) => .ok { a with data := v }
  | (.assign, v) => .ok { a with assignments := a.assignments ++ v.toList }
  | (.output, v) => .ok { a with output := v }
  | (.debug, _) => .ok { a with debug := true }
  | (.jsonLogs, _) => .ok { a with jsonLogs := true }

def giveAll (a : Arguments) : List Given → Except Refusal Arguments
  | [] => .ok a
  | g :: gs => do
    let a ← a.give g
    a.giveAll gs

/-- Reads word after word; what no switch takes is kept in `left`. -/
def read (a : Arguments) (left : List Text) : List Word → Except Refusal (Arguments × List Text)
  | [] => .ok (a, left)
  | .plain t :: ws => read a (left ++ [t]) ws
  | .unknown t :: ws => read a (left ++ [t]) ws
  | .switch s _ none :: ws =>
    if s.takesValue then
      match ws with
      | .plain v :: ws => do
        let a ← a.give (s, some (.text v))
        read a left ws
      | _ => .error (.usage (.missingValue s))
    else do
      let a ← a.give (s, none)
      read a left ws
  | .switch s short (some t) :: ws =>
    match cluster s short t with
    | .error e => .error (.usage e)
    | .ok (gs, none) => do
      let a ← a.giveAll gs
      read a left ws
    | .ok (gs, some s) =>
      match ws with
      | .plain v :: ws => do
        let a ← a.giveAll (gs ++ [(s, some (.text v))])
        read a left ws
      | _ => .error (.usage (.missingValue s))

/-- A template must be given, and nothing may be left over. -/
def parse (arguments : List Text) : Except Refusal Arguments :=
  match words arguments with
  | .error e => .error (.usage e)
  | .ok ws => do
    let (a, left) ← read {} [] ws
    if a.template.isNone && a.templateFile.isNone then .error (.usage .noTemplate)
    else if left ≠ [] then .error (.usage (.unknown left))
    else return a

end Arguments
end Citations
